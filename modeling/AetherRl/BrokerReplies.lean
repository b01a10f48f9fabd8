import AetherRl.Broker
/-!
# BrokerReplies — what an event does to an exchange, and the discipline of replies

`Turn` lists what one event may do to the exchange of a lease.  From it: a waiter once done stays done, it is done by a
reply of its own id from the lease's owner or by the close of the lease, a stored reply is never replaced, and a lease
that is closed leaves no waiter behind.
-/
namespace Aether

/-- A stored reply names its request, whose waiter is done; a closed exchange has no waiter left. -/
structure Broker.LeaseExchange.Ok (drawn : List OpaqueId) (x : Broker.LeaseExchange) : Prop where
  replied : ∀ i r, x.waiters i = some (.replied r) → x.replies i = some r
  stored : ∀ i r, x.replies i = some r → r.requestId = i ∧ x.waiters i ≠ some .pending
  closed : x.closed = true → ∀ i, x.waiters i ≠ some .pending
  drawn : ∀ i w, x.waiters i = some w → i ∈ drawn

namespace InferenceBroker

open Broker

variable {b b' : InferenceBroker} {e : Event} {a : Answer} {h : Nat} {x x' : LeaseExchange} {i : OpaqueId}

/-! ## Turns -/

/-- The head of the queue was taken, or not. -/
def Taken (x x' : LeaseExchange) : Prop :=
  x' = x ∨ x.activeRequest = none ∧ ∃ q rest, x.requests = q :: rest ∧ x' = x.take q rest

/-- **What an event does to an exchange** that was there; `drawn` are the ids drawn after it. -/
inductive Turn (b : InferenceBroker) (e : Event) (drawn : List OpaqueId) (h : Nat) (x : LeaseExchange) :
    LeaseExchange → Prop
  | stay : Turn b e drawn h x x
  | close (l : OpaqueId) (he : e = .close l) (hl : b.leases l = some h) (ho : x.closed = false) :
      Turn b e drawn h x x.close
  | put (l : OpaqueId) (q : InferenceRequest) (he : e = .request l q) (hl : b.leases l = some h) (ho : x.closed = false)
      (hf : b.Fresh q.requestId) (hd : q.requestId ∈ drawn) : Turn b e drawn h x (x.put q)
  | finish (i : OpaqueId) (w : Waiter) (he : e = .finish h i) (hw : x.waiters i = some w) (hd : w ≠ .pending) :
      Turn b e drawn h x { x with waiters := Function.update x.waiters i none }
  | cancel (i : OpaqueId) (he : e = .cancel h i) (hw : x.waiters i = some .pending) :
      Turn b e drawn h x { x with waiters := Function.update x.waiters i (some .cancelled) }
  | exchange (l : OpaqueId) (reply : Option InferenceReply) (x₁ x₂ : LeaseExchange)
      (he : e = .exchange l x.workerId x.workerSessionId reply) (hl : b.leases l = some h)
      (ha : x.acceptAny b.bodyLimitBytes reply = .ok x₁) (ht : Taken x₁ x₂) : Turn b e drawn h x x₂
  | resume (q : InferenceRequest) (rest : List InferenceRequest) (he : e = .resume h) (hq : x.requests = q :: rest) :
      Turn b e drawn h x (x.take q rest)

theorem exchange?_eq_some {l : OpaqueId} :
    b.exchange? l = some (h, x) ↔ b.leases l = some h ∧ b.exchanges[h]? = some x := by
  simp only [exchange?, Option.bind_eq_some_iff, Option.map_eq_some_iff, Prod.mk.injEq]
  constructor
  · rintro ⟨h', hl, x', hx, rfl, rfl⟩
    exact ⟨hl, hx⟩
  · rintro ⟨hl, hx⟩
    exact ⟨h, hl, x, hx, rfl, rfl⟩

/-- One exchange is set, the others stay. -/
theorem set_turn {k : Nat} {y y' : LeaseExchange} {drawn : List OpaqueId} (hy : b.exchanges[k]? = some y)
    (ht : Turn b e drawn k y y') (hx : b.exchanges[h]? = some x) :
    ∃ x', (b.exchanges.set k y')[h]? = some x' ∧ Turn b e drawn h x x' := by
  rw [List.getElem?_set]
  by_cases hk : k = h
  · subst hk
    rw [hy, Option.some.injEq] at hx
    subst hx
    have hlt : k < b.exchanges.length := (List.getElem?_eq_some_iff.1 hy).1
    exact ⟨y', by simp [hlt], ht⟩
  · exact ⟨x, by simp [hk, hx], .stay⟩

theorem exchange_turn {l w s : OpaqueId} {reply : Option InferenceReply} {p : Offer × InferenceBroker}
    {drawn : List OpaqueId} (hs : b.exchange l w s reply = .ok p) (hx : b.exchanges[h]? = some x) :
    ∃ x', p.2.exchanges[h]? = some x' ∧ Turn b (.exchange l w s reply) drawn h x x' := by
  unfold InferenceBroker.exchange at hs
  split at hs
  · cases hs
    exact ⟨x, hx, .stay⟩
  · rename_i k y hy
    rw [exchange?_eq_some] at hy
    obtain ⟨hl, hy⟩ := hy
    split at hs
    · cases hs
    · rename_i howner
      rw [not_not, Prod.mk.injEq] at howner
      obtain ⟨rfl, rfl⟩ := howner
      cases hacc : y.acceptAny b.bodyLimitBytes reply with
      | error e =>
        rw [hacc] at hs
        cases hs
      | ok y₁ =>
        rw [hacc] at hs
        have turn : ∀ y₂, Taken y₁ y₂ → ∃ x', (b.exchanges.set k y₂)[h]? = some x' ∧
            Turn b (.exchange l y.workerId y.workerSessionId reply) drawn h x x' :=
          fun y₂ ht => set_turn hy (.exchange l reply y₁ y₂ rfl hl hacc ht) hx
        change (if y₁.closed = true then _ else _) = _ at hs
        split at hs
        · cases hs
          exact turn y₁ (Or.inl rfl)
        · split at hs
          · cases hs
            exact turn y₁ (Or.inl rfl)
          · rename_i hact
            split at hs
            · rename_i q rest hq
              cases hs
              exact turn _ (Or.inr ⟨hact, q, rest, hq, rfl⟩)
            · cases hs
              exact turn y₁ (Or.inl rfl)

/-- **Every step takes a turn on every exchange there is.** -/
theorem step_turn (hs : b.step e = some (a, b')) (hx : b.exchanges[h]? = some x) :
    ∃ x', b'.exchanges[h]? = some x' ∧ Turn b e b'.drawn h x x' := by
  have stays : ∀ drawn, ∃ x', b.exchanges[h]? = some x' ∧ Turn b e drawn h x x' := fun _ => ⟨x, hx, .stay⟩
  cases e with
  | register l w s =>
    simp only [step, register, Option.some.injEq] at hs
    split at hs
    · cases hs
      exact stays _
    · cases hs
      have hlt : h < b.exchanges.length := (List.getElem?_eq_some_iff.1 hx).1
      exact ⟨x, by rw [List.getElem?_append_left hlt]; exact hx, .stay⟩
  | close l =>
    simp only [step, InferenceBroker.close, Option.some.injEq] at hs
    split at hs
    · cases hs
      exact stays _
    · rename_i k y hy
      rw [exchange?_eq_some] at hy
      split at hs
      · cases hs
        exact stays _
      · rename_i ho
        cases hs
        exact set_turn hy.2 (.close l rfl hy.1 (Bool.eq_false_iff.2 ho)) hx
  | request l q =>
    simp only [step] at hs
    split at hs
    · rename_i hf
      rw [Option.some.injEq] at hs
      unfold InferenceBroker.request at hs
      split at hs
      · cases hs
        exact stays _
      · split at hs
        · cases hs
          exact stays _
        · rename_i k y hy
          rw [exchange?_eq_some] at hy
          split at hs
          · cases hs
            exact stays _
          · rename_i ho
            cases hs
            exact set_turn hy.2 (.put l q rfl hy.1 (Bool.eq_false_iff.2 ho) hf List.mem_cons_self) hx
    · cases hs
  | finish k i =>
    simp only [step, Option.bind_eq_some_iff] at hs
    obtain ⟨y, hy, w, hw, hs⟩ := hs
    split at hs
    · cases hs
    · rename_i hd
      cases hs
      exact set_turn hy (.finish i w rfl hw hd) hx
  | cancel k i =>
    simp only [step, Option.bind_eq_some_iff] at hs
    obtain ⟨y, hy, hs⟩ := hs
    split at hs
    · rename_i hw
      cases hs
      exact set_turn hy (.cancel i rfl hw) hx
    · cases hs
  | exchange l w s reply =>
    simp only [step, Option.some.injEq] at hs
    cases hp : b.exchange l w s reply with
    | error e =>
      rw [hp] at hs
      cases hs
      exact stays _
    | ok p =>
      rw [hp] at hs
      cases hs
      exact exchange_turn hp hx
  | resume k =>
    simp only [step] at hs
    split at hs
    · simp only [Option.bind_eq_some_iff] at hs
      obtain ⟨y, hy, hs⟩ := hs
      split at hs
      · cases hs
      · rename_i q rest hq
        cases hs
        exact set_turn hy (.resume q rest rfl hq) hx
    · cases hs
  | timeOut k =>
    simp only [step] at hs
    split at hs
    · cases hs
      exact stays _
    · cases hs

/-- **What an event does to the leases**: nothing, a new exchange, or one lease less. -/
inductive LeasesNext (b b' : InferenceBroker) : Prop
  | same (leases : b'.leases = b.leases) (length : b'.exchanges.length = b.exchanges.length)
  | registered (l w s : OpaqueId) (free : b.leases l = none)
      (leases : b'.leases = Function.update b.leases l (some b.exchanges.length))
      (exchanges : b'.exchanges = b.exchanges ++ [.new w s])
  | closed (l : OpaqueId) (h : Nat) (hl : b.leases l = some h) (leases : b'.leases = Function.update b.leases l none)
      (length : b'.exchanges.length = b.exchanges.length)
      (exchange : ∀ x, b'.exchanges[h]? = some x → x.closed = true)

theorem step_leases (hs : b.step e = some (a, b')) : LeasesNext b b' ∧ b.drawn ⊆ b'.drawn := by
  have same : ∀ {b'}, b'.leases = b.leases → b'.exchanges.length = b.exchanges.length → b'.drawn = b.drawn →
      LeasesNext b b' ∧ b.drawn ⊆ b'.drawn := fun h₁ h₂ h₃ => ⟨.same h₁ h₂, h₃ ▸ List.Subset.refl _⟩
  cases e with
  | register l w s =>
    simp only [step, register, Option.some.injEq] at hs
    split at hs
    · cases hs
      exact same rfl rfl rfl
    · rename_i hfree
      cases hs
      exact ⟨.registered l w s (by simpa using hfree) rfl rfl, List.Subset.refl _⟩
  | close l =>
    simp only [step, InferenceBroker.close, Option.some.injEq] at hs
    split at hs
    · cases hs
      exact same rfl rfl rfl
    · rename_i k y hy
      rw [exchange?_eq_some] at hy
      split at hs
      · rename_i hc
        cases hs
        refine ⟨.closed l k hy.1 rfl rfl fun x hx => ?_, List.Subset.refl _⟩
        rw [hy.2, Option.some.injEq] at hx
        exact hx ▸ hc
      · cases hs
        refine ⟨.closed l k hy.1 rfl List.length_set fun x hx => ?_, List.Subset.refl _⟩
        have hlt : k < b.exchanges.length := (List.getElem?_eq_some_iff.1 hy.2).1
        have he : (b.exchanges.set k y.close)[k]? = some x := hx
        rw [List.getElem?_set_self hlt, Option.some.injEq] at he
        rw [← he]
        rfl
  | request l q =>
    simp only [step] at hs
    split at hs
    · rw [Option.some.injEq] at hs
      unfold InferenceBroker.request at hs
      split at hs
      · cases hs
        exact same rfl rfl rfl
      · split at hs
        · cases hs
          exact same rfl rfl rfl
        · split at hs
          · cases hs
            exact same rfl rfl rfl
          · cases hs
            exact ⟨.same rfl List.length_set, List.subset_cons_self _ _⟩
    · cases hs
  | finish k i =>
    simp only [step, Option.bind_eq_some_iff] at hs
    obtain ⟨y, hy, w, hw, hs⟩ := hs
    split at hs
    · cases hs
    · cases hs
      exact same rfl List.length_set rfl
  | cancel k i =>
    simp only [step, Option.bind_eq_some_iff] at hs
    obtain ⟨y, hy, hs⟩ := hs
    split at hs
    · cases hs
      exact same rfl List.length_set rfl
    · cases hs
  | exchange l w s reply =>
    simp only [step, Option.some.injEq] at hs
    cases hp : b.exchange l w s reply with
    | error e =>
      rw [hp] at hs
      cases hs
      exact same rfl rfl rfl
    | ok p =>
      rw [hp] at hs
      cases hs
      unfold InferenceBroker.exchange at hp
      split at hp
      · cases hp
        exact same rfl rfl rfl
      · split at hp
        · cases hp
        · rename_i k y _ _
          cases hacc : y.acceptAny b.bodyLimitBytes reply with
          | error e =>
            rw [hacc] at hp
            cases hp
          | ok y₁ =>
            rw [hacc] at hp
            change (if y₁.closed = true then _ else _) = _ at hp
            split at hp
            · cases hp
              exact same rfl List.length_set rfl
            · split at hp
              · cases hp
                exact same rfl List.length_set rfl
              · split at hp
                · cases hp
                  exact same rfl List.length_set rfl
                · cases hp
                  exact same rfl List.length_set rfl
  | resume k =>
    simp only [step] at hs
    split at hs
    · simp only [Option.bind_eq_some_iff] at hs
      obtain ⟨y, hy, hs⟩ := hs
      split at hs
      · cases hs
      · cases hs
        exact same rfl List.length_set rfl
    · cases hs
  | timeOut k =>
    simp only [step] at hs
    split at hs
    · cases hs
      exact same rfl rfl rfl
    · cases hs

/-! ## What holds of every exchange -/

/-- Every exchange is in order, and a registered one is open and belongs to one lease. -/
structure Ok (b : InferenceBroker) : Prop where
  exchanges : ∀ (h : Nat) x, b.exchanges[h]? = some x → x.Ok b.drawn
  opened : ∀ l h, b.leases l = some h → ∃ x, b.exchanges[h]? = some x ∧ x.closed = false
  unique : ∀ l l' h, b.leases l = some h → b.leases l' = some h → l = l'

/-- What an accepted reply does, field by field. -/
theorem accept_eq_ok {limit : Nat} {r : InferenceReply} (ha : x.accept limit r = .ok x') :
    r.body.length ≤ limit ∧ (∀ p, x.replies r.requestId = some p → p = r) ∧
      x'.workerId = x.workerId ∧ x'.workerSessionId = x.workerSessionId ∧ x'.requests = x.requests ∧
      x'.closed = x.closed ∧ x'.replies = Function.update x.replies r.requestId (some r) ∧
      x'.waiters = if x.waiters r.requestId = some .pending then
        Function.update x.waiters r.requestId (some (.replied r)) else x.waiters := by
  unfold LeaseExchange.accept at ha
  split at ha
  · cases ha
  · rename_i hsize
    split at ha
    · cases ha
    · rename_i hprev
      cases ha
      refine ⟨by omega, fun p hp => ?_, rfl, rfl, rfl, rfl, rfl, rfl⟩
      by_contra hne
      exact hprev ⟨p, hp, hne⟩

theorem accept_ok {limit : Nat} {r : InferenceReply} {drawn : List OpaqueId} (hx : x.Ok drawn)
    (ha : x.accept limit r = .ok x') : x'.Ok drawn := by
  obtain ⟨-, hprev, -, -, -, hclosed, hreplies, hwaiters⟩ := accept_eq_ok ha
  have waiter : ∀ j w, x'.waiters j = some w →
      (j = r.requestId ∧ w = .replied r ∧ x.waiters j = some .pending) ∨
        x.waiters j = some w ∧ (j = r.requestId → w ≠ .pending) := by
    intro j w hw
    rw [hwaiters] at hw
    split at hw
    · rename_i hp
      by_cases hj : j = r.requestId
      · subst hj
        rw [Function.update_self, Option.some.injEq] at hw
        exact .inl ⟨rfl, hw.symm, hp⟩
      · rw [Function.update_of_ne hj] at hw
        exact .inr ⟨hw, fun h => absurd h hj⟩
    · rename_i hp
      refine .inr ⟨hw, ?_⟩
      rintro rfl rfl
      exact hp hw
  constructor
  · intro j p hp
    rw [hreplies]
    rcases waiter j _ hp with ⟨rfl, hw, -⟩ | ⟨hw, -⟩
    · cases hw
      exact Function.update_self ..
    · have hs := hx.replied j p hw
      by_cases hj : j = r.requestId
      · subst hj
        rw [Function.update_self, hprev p hs]
      · rw [Function.update_of_ne hj, hs]
  · intro j p hp
    rw [hreplies] at hp
    by_cases hj : j = r.requestId
    · subst hj
      rw [Function.update_self, Option.some.injEq] at hp
      subst hp
      refine ⟨rfl, fun hw => ?_⟩
      rcases waiter _ _ hw with ⟨-, hw, -⟩ | ⟨-, hd⟩
      · cases hw
      · exact hd rfl rfl
    · rw [Function.update_of_ne hj] at hp
      refine ⟨(hx.stored j p hp).1, fun hw => ?_⟩
      rcases waiter _ _ hw with ⟨rfl, -⟩ | ⟨hw, -⟩
      · exact hj rfl
      · exact (hx.stored j p hp).2 hw
  · intro hc j hw
    rw [hclosed] at hc
    rcases waiter j _ hw with ⟨-, hw, -⟩ | ⟨hw, -⟩
    · cases hw
    · exact hx.closed hc j hw
  · intro j w hw
    rcases waiter j w hw with ⟨-, -, hp⟩ | ⟨hw, -⟩
    · exact hx.drawn j _ hp
    · exact hx.drawn j w hw

theorem Taken.fields (ht : Taken x x') : x'.workerId = x.workerId ∧ x'.workerSessionId = x.workerSessionId ∧
    x'.replies = x.replies ∧ x'.waiters = x.waiters ∧ x'.closed = x.closed := by
  rcases ht with rfl | ⟨-, q, rest, -, rfl⟩ <;> exact ⟨rfl, rfl, rfl, rfl, rfl⟩

/-- Queue and active request play no part. -/
theorem ok_congr {drawn : List OpaqueId} (hx : x.Ok drawn) (hr : x'.replies = x.replies) (hw : x'.waiters = x.waiters)
    (hc : x'.closed = x.closed) : x'.Ok drawn :=
  ⟨by rw [hw, hr]; exact hx.replied, by rw [hw, hr]; exact hx.stored, by rw [hw, hc]; exact hx.closed,
    by rw [hw]; exact hx.drawn⟩

/-- A waiter that is done or none takes the place of another. -/
theorem ok_update {drawn : List OpaqueId} (hx : x.Ok drawn) (i : OpaqueId) {o : Option Waiter}
    (hp : o ≠ some .pending) (hr : ∀ r, o ≠ some (.replied r)) (hd : o ≠ none → i ∈ drawn) :
    ({ x with waiters := Function.update x.waiters i o } : LeaseExchange).Ok drawn := by
  have waiter : ∀ j w, Function.update x.waiters i o j = some w → o = some w ∧ j = i ∨ x.waiters j = some w := by
    intro j w hw
    by_cases hj : j = i
    · subst hj
      rw [Function.update_self] at hw
      exact .inl ⟨hw, rfl⟩
    · rw [Function.update_of_ne hj] at hw
      exact .inr hw
  constructor
  · intro j r hw
    rcases waiter j _ hw with ⟨ho, -⟩ | hw
    · exact absurd ho (hr r)
    · exact hx.replied j r hw
  · intro j r hs
    refine ⟨(hx.stored j r hs).1, fun hw => ?_⟩
    rcases waiter j _ hw with ⟨ho, -⟩ | hw
    · exact hp ho
    · exact (hx.stored j r hs).2 hw
  · intro hc j hw
    rcases waiter j _ hw with ⟨ho, -⟩ | hw
    · exact hp ho
    · exact hx.closed hc j hw
  · intro j w hw
    rcases waiter j w hw with ⟨ho, rfl⟩ | hw
    · exact hd (by rw [ho]; exact Option.some_ne_none w)
    · exact hx.drawn j w hw

theorem close_ok {drawn : List OpaqueId} (hx : x.Ok drawn) : x.close.Ok drawn := by
  have waiter : ∀ j w, x.close.waiters j = some w → ∃ w', x.waiters j = some w' ∧ closeWaiter w' = w :=
    fun j w hw => by simpa only [LeaseExchange.close, Option.map_eq_some_iff] using hw
  have done : ∀ j, x.close.waiters j ≠ some .pending := by
    intro j hw
    obtain ⟨w', -, hc⟩ := waiter j _ hw
    cases w' <;> cases hc
  constructor
  · intro j r hw
    obtain ⟨w', hw', hc⟩ := waiter j _ hw
    cases w' <;> cases hc
    exact hx.replied j r hw'
  · exact fun j r hs => ⟨(hx.stored j r hs).1, done j⟩
  · exact fun _ => done
  · intro j w hw
    obtain ⟨w', hw', -⟩ := waiter j w hw
    exact hx.drawn j w' hw'

theorem put_ok {q : InferenceRequest} {drawn drawn' : List OpaqueId} (hx : x.Ok drawn) (ho : x.closed = false)
    (hf : x.replies q.requestId = none) (hd : q.requestId ∈ drawn') (hsub : drawn ⊆ drawn') :
    (x.put q).Ok drawn' := by
  have waiter : ∀ j w, (x.put q).waiters j = some w → j = q.requestId ∧ w = .pending ∨ x.waiters j = some w := by
    intro j w hw
    replace hw : Function.update x.waiters q.requestId (some .pending) j = some w := hw
    by_cases hj : j = q.requestId
    · subst hj
      rw [Function.update_self, Option.some.injEq] at hw
      exact .inl ⟨rfl, hw.symm⟩
    · rw [Function.update_of_ne hj] at hw
      exact .inr hw
  constructor
  · intro j r hw
    rcases waiter j _ hw with ⟨-, hw⟩ | hw
    · cases hw
    · exact hx.replied j r hw
  · intro j r hs
    refine ⟨(hx.stored j r hs).1, fun hw => ?_⟩
    rcases waiter j _ hw with ⟨rfl, -⟩ | hw
    · rw [show x.replies q.requestId = some r from hs] at hf
      cases hf
    · exact (hx.stored j r hs).2 hw
  · intro hc
    rw [show x.closed = true from hc] at ho
    cases ho
  · intro j w hw
    rcases waiter j w hw with ⟨rfl, -⟩ | hw
    · exact hd
    · exact hsub (hx.drawn j w hw)

/-- **A turn keeps an exchange in order.** -/
theorem Turn.ok {drawn : List OpaqueId} (ht : Turn b e drawn h x x') (hh : b.exchanges[h]? = some x)
    (hsub : b.drawn ⊆ drawn) (hx : x.Ok b.drawn) : x'.Ok drawn := by
  have hx' : x.Ok drawn := ⟨hx.replied, hx.stored, hx.closed, fun i w hw => hsub (hx.drawn i w hw)⟩
  cases ht with
  | stay => exact hx'
  | close => exact close_ok hx'
  | put l q _ _ ho hf hd => exact put_ok hx ho (hf.2 x (List.mem_of_getElem? hh)) hd hsub
  | finish i w => exact ok_update hx' i (by simp) (by simp) (by simp)
  | cancel i _ hw => exact ok_update hx' i (by simp) (by simp) (fun _ => hx'.drawn i _ hw)
  | exchange l reply x₁ _ _ _ ha ht =>
    obtain ⟨-, -, hr, hw, hc⟩ := ht.fields
    have h₁ : x₁.Ok drawn := by
      cases reply with
      | none =>
        cases ha
        exact hx'
      | some r => exact accept_ok hx' ha
    exact ok_congr h₁ hr hw hc
  | resume q rest => exact ok_congr hx' rfl rfl rfl

theorem new_ok (w s : OpaqueId) (drawn : List OpaqueId) : (LeaseExchange.new w s).Ok drawn := by
  constructor <;> intros <;> simp_all [LeaseExchange.new]

/-- Where an exchange after a step comes from. -/
theorem step_exchange (hs : b.step e = some (a, b')) (hx' : b'.exchanges[h]? = some x') :
    (∃ x, b.exchanges[h]? = some x ∧ Turn b e b'.drawn h x x') ∨ ∃ l w s, x' = .new w s ∧ b'.leases l = some h := by
  by_cases hlt : h < b.exchanges.length
  · obtain ⟨x, hx⟩ : ∃ x, b.exchanges[h]? = some x := ⟨_, List.getElem?_eq_getElem hlt⟩
    obtain ⟨y, hy, ht⟩ := step_turn hs hx
    rw [hx', Option.some.injEq] at hy
    subst hy
    exact .inl ⟨x, hx, ht⟩
  · right
    have hlen : h < b'.exchanges.length := (List.getElem?_eq_some_iff.1 hx').1
    rcases (step_leases hs).1 with ⟨-, hl⟩ | ⟨l, w, s, -, hn, hl⟩ | ⟨-, -, -, -, hl, -⟩
    · omega
    · rw [hl, List.length_append, List.length_singleton] at hlen
      obtain rfl : h = b.exchanges.length := by omega
      rw [hl, List.getElem?_append_right le_rfl, Nat.sub_self, List.getElem?_cons_zero, Option.some.injEq] at hx'
      exact ⟨l, w, s, hx'.symm, by rw [hn, Function.update_self]⟩
    · omega

/-- **Every step keeps the broker in order.** -/
theorem step_ok (hb : b.Ok) (hs : b.step e = some (a, b')) : b'.Ok := by
  obtain ⟨hleases, hdrawn⟩ := step_leases hs
  -- an open exchange is closed by the close of its own lease only
  have stays : ∀ l k, b.leases l = some k → b'.leases l = some k →
      ∃ x', b'.exchanges[k]? = some x' ∧ x'.closed = false := by
    intro l k hl hl'
    obtain ⟨x, hx, ho⟩ := hb.opened l k hl
    obtain ⟨x', hx', ht⟩ := step_turn hs hx
    refine ⟨x', hx', ?_⟩
    cases ht with
    | close l' he hk _ =>
      obtain rfl := hb.unique l l' k hl hk
      subst he
      have hex : b.exchange? l = some (k, x) := exchange?_eq_some.2 ⟨hl, hx⟩
      simp only [step, InferenceBroker.close, hex, ho, Option.some.injEq, Prod.mk.injEq] at hs
      obtain ⟨-, rfl⟩ := hs
      simp [InferenceBroker.set] at hl'
    | stay => exact ho
    | put => exact ho
    | finish => exact ho
    | cancel => exact ho
    | resume => exact ho
    | exchange l reply x₁ _ _ _ ha ht =>
      rw [ht.fields.2.2.2.2]
      cases reply with
      | none =>
        cases ha
        exact ho
      | some r => rw [(accept_eq_ok ha).2.2.2.2.2.1, ho]
  have small : ∀ l k, b.leases l = some k → k < b.exchanges.length := fun l k hl => by
    obtain ⟨x, hx, -⟩ := hb.opened l k hl
    exact (List.getElem?_eq_some_iff.1 hx).1
  refine ⟨fun k x' hx' => ?_, fun l k hl' => ?_, fun l l' k hl hl' => ?_⟩
  · rcases step_exchange hs hx' with ⟨x, hx, ht⟩ | ⟨-, w, s, rfl, -⟩
    · exact ht.ok hx hdrawn (hb.exchanges k x hx)
    · exact new_ok w s _
  · rcases hleases with ⟨hl, -⟩ | ⟨r, w, s, -, hl, hnew⟩ | ⟨r, j, -, hl, -, -⟩
    · exact stays l k (hl ▸ hl') hl'
    · by_cases hr : l = r
      · subst hr
        rw [hl, Function.update_self, Option.some.injEq] at hl'
        subst hl'
        exact ⟨.new w s, by rw [hnew, List.getElem?_append_right le_rfl, Nat.sub_self]; rfl, rfl⟩
      · refine stays l k ?_ hl'
        rwa [hl, Function.update_of_ne hr] at hl'
    · by_cases hr : l = r
      · subst hr
        rw [hl, Function.update_self] at hl'
        cases hl'
      · refine stays l k ?_ hl'
        rwa [hl, Function.update_of_ne hr] at hl'
  · rcases hleases with ⟨hn, -⟩ | ⟨r, w, s, -, hn, -⟩ | ⟨r, j, -, hn, -, -⟩
    · rw [hn] at hl hl'
      exact hb.unique l l' k hl hl'
    · rw [hn, Function.update_apply] at hl hl'
      split at hl <;> split at hl'
      · rename_i h₁ h₂
        rw [h₁, h₂]
      · cases hl
        exact absurd (small _ _ hl') (lt_irrefl _)
      · cases hl'
        exact absurd (small _ _ hl) (lt_irrefl _)
      · exact hb.unique l l' k hl hl'
    · rw [hn, Function.update_apply] at hl hl'
      split at hl <;> split at hl'
      · cases hl
      · cases hl
      · cases hl'
      · exact hb.unique l l' k hl hl'

theorem next_eq_some {c : InferenceBroker} : b.next e = some c ↔ ∃ a, b.step e = some (a, c) := by
  simp only [next, Option.map_eq_some_iff]
  constructor
  · rintro ⟨⟨a, c'⟩, hs, rfl⟩
    exact ⟨a, hs⟩
  · rintro ⟨a, hs⟩
    exact ⟨_, hs, rfl⟩

theorem new_broker_ok (limit : Nat) : (new limit).Ok :=
  ⟨fun _ _ hx => by simp [new] at hx, fun _ _ hl => by simp [new] at hl, fun _ _ _ hl => by simp [new] at hl⟩

theorem run_ok {events : List Event} {c : InferenceBroker} (hb : b.Ok) (hr : Machine.run next b events = some c) :
    c.Ok :=
  Machine.run_invariant (fun _ _ _ hb hn => by
    obtain ⟨_, hs⟩ := next_eq_some.1 hn
    exact step_ok hb hs) hb hr

/-- **Every reachable broker is in order.** -/
theorem Reachable.ok (hb : b.Reachable) : b.Ok := by
  obtain ⟨limit, events, hr⟩ := hb
  exact run_ok (new_broker_ok limit) hr

/-! ## Over a run -/

/-- What stays of an exchange, whatever happens: its owner, its replies, its close, and the waiters that are done until
their request pops them. -/
structure Kept (drawn : List OpaqueId) (x x' : LeaseExchange) : Prop where
  owner : x'.workerId = x.workerId ∧ x'.workerSessionId = x.workerSessionId
  replies : ∀ i r, x.replies i = some r → x'.replies i = some r
  waiters : ∀ i ∈ drawn, x.waiters i ≠ some .pending → x'.waiters i = x.waiters i ∨ x'.waiters i = none
  closed : x.closed = true → x'.closed = true

theorem Kept.refl (drawn : List OpaqueId) (x : LeaseExchange) : Kept drawn x x :=
  ⟨⟨rfl, rfl⟩, fun _ _ h => h, fun _ _ _ => .inl rfl, id⟩

theorem Kept.trans {drawn drawn' : List OpaqueId} {x y z : LeaseExchange} (hsub : drawn ⊆ drawn')
    (h₁ : Kept drawn x y) (h₂ : Kept drawn' y z) : Kept drawn x z := by
  refine ⟨⟨h₂.owner.1.trans h₁.owner.1, h₂.owner.2.trans h₁.owner.2⟩, fun i r h => h₂.replies i r (h₁.replies i r h),
    fun i hi hp => ?_, fun h => h₂.closed (h₁.closed h)⟩
  rcases h₁.waiters i hi hp with hy | hy
  · rw [← hy] at hp ⊢
    exact h₂.waiters i (hsub hi) hp
  · right
    rcases h₂.waiters i (hsub hi) (by simp [hy]) with hz | hz
    · rw [hz, hy]
    · exact hz

/-- **A turn keeps what stays.** -/
theorem Turn.kept {drawn : List OpaqueId} (ht : Turn b e drawn h x x') : Kept b.drawn x x' := by
  cases ht with
  | stay => exact .refl _ _
  | close l =>
    refine ⟨⟨rfl, rfl⟩, fun _ _ h => h, fun i _ hp => .inl ?_, fun _ => rfl⟩
    change (x.waiters i).map closeWaiter = x.waiters i
    cases hw : x.waiters i with
    | none => rfl
    | some w =>
      rw [hw] at hp
      cases w with
      | pending => exact absurd rfl hp
      | _ => rfl
  | put l q _ _ _ hf =>
    refine ⟨⟨rfl, rfl⟩, fun _ _ h => h, fun i hi _ => .inl ?_, id⟩
    refine Function.update_of_ne ?_ _ _
    rintro rfl
    exact hf.1 hi
  | finish j =>
    refine ⟨⟨rfl, rfl⟩, fun _ _ h => h, fun i _ _ => ?_, id⟩
    by_cases hj : i = j
    · subst hj
      exact .inr (Function.update_self ..)
    · exact .inl (Function.update_of_ne hj ..)
  | cancel j _ hw =>
    refine ⟨⟨rfl, rfl⟩, fun _ _ h => h, fun i _ hp => .inl (Function.update_of_ne ?_ ..), id⟩
    rintro rfl
    exact hp hw
  | exchange l reply x₁ _ _ _ ha ht =>
    obtain ⟨hw₁, hw₂, hr, hw, hc⟩ := ht.fields
    cases reply with
    | none =>
      cases ha
      exact ⟨⟨hw₁, hw₂⟩, fun i r h => by rw [hr, h], fun i _ _ => .inl (by rw [hw]), fun h => by rw [hc, h]⟩
    | some r =>
      obtain ⟨-, hprev, ho₁, ho₂, -, hclosed, hreplies, hwaiters⟩ := accept_eq_ok ha
      refine ⟨⟨hw₁.trans ho₁, hw₂.trans ho₂⟩, fun i p h => ?_, fun i _ hp => .inl ?_, fun h => by rw [hc, hclosed, h]⟩
      · rw [hr, hreplies]
        by_cases hi : i = r.requestId
        · subst hi
          rw [Function.update_self, hprev p h]
        · rw [Function.update_of_ne hi, h]
      · rw [hw, hwaiters]
        split
        · rename_i hpend
          refine Function.update_of_ne ?_ _ _
          rintro rfl
          exact hp hpend
        · rfl
  | resume => exact ⟨⟨rfl, rfl⟩, fun _ _ h => h, fun _ _ _ => .inl rfl, id⟩

/-- What a run keeps of a broker. -/
def Discipline (b b' : InferenceBroker) : Prop :=
  b.drawn ⊆ b'.drawn ∧
    ∀ (h : Nat) x, b.exchanges[h]? = some x → ∃ x', b'.exchanges[h]? = some x' ∧ Kept b.drawn x x'

/-- **Every run keeps the discipline.** -/
theorem run_discipline {events : List Event} {c : InferenceBroker} (hr : Machine.run next b events = some c) :
    Discipline b c := by
  refine Machine.run_relates (fun _ _ _ _ _ => trivial)
    (fun s => ⟨List.Subset.refl _, fun _ x hx => ⟨x, hx, .refl _ _⟩⟩) (fun s t u hst htu => ?_) (fun s e t _ hn => ?_)
    events b trivial c hr
  · refine ⟨List.Subset.trans hst.1 htu.1, fun k x hx => ?_⟩
    obtain ⟨y, hy, h₁⟩ := hst.2 k x hx
    obtain ⟨z, hz, h₂⟩ := htu.2 k y hy
    exact ⟨z, hz, h₁.trans hst.1 h₂⟩
  · obtain ⟨a, hs⟩ := next_eq_some.1 hn
    refine ⟨(step_leases hs).2, fun k x hx => ?_⟩
    obtain ⟨x', hx', ht⟩ := step_turn hs hx
    exact ⟨x', hx', ht.kept⟩

/-! ## Steps -/

/-- **A waiter is resolved by a reply of its own id from the lease's owner, by the lease's close, or cancelled.** -/
theorem Turn.resolved {drawn : List OpaqueId} (ht : Turn b e drawn h x x') (hp : x.waiters i = some .pending) :
    x'.waiters i = some .pending ∨
      (∃ l r, e = .exchange l x.workerId x.workerSessionId (some r) ∧ b.leases l = some h ∧ r.requestId = i ∧
        x'.waiters i = some (.replied r)) ∨
      (∃ l, e = .close l ∧ b.leases l = some h ∧ x'.waiters i = some .closed) ∨
      e = .cancel h i ∧ x'.waiters i = some .cancelled := by
  cases ht with
  | stay => exact .inl hp
  | close l he hl => exact .inr (.inr (.inl ⟨l, he, hl, by simp [LeaseExchange.close, hp, closeWaiter]⟩))
  | put l q =>
    left
    change Function.update x.waiters q.requestId (some .pending) i = _
    rw [Function.update_apply]
    split
    · rfl
    · exact hp
  | finish j w _ hw hd =>
    left
    refine (Function.update_of_ne ?_ _ _).trans hp
    rintro rfl
    rw [hp, Option.some.injEq] at hw
    exact hd hw.symm
  | cancel j he =>
    by_cases hj : i = j
    · subst hj
      exact .inr (.inr (.inr ⟨he, Function.update_self ..⟩))
    · exact .inl ((Function.update_of_ne hj ..).trans hp)
  | exchange l reply x₁ _ he hl ha ht =>
    rw [ht.fields.2.2.2.1]
    cases reply with
    | none =>
      cases ha
      exact .inl hp
    | some r =>
      rw [(accept_eq_ok ha).2.2.2.2.2.2.2]
      by_cases hj : i = r.requestId
      · subst hj
        exact .inr (.inl ⟨l, r, he, hl, rfl, by rw [if_pos hp, Function.update_self]⟩)
      · left
        split
        · rw [Function.update_of_ne hj, hp]
        · exact hp
  | resume => exact .inl hp

/-- The owner's exchange gives its reply to the lease first. -/
theorem exchange_owner {l : OpaqueId} {reply : Option InferenceReply} (hl : b.exchange? l = some (h, x)) :
    b.exchange l x.workerId x.workerSessionId reply = (x.acceptAny b.bodyLimitBytes reply).bind fun x =>
      if x.closed then .ok (.stop, b.set h x)
      else match x.activeRequest with
        | some q => .ok (.request q, b.set h x)
        | none => match x.requests with
          | q :: rest => .ok (.request q, b.set h (x.take q rest))
          | [] => .ok (.suspended, { b.set h x with suspended := h :: b.suspended }) := by
  simp only [InferenceBroker.exchange, hl, ne_eq, not_true_eq_false, if_false]
  rfl

/-- **A reply submitted again is accepted, and resolves and replaces nothing.** -/
theorem exchange_again {l : OpaqueId} {r : InferenceReply} (hb : b.Ok) (hl : b.exchange? l = some (h, x))
    (hs : x.replies r.requestId = some r) (hsize : r.body.length ≤ b.bodyLimitBytes) :
    ∃ o b' x', b.step (.exchange l x.workerId x.workerSessionId (some r)) = some (.offer o, b') ∧
      b'.exchanges[h]? = some x' ∧ x'.waiters = x.waiters ∧ x'.replies = x.replies := by
  have hx := (exchange?_eq_some.1 hl).2
  obtain ⟨x₁, ha⟩ : ∃ x₁, x.accept b.bodyLimitBytes r = .ok x₁ := by
    unfold LeaseExchange.accept
    rw [if_neg (by omega), if_neg (by rintro ⟨p, hp, hne⟩; rw [hs] at hp; exact hne (Option.some.inj hp).symm)]
    exact ⟨_, rfl⟩
  have hstep : ∃ o b', b.step (.exchange l x.workerId x.workerSessionId (some r)) = some (.offer o, b') := by
    simp only [step, exchange_owner hl, LeaseExchange.acceptAny, ha, Except.bind]
    split
    · exact ⟨_, _, rfl⟩
    · split
      · exact ⟨_, _, rfl⟩
      · split
        · exact ⟨_, _, rfl⟩
        · exact ⟨_, _, rfl⟩
  obtain ⟨o, b', hstep⟩ := hstep
  obtain ⟨x', hx', ht⟩ := step_turn hstep hx
  refine ⟨o, b', x', hstep, hx', ?_⟩
  cases ht with
  | stay => exact ⟨rfl, rfl⟩
  | exchange l' reply y₁ _ he _ hy ht =>
    cases he
    obtain ⟨-, -, -, -, -, -, hreplies, hwaiters⟩ := accept_eq_ok hy
    rw [ht.fields.2.2.1, ht.fields.2.2.2.1, hreplies, hwaiters,
      if_neg ((hb.exchanges h x hx).stored _ r hs).2, ← hs, Function.update_eq_self]
    exact ⟨rfl, rfl⟩
  | _ => contradiction

/-- **An exchange of another session, with a body too large or with another reply is refused.** -/
theorem exchange_refused {l w s : OpaqueId} {reply : Option InferenceReply} (hl : b.exchange? l = some (h, x))
    (hbad : (w, s) ≠ (x.workerId, x.workerSessionId) ∨
      ∃ r, reply = some r ∧ (b.bodyLimitBytes < r.body.length ∨ ∃ p, x.replies r.requestId = some p ∧ p ≠ r)) :
    ∃ error, b.step (.exchange l w s reply) = some (.raised error, b) := by
  by_cases howner : (w, s) = (x.workerId, x.workerSessionId)
  · obtain ⟨rfl, rfl⟩ := Prod.mk.inj howner
    obtain ⟨r, rfl, hr⟩ := hbad.resolve_left (not_not_intro howner)
    have ha : ∃ error, x.accept b.bodyLimitBytes r = .error error := by
      unfold LeaseExchange.accept
      split
      · exact ⟨_, rfl⟩
      · rename_i hsize
        rw [if_pos (show ∃ p ∈ x.replies r.requestId, p ≠ r from hr.resolve_left hsize)]
        exact ⟨_, rfl⟩
    obtain ⟨error, ha⟩ := ha
    exact ⟨error, by simp only [step, exchange_owner hl, LeaseExchange.acceptAny, ha]; rfl⟩
  · refine ⟨.permission "inference lease belongs to a different worker session", ?_⟩
    simp only [step, InferenceBroker.exchange, hl]
    rw [if_pos (Ne.symm howner)]
    rfl

/-- **A close resolves the waiters of its lease that are not done.** -/
theorem step_close {l : OpaqueId} (hb : b.Ok) (hl : b.exchange? l = some (h, x)) :
    ∃ b', b.step (.close l) = some (.done, b') ∧ b'.leases l = none ∧ b'.exchanges[h]? = some x.close := by
  obtain ⟨hk, hx⟩ := exchange?_eq_some.1 hl
  obtain ⟨y, hy, ho⟩ := hb.opened l h hk
  rw [hx, Option.some.injEq] at hy
  subst hy
  have hlt : h < b.exchanges.length := (List.getElem?_eq_some_iff.1 hx).1
  refine ⟨_, rfl, ?_⟩
  simp only [InferenceBroker.close, hl, ho, InferenceBroker.set]
  exact ⟨Function.update_self .., List.getElem?_set_self hlt⟩

/-- **A request on a lease that is not registered raises.** -/
theorem request_closed {l : OpaqueId} {q : InferenceRequest} (hl : b.leases l = none) (hf : b.Fresh q.requestId) :
    ∃ error, b.step (.request l q) = some (.raised error, b) := by
  simp only [step, if_pos hf, InferenceBroker.request, exchange?, hl]
  split
  · exact ⟨_, rfl⟩
  · exact ⟨_, rfl⟩

/-- **The reply discipline of the broker**, in every state its runs reach. -/
theorem replies_disciplined (hb : b.Reachable) :
    -- over any run a stored reply stays, and a waiter that is done stays so until its request pops it for good
    (∀ events c, Machine.run next b events = some c → ∀ (h : Nat) x, b.exchanges[h]? = some x →
      ∃ x', c.exchanges[h]? = some x' ∧ (∀ i r, x.replies i = some r → x'.replies i = some r) ∧
        (∀ i w, x.waiters i = some w → w ≠ .pending → x'.waiters i = some w ∨ x'.waiters i = none) ∧
        ∀ i ∈ b.drawn, x.waiters i = none → x'.waiters i = none) ∧
    -- a reply names its request, and a waiter has the reply that is stored
    (∀ (h : Nat) x i r, b.exchanges[h]? = some x →
      (x.replies i = some r → r.requestId = i) ∧ (x.waiters i = some (.replied r) → x.replies i = some r)) ∧
    -- what resolves a waiter
    (∀ e a c (h : Nat) x i, b.step e = some (a, c) → b.exchanges[h]? = some x → x.waiters i = some .pending →
      ∃ x', c.exchanges[h]? = some x' ∧ (x'.waiters i = some .pending ∨
        (∃ l r, e = .exchange l x.workerId x.workerSessionId (some r) ∧ b.leases l = some h ∧ r.requestId = i ∧
          x'.waiters i = some (.replied r)) ∨
        (∃ l, e = .close l ∧ b.leases l = some h ∧ x'.waiters i = some .closed) ∨
        e = .cancel h i ∧ x'.waiters i = some .cancelled)) ∧
    -- the same reply again, and the exchanges that are refused
    (∀ l (h : Nat) x, b.exchange? l = some (h, x) →
      (∀ r, x.replies r.requestId = some r → r.body.length ≤ b.bodyLimitBytes →
        ∃ o c x', b.step (.exchange l x.workerId x.workerSessionId (some r)) = some (.offer o, c) ∧
          c.exchanges[h]? = some x' ∧ x'.waiters = x.waiters ∧ x'.replies = x.replies) ∧
      ∀ w s reply, ((w, s) ≠ (x.workerId, x.workerSessionId) ∨ ∃ r, reply = some r ∧
          (b.bodyLimitBytes < r.body.length ∨ ∃ p, x.replies r.requestId = some p ∧ p ≠ r)) →
        ∃ error, b.step (.exchange l w s reply) = some (.raised error, b)) ∧
    -- a close resolves what is left, and no request on the lease waits from then on
    (∀ l (h : Nat) x, b.exchange? l = some (h, x) → ∃ c, b.step (.close l) = some (.done, c) ∧ c.leases l = none ∧
      (∃ x', c.exchanges[h]? = some x' ∧ ∀ i, x'.waiters i = (x.waiters i).map closeWaiter) ∧
      ∀ events d, Machine.run next c events = some d → ∃ y, d.exchanges[h]? = some y ∧ ∀ i w, y.waiters i = some w →
        w ≠ .pending ∧ (d.step (.finish h i)).isSome) ∧
    ∀ l q, b.leases l = none → b.Fresh q.requestId → ∃ error, b.step (.request l q) = some (.raised error, b) := by
  have hok := hb.ok
  refine ⟨fun events c hr h x hx => ?_, fun h x i r hx => ?_, fun e a c h x i hs hx hp => ?_, fun l h x hl => ⟨?_, ?_⟩,
    fun l h x hl => ?_, fun l q => request_closed⟩
  · obtain ⟨x', hx', hk⟩ := (run_discipline hr).2 h x hx
    refine ⟨x', hx', hk.replies, fun i w hw hp => ?_, fun i hi hw => ?_⟩
    · rw [← hw]
      exact hk.waiters i ((hok.exchanges h x hx).drawn i w hw) (by simp [hw, hp])
    · rcases hk.waiters i hi (by simp [hw]) with hn | hn
      · rw [hn, hw]
      · exact hn
  · exact ⟨fun hs => ((hok.exchanges h x hx).stored i r hs).1, (hok.exchanges h x hx).replied i r⟩
  · obtain ⟨x', hx', ht⟩ := step_turn hs hx
    exact ⟨x', hx', ht.resolved hp⟩
  · exact fun r hs hsize => exchange_again hok hl hs hsize
  · exact fun w s reply hbad => exchange_refused hl hbad
  · obtain ⟨c, hs, hc, hx'⟩ := step_close hok hl
    refine ⟨c, hs, hc, ⟨_, hx', fun i => rfl⟩, fun events d hr => ?_⟩
    obtain ⟨y, hy, hk⟩ := (run_discipline hr).2 h _ hx'
    have hd : d.Ok := run_ok (step_ok hok hs) hr
    refine ⟨y, hy, fun i w hw => ?_⟩
    have hne : w ≠ .pending := by
      rintro rfl
      exact (hd.exchanges h y hy).closed (hk.closed rfl) i hw
    exact ⟨hne, by simp [step, hy, hw, hne]⟩

/-- A request taken by its worker and answered. -/
def answered : List Event :=
  [.register "lease" "worker" "session", .request "lease" ⟨"inference-1", "GET", "/v1/models", "{}", []⟩,
    .exchange "lease" "worker" "session" none,
    .exchange "lease" "worker" "session" (some ⟨"inference-1", 200, "{}", [1]⟩)]

theorem replies_disciplined_sample : ∃ b, Machine.run next (new 8) answered = some b ∧
    ∀ events c, Machine.run next b events = some c → ∃ x, c.exchanges[0]? = some x ∧
      x.replies "inference-1" = some ⟨"inference-1", 200, "{}", [1]⟩ := by
  have hrun : (((Machine.run next (new 8) answered).bind (fun b => b.exchanges[0]?)).bind
      (fun x => x.replies "inference-1")) = some ⟨"inference-1", 200, "{}", [1]⟩ := by decide +kernel
  simp only [Option.bind_eq_some_iff] at hrun
  obtain ⟨x, ⟨b, hb, hx⟩, hr⟩ := hrun
  refine ⟨b, hb, fun events c hc => ?_⟩
  obtain ⟨x', hx', hk, -⟩ := (replies_disciplined ⟨8, answered, hb⟩).1 events c hc 0 x hx
  exact ⟨x', hx', hk _ _ hr⟩

end InferenceBroker
end Aether
