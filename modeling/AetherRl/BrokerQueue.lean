import AetherRl.BrokerReplies
import Mathlib.Data.List.Nodup
/-!
# BrokerQueue — which runs of the broker lose no request

A request whose waiter is pending is held where it is queued or active: the owner's exchanges then reach it.  A suspended
`exchange` that resumes takes the head of the queue without looking at the active request again; where that one is still
unanswered it is overwritten and lost.
-/
namespace Aether
namespace InferenceBroker

open Broker

variable {b b' : InferenceBroker} {e : Event} {a : Answer} {h : Nat} {x x' : LeaseExchange} {i : OpaqueId}

/-- The request is in the queue, or is the active one. -/
def Held (x : LeaseExchange) (i : OpaqueId) : Prop :=
  (∃ q ∈ x.requests, q.requestId = i) ∨ ∃ q, x.activeRequest = some q ∧ q.requestId = i

/-- Every request of the exchange whose waiter is not done is held. -/
def Holds (x : LeaseExchange) : Prop := ∀ i, x.waiters i = some .pending → Held x i

/-- No registered lease has lost a request. -/
def NoLoss (b : InferenceBroker) : Prop := ∀ l (h : Nat) x, b.exchange? l = some (h, x) → Holds x

/-- A suspended exchange resumes only where no active request waits for its reply. -/
def ResumesIdle (b : InferenceBroker) (e : Event) : Prop :=
  ∀ (h : Nat) x q, e = .resume h → b.exchanges[h]? = some x → x.activeRequest = some q →
    x.waiters q.requestId ≠ some .pending

/-- The ids of the active request and of the queue, in the order they were taken or will be. -/
def line (x : LeaseExchange) : List OpaqueId := (x.activeRequest.toList ++ x.requests).map (·.requestId)

/-- Nothing is in the line twice, and what is stored has the size of a reply. -/
structure Lined (limit : Nat) (drawn : List OpaqueId) (x : LeaseExchange) : Prop where
  nodup : (line x).Nodup
  drawn : line x ⊆ drawn
  small : ∀ i r, x.replies i = some r → r.body.length ≤ limit

/-- The line of every exchange is in order, and an open exchange is registered. -/
structure InLine (b : InferenceBroker) : Prop where
  ok : b.Ok
  lined : ∀ (h : Nat) x, b.exchanges[h]? = some x → Lined b.bodyLimitBytes b.drawn x
  registered : ∀ (h : Nat) x, b.exchanges[h]? = some x → x.closed = false → ∃ l, b.leases l = some h

theorem held_iff : Held x i ↔ i ∈ line x := by
  simp only [Held, line, List.mem_map, List.mem_append, Option.mem_toList]
  constructor
  · rintro (⟨q, hq, rfl⟩ | ⟨q, hq, rfl⟩)
    · exact ⟨q, .inr hq, rfl⟩
    · exact ⟨q, .inl hq, rfl⟩
  · rintro ⟨q, hq | hq, rfl⟩
    · exact .inr ⟨q, hq, rfl⟩
    · exact .inl ⟨q, hq, rfl⟩

theorem line_take {q : InferenceRequest} {rest : List InferenceRequest} (hq : x.requests = q :: rest) :
    (line (x.take q rest)).Sublist (line x) ∧ (x.activeRequest = none → line (x.take q rest) = line x) := by
  simp only [line, LeaseExchange.take, hq]
  constructor
  · exact List.Sublist.map _ (List.sublist_append_right ..)
  · intro hact
    rw [hact]
    rfl

theorem line_put (q : InferenceRequest) : line (x.put q) = line x ++ [q.requestId] := by
  simp [line, LeaseExchange.put, List.map_append]

/-- An accepted reply takes at most its own request out of the line. -/
theorem line_accept {limit : Nat} {r : InferenceReply} (ha : x.accept limit r = .ok x') :
    (line x').Sublist (line x) ∧ ∀ i ∈ line x, i ≠ r.requestId → i ∈ line x' := by
  unfold LeaseExchange.accept at ha
  split at ha
  · cases ha
  · split at ha
    · cases ha
    · cases ha
      simp only [line]
      cases hact : x.activeRequest with
      | none => exact ⟨List.Sublist.refl _, fun i hi _ => hi⟩
      | some q =>
        simp only [Option.any_some, decide_eq_true_eq]
        split
        · rename_i hid
          refine ⟨List.Sublist.map _ (List.sublist_append_right ..), fun i hi hne => ?_⟩
          rw [Option.toList_some, List.singleton_append, List.map_cons, List.mem_cons] at hi
          rcases hi with rfl | hi
          · exact absurd hid hne
          · simpa using hi
        · exact ⟨List.Sublist.refl _, fun i hi _ => hi⟩

theorem Taken.line (ht : Taken x x') : line x' = line x := by
  rcases ht with rfl | ⟨hact, q, rest, hq, rfl⟩
  · rfl
  · exact (line_take hq).2 hact

/-- **A turn keeps the line in order.** -/
theorem Turn.lined (ht : Turn b e b'.drawn h x x') (hlimit : b'.bodyLimitBytes = b.bodyLimitBytes)
    (hsub : b.drawn ⊆ b'.drawn) (hx : Lined b.bodyLimitBytes b.drawn x) : Lined b'.bodyLimitBytes b'.drawn x' := by
  rw [hlimit]
  have shorter : ∀ y, (line y).Sublist (line x) → y.replies = x.replies → Lined b.bodyLimitBytes b'.drawn y :=
    fun y hl hr => ⟨hx.nodup.sublist hl, fun i hi => hsub (hx.drawn (hl.subset hi)), by rw [hr]; exact hx.small⟩
  cases ht with
  | stay => exact shorter x (List.Sublist.refl _) rfl
  | close => exact shorter _ (List.Sublist.refl _) rfl
  | finish => exact shorter _ (List.Sublist.refl _) rfl
  | cancel => exact shorter _ (List.Sublist.refl _) rfl
  | resume q rest _ hq => exact shorter _ (line_take hq).1 rfl
  | put l q _ _ _ hf hd =>
    refine ⟨?_, fun i hi => ?_, hx.small⟩
    · rw [line_put]
      refine List.nodup_append.2 ⟨hx.nodup, List.nodup_singleton _, fun i hi j hj => ?_⟩
      rw [List.mem_singleton] at hj
      rintro rfl
      subst hj
      exact hf.1 (hx.drawn hi)
    · rw [line_put, List.mem_append, List.mem_singleton] at hi
      rcases hi with hi | rfl
      · exact hsub (hx.drawn hi)
      · exact hd
  | exchange l reply x₁ _ _ _ ha ht =>
    cases reply with
    | none =>
      cases ha
      exact shorter _ (ht.line ▸ List.Sublist.refl _) ht.fields.2.2.1
    | some r =>
      have hl : (line x').Sublist (line x) := ht.line ▸ (line_accept ha).1
      refine ⟨hx.nodup.sublist hl, fun i hi => hsub (hx.drawn (hl.subset hi)), fun i p hp => ?_⟩
      obtain ⟨hsize, -, -, -, -, -, hreplies, -⟩ := accept_eq_ok ha
      rw [ht.fields.2.2.1, hreplies] at hp
      by_cases hi : i = r.requestId
      · subst hi
        rw [Function.update_self, Option.some.injEq] at hp
        exact hp ▸ hsize
      · rw [Function.update_of_ne hi] at hp
        exact hx.small i p hp

theorem step_limit (hs : b.step e = some (a, b')) : b'.bodyLimitBytes = b.bodyLimitBytes := by
  cases e with
  | register l w s =>
    simp only [step, register, Option.some.injEq] at hs
    split at hs <;> cases hs <;> rfl
  | close l =>
    simp only [step, InferenceBroker.close, Option.some.injEq] at hs
    split at hs
    · cases hs
      rfl
    · split at hs <;> cases hs <;> rfl
  | request l q =>
    simp only [step, InferenceBroker.request] at hs
    split at hs
    · rw [Option.some.injEq] at hs
      split at hs
      · cases hs
        rfl
      · split at hs
        · cases hs
          rfl
        · split at hs <;> cases hs <;> rfl
    · cases hs
  | finish k i =>
    simp only [step, Option.bind_eq_some_iff] at hs
    obtain ⟨y, hy, w, hw, hs⟩ := hs
    split at hs <;> cases hs
    rfl
  | cancel k i =>
    simp only [step, Option.bind_eq_some_iff] at hs
    obtain ⟨y, hy, hs⟩ := hs
    split at hs <;> cases hs
    rfl
  | exchange l w s reply =>
    simp only [step, Option.some.injEq] at hs
    cases hp : b.exchange l w s reply with
    | error e =>
      rw [hp] at hs
      cases hs
      rfl
    | ok p =>
      rw [hp] at hs
      cases hs
      cases hk : b.exchange? l with
      | none =>
        simp only [InferenceBroker.exchange, hk, Except.ok.injEq] at hp
        exact hp ▸ rfl
      | some kx =>
        obtain ⟨k, x⟩ := kx
        by_cases howner : (x.workerId, x.workerSessionId) = (w, s)
        · obtain ⟨rfl, rfl⟩ := Prod.mk.inj howner
          rw [exchange_owner hk] at hp
          cases ha : x.acceptAny b.bodyLimitBytes reply with
          | error e =>
            rw [ha] at hp
            cases hp
          | ok y =>
            simp only [ha, Except.bind] at hp
            split at hp
            · cases hp
              rfl
            · split at hp
              · cases hp
                rfl
              · split at hp <;> cases hp <;> rfl
        · simp only [InferenceBroker.exchange, hk] at hp
          rw [if_pos howner] at hp
          cases hp
  | resume k =>
    simp only [step] at hs
    split at hs
    · simp only [Option.bind_eq_some_iff] at hs
      obtain ⟨y, hy, hs⟩ := hs
      split at hs <;> cases hs
      rfl
    · cases hs
  | timeOut k =>
    simp only [step] at hs
    split at hs <;> cases hs
    rfl

/-- **Every step keeps the lines in order.** -/
theorem step_inLine (hb : b.InLine) (hs : b.step e = some (a, b')) : b'.InLine := by
  obtain ⟨hleases, hdrawn⟩ := step_leases hs
  refine ⟨step_ok hb.ok hs, fun k x' hx' => ?_, fun k x' hx' ho => ?_⟩
  · rcases step_exchange hs hx' with ⟨x, hx, ht⟩ | ⟨-, w, s, rfl, -⟩
    · exact ht.lined (step_limit hs) hdrawn (hb.lined k x hx)
    · exact ⟨List.nodup_nil, List.nil_subset _, fun i r hr => by simp [LeaseExchange.new] at hr⟩
  -- an open exchange was open before, so it was registered, and its lease was not closed
  rcases step_exchange hs hx' with ⟨x, hx, ht⟩ | ⟨l, w, s, -, hl⟩
  · have hopen : x.closed = false := by
      by_contra hc
      rw [Bool.not_eq_false] at hc
      rw [ht.kept.closed hc] at ho
      cases ho
    obtain ⟨l, hl⟩ := hb.registered k x hx hopen
    rcases hleases with ⟨hn, -⟩ | ⟨r, w, s, hfree, hn, -⟩ | ⟨r, j, hj, hn, -, hclosed⟩
    · exact ⟨l, by rw [hn, hl]⟩
    · refine ⟨l, ?_⟩
      rw [hn, Function.update_of_ne, hl]
      rintro rfl
      rw [hfree] at hl
      cases hl
    · refine ⟨l, ?_⟩
      rw [hn, Function.update_of_ne, hl]
      rintro rfl
      rw [hl, Option.some.injEq] at hj
      subst hj
      rw [hclosed x' hx'] at ho
      cases ho
  · exact ⟨l, hl⟩

/-- **A turn that does not resume over a waiting request keeps every request.** -/
theorem Turn.holds {drawn : List OpaqueId} (ht : Turn b e drawn h x x') (hh : Holds x)
    (hidle : ∀ q, e = .resume h → x.activeRequest = some q → x.waiters q.requestId ≠ some .pending) : Holds x' := by
  intro i hi
  rw [held_iff]
  have before : x.waiters i = some .pending → i ∈ line x := fun hw => held_iff.1 (hh i hw)
  cases ht with
  | stay => exact before hi
  | close l =>
    -- no waiter of a closed exchange is pending
    obtain ⟨w, -, hw⟩ := Option.map_eq_some_iff.1 hi
    cases w <;> cases hw
  | put l q =>
    rw [line_put, List.mem_append, List.mem_singleton]
    by_cases hq : i = q.requestId
    · exact .inr hq
    · exact .inl (before ((Function.update_of_ne hq ..).symm.trans hi))
  | finish j =>
    replace hi : Function.update x.waiters j none i = some .pending := hi
    rw [Function.update_apply] at hi
    split at hi
    · cases hi
    · exact before hi
  | cancel j =>
    replace hi : Function.update x.waiters j (some .cancelled) i = some .pending := hi
    rw [Function.update_apply] at hi
    split at hi
    · cases hi
    · exact before hi
  | exchange l reply x₁ _ _ _ ha ht =>
    rw [ht.line]
    rw [ht.fields.2.2.2.1] at hi
    cases reply with
    | none =>
      cases ha
      exact before hi
    | some r =>
      obtain ⟨-, -, -, -, -, -, -, hwaiters⟩ := accept_eq_ok ha
      rw [hwaiters] at hi
      split at hi
      · rename_i hp
        rw [Function.update_apply] at hi
        split at hi
        · cases hi
        · rename_i hne
          exact (line_accept ha).2 i (before hi) hne
      · rename_i hp
        refine (line_accept ha).2 i (before hi) ?_
        rintro rfl
        exact hp hi
  | resume q rest he hq =>
    have hmem := before hi
    simp only [line, hq, List.map_append, List.mem_append, List.mem_map, Option.mem_toList] at hmem
    rcases hmem with ⟨p, hp, rfl⟩ | hmem
    · exact absurd hi (hidle p he hp)
    · simpa [line, LeaseExchange.take, eq_comm] using hmem

/-- **An exchange that resumes over a waiting request loses it.** -/
theorem resume_loses {q : InferenceRequest} (hb : b.InLine) (hs : b.step (.resume h) = some (a, b'))
    (hx : b.exchanges[h]? = some x) (hact : x.activeRequest = some q) (hp : x.waiters q.requestId = some .pending) :
    ¬ b'.NoLoss := by
  intro hno
  have hopen : x.closed = false := by
    by_contra hc
    rw [Bool.not_eq_false] at hc
    exact (hb.ok.exchanges h x hx).closed hc _ hp
  obtain ⟨l, hl⟩ := hb.registered h x hx hopen
  simp only [step] at hs
  split at hs
  · rw [hx, Option.bind_some] at hs
    split at hs
    · cases hs
    · rename_i q' rest hq
      simp only [Option.some.injEq, Prod.mk.injEq] at hs
      obtain ⟨-, rfl⟩ := hs
      have hlt : h < b.exchanges.length := (List.getElem?_eq_some_iff.1 hx).1
      have hheld := hno l h (x.take q' rest) (exchange?_eq_some.2 ⟨hl, List.getElem?_set_self hlt⟩) _ hp
      have hn := (hb.lined h x hx).nodup
      simp only [line, hact, hq, Option.toList_some, List.singleton_append, List.map_cons, List.nodup_cons] at hn
      refine hn.1 ?_
      simpa [held_iff, line, LeaseExchange.take] using hheld
  · cases hs

/-- **A step keeps every request exactly where it does not resume over a waiting one.** -/
theorem step_noLoss_iff (hb : b.InLine) (hno : b.NoLoss) (hs : b.step e = some (a, b')) :
    b.ResumesIdle e ↔ b'.NoLoss := by
  constructor
  · intro hidle l k x' hl
    obtain ⟨hl, hx'⟩ := exchange?_eq_some.1 hl
    rcases step_exchange hs hx' with ⟨x, hx, ht⟩ | ⟨-, w, s, rfl, -⟩
    · by_cases hopen : x.closed = true
      · exact fun i hi => absurd hi ((step_ok hb.ok hs).exchanges k x' hx' |>.closed (ht.kept.closed hopen) i)
      · obtain ⟨l', hl'⟩ := hb.registered k x hx (by simpa using hopen)
        exact ht.holds (hno l' k x (exchange?_eq_some.2 ⟨hl', hx⟩)) fun q he => hidle k x q he hx
    · exact fun i hi => by simp [LeaseExchange.new] at hi
  · rintro hno' k x q rfl hx hact hp
    exact resume_loses hb hs hx hact hp hno'

theorem new_inLine (limit : Nat) : (new limit).InLine :=
  ⟨new_broker_ok limit, fun _ _ hx => by simp [new] at hx, fun _ _ hx => by simp [new] at hx⟩

theorem new_noLoss (limit : Nat) : (new limit).NoLoss := fun l _ _ hl => by simp [new, exchange?] at hl

/-! ## What is held is offered again -/

/-- The lease's owner reaches the request by exchanges of its own. -/
def Offered (b : InferenceBroker) (l : OpaqueId) (x : LeaseExchange) (i : OpaqueId) : Prop :=
  ∃ events c q d, (∀ e ∈ events, ∃ reply, e = Event.exchange l x.workerId x.workerSessionId reply) ∧
    Machine.run next b events = some c ∧
    c.step (.exchange l x.workerId x.workerSessionId none) = some (.offer (.request q), d) ∧ q.requestId = i

theorem exchange_active {l : OpaqueId} {q : InferenceRequest} (hl : b.exchange? l = some (h, x))
    (ho : x.closed = false) (hact : x.activeRequest = some q) :
    b.step (.exchange l x.workerId x.workerSessionId none) = some (.offer (.request q), b.set h x) := by
  simp only [step, exchange_owner hl, LeaseExchange.acceptAny, Except.bind, ho, hact]
  rfl

theorem exchange_idle {l : OpaqueId} {q : InferenceRequest} {rest : List InferenceRequest}
    (hl : b.exchange? l = some (h, x)) (ho : x.closed = false) (hact : x.activeRequest = none)
    (hq : x.requests = q :: rest) :
    b.step (.exchange l x.workerId x.workerSessionId none) = some (.offer (.request q), b.set h (x.take q rest)) := by
  simp only [step, exchange_owner hl, LeaseExchange.acceptAny, Except.bind, ho, hact, hq]
  rfl

/-- The owner answers the active request and gets the next. -/
theorem exchange_next {l : OpaqueId} {q q' : InferenceRequest} {rest : List InferenceRequest} (hb : b.InLine)
    (hl : b.exchange? l = some (h, x)) (ho : x.closed = false) (hact : x.activeRequest = some q)
    (hq : x.requests = q' :: rest) : ∃ r c x', b.step (.exchange l x.workerId x.workerSessionId (some r)) =
      some (.offer (.request q'), c) ∧ c.exchange? l = some (h, x') ∧ x'.workerId = x.workerId ∧
      x'.workerSessionId = x.workerSessionId ∧ x'.closed = false ∧ x'.activeRequest = some q' ∧ x'.requests = rest := by
  obtain ⟨hk, hx⟩ := exchange?_eq_some.1 hl
  -- the reply there is, or one of no length
  obtain ⟨r, hid, hsize, hprev⟩ : ∃ r : InferenceReply, r.requestId = q.requestId ∧
      r.body.length ≤ b.bodyLimitBytes ∧ ∀ p, x.replies q.requestId = some p → p = r := by
    cases hr : x.replies q.requestId with
    | none => exact ⟨⟨q.requestId, 200, "", []⟩, rfl, Nat.zero_le _, fun p hp => by cases hp⟩
    | some r =>
      exact ⟨r, ((hb.ok.exchanges h x hx).stored _ r hr).1, (hb.lined h x hx).small _ r hr,
        fun p hp => (Option.some.inj hp).symm⟩
  have hlt : h < b.exchanges.length := (List.getElem?_eq_some_iff.1 hx).1
  have hdiff : ¬ ∃ p ∈ x.replies r.requestId, p ≠ r := by
    rintro ⟨p, hp, hne⟩
    rw [hid] at hp
    exact hne (hprev p hp)
  obtain ⟨y, ha, ho', hact', hq', hw⟩ : ∃ y, x.accept b.bodyLimitBytes r = .ok y ∧ y.closed = false ∧
      y.activeRequest = none ∧ y.requests = q' :: rest ∧ y.workerId = x.workerId ∧
      y.workerSessionId = x.workerSessionId := by
    rw [LeaseExchange.accept, if_neg (Nat.not_lt.2 hsize), if_neg hdiff]
    exact ⟨_, rfl, ho, by simp [hact, hid], hq, rfl, rfl⟩
  refine ⟨r, b.set h (y.take q' rest), y.take q' rest, ?_,
    exchange?_eq_some.2 ⟨hk, List.getElem?_set_self hlt⟩, hw.1, hw.2, ho', rfl, rfl⟩
  simp only [step, exchange_owner hl, LeaseExchange.acceptAny, ha, Except.bind, ho', hact', hq']
  rfl

theorem offered_active {l : OpaqueId} : ∀ (rest : List InferenceRequest) (b : InferenceBroker) (x : LeaseExchange) q,
    b.InLine → b.exchange? l = some (h, x) → x.closed = false → x.activeRequest = some q → x.requests = rest →
    i ∈ line x → Offered b l x i := by
  intro rest
  induction rest with
  | nil =>
    intro b x q hb hl ho hact hq hi
    simp only [line, hact, hq, Option.toList_some, List.append_nil, List.map_cons, List.map_nil,
      List.mem_singleton] at hi
    exact ⟨[], b, q, _, by simp, rfl, exchange_active hl ho hact, hi.symm⟩
  | cons q' rest ih =>
    intro b x q hb hl ho hact hq hi
    by_cases hqi : q.requestId = i
    · exact ⟨[], b, q, _, by simp, rfl, exchange_active hl ho hact, hqi⟩
    obtain ⟨r, c, x', hs, hl', hw₁, hw₂, ho', hact', hq'⟩ := exchange_next hb hl ho hact hq
    have hi' : i ∈ line x' := by
      simp only [line, hact, hq, Option.toList_some, List.singleton_append, List.map_cons, List.mem_cons] at hi
      simp only [line, hact', hq', Option.toList_some, List.singleton_append, List.map_cons, List.mem_cons]
      exact hi.resolve_left (Ne.symm hqi)
    obtain ⟨events, d, p, d', hown, hr, hoff, hp⟩ := ih c x' q' (step_inLine hb hs) hl' ho' hact' hq' hi'
    rw [hw₁, hw₂] at hown hoff
    refine ⟨.exchange l x.workerId x.workerSessionId (some r) :: events, d, p, d', ?_, ?_, hoff, hp⟩
    · exact fun e he => (List.mem_cons.1 he).elim (fun h => ⟨some r, h⟩) (hown e)
    · rw [Machine.run, next_eq_some.2 ⟨_, hs⟩, Option.bind_some, hr]

/-- **What is in the line of a lease is offered to its owner.** -/
theorem offered_of_line {l : OpaqueId} (hb : b.InLine) (hl : b.exchange? l = some (h, x)) (hi : i ∈ line x) :
    Offered b l x i := by
  obtain ⟨hk, hx⟩ := exchange?_eq_some.1 hl
  obtain ⟨y, hy, ho⟩ := hb.ok.opened l h hk
  rw [hx, Option.some.injEq] at hy
  subst hy
  cases hact : x.activeRequest with
  | some q => exact offered_active _ b x q hb hl ho hact rfl hi
  | none =>
    cases hq : x.requests with
    | nil => simp [line, hact, hq] at hi
    | cons q rest =>
      have hs := exchange_idle hl ho hact hq
      have hlt : h < b.exchanges.length := (List.getElem?_eq_some_iff.1 hx).1
      obtain ⟨events, c, p, d, hown, hr, hoff, hp⟩ := offered_active rest (b.set h (x.take q rest)) (x.take q rest) q
        (step_inLine hb hs) (exchange?_eq_some.2 ⟨hk, List.getElem?_set_self hlt⟩) ho rfl rfl
        ((line_take hq).2 hact ▸ hi)
      refine ⟨.exchange l x.workerId x.workerSessionId none :: events, c, p, d, ?_, ?_, hoff, hp⟩
      · exact fun e he => (List.mem_cons.1 he).elim (fun h => ⟨none, h⟩) (hown e)
      · rw [Machine.run, next_eq_some.2 ⟨_, hs⟩, Option.bind_some, hr]

/-- **No request is lost, and every one waiting is offered again, exactly in the runs in which no suspended exchange
resumes over a request that waits.** -/
theorem requests_kept_iff {limit : Nat} {events : List Event} {b : InferenceBroker}
    (hr : Machine.run next (new limit) events = some b) :
    Machine.Meets next ResumesIdle (new limit) events ↔
      ∀ before, before <+: events → ∀ c, Machine.run next (new limit) before = some c →
        ∀ l (h : Nat) x i, c.exchange? l = some (h, x) → x.waiters i = some .pending → Held x i ∧ Offered c l x i := by
  have hinv : ∀ s e t, InLine s → next s e = some t → InLine t := fun s e t hs hn => by
    obtain ⟨a, hs'⟩ := next_eq_some.1 hn
    exact step_inLine hs hs'
  have hmeets := Machine.meets_iff (P := ResumesIdle) (I := NoLoss) hinv (fun s e t hg hno hn => by
    obtain ⟨a, hs⟩ := next_eq_some.1 hn
    exact step_noLoss_iff hg hno hs) events (new limit) (new_inLine limit) (new_noLoss limit) b hr
  rw [hmeets]
  constructor
  · intro hall before hb c hc l h x i hl hp
    have hheld := hall before hb c hc l h x hl i hp
    exact ⟨hheld, offered_of_line (Machine.run_invariant hinv (new_inLine limit) hc) hl (held_iff.1 hheld)⟩
  · exact fun hall before hb c hc l h x hl i hp => (hall before hb c hc l h x i hl hp).1

instance decidableResumesIdle : ∀ (b : InferenceBroker) (e : Event), Decidable (b.ResumesIdle e)
  | b, .resume h => decidable_of_iff (∀ x ∈ b.exchanges[h]?, ∀ q ∈ x.activeRequest, x.waiters q.requestId ≠ some .pending)
      ⟨fun hall _ x q he hx hq => by cases he; exact hall x hx q hq, fun hall x hx q hq => hall h x q rfl hx hq⟩
  | _, .register .. | _, .close _ | _, .request .. | _, .finish .. | _, .cancel .. | _, .exchange .. | _, .timeOut _ =>
    isTrue fun _ _ _ he => by cases he

/-- Two exchanges of the owner wait, and the second is woken once the request of the first is answered. -/
def inTurn : List Event :=
  [.register "lease" "worker" "session", .exchange "lease" "worker" "session" none,
    .exchange "lease" "worker" "session" none, .request "lease" ⟨"inference-1", "GET", "/v1/models", "{}", []⟩,
    .resume 0, .exchange "lease" "worker" "session" (some ⟨"inference-1", 200, "{}", []⟩),
    .request "lease" ⟨"inference-2", "GET", "/v1/models", "{}", []⟩, .resume 0]

theorem requests_kept_sample :
    (∀ before, before <+: inTurn → ∀ c, Machine.run next (new 8) before = some c →
      ∀ l (h : Nat) x i, c.exchange? l = some (h, x) → x.waiters i = some .pending → Held x i ∧ Offered c l x i) ∧
    ∃ b h x, Machine.run next (new 8) inTurn = some b ∧ b.exchange? "lease" = some (h, x) ∧
      x.waiters "inference-2" = some .pending := by
  have hrun : ((Machine.run next (new 8) inTurn).bind (fun b => b.exchange? "lease")).map
      (fun p => p.2.waiters "inference-2") = some (some .pending) := by decide +kernel
  simp only [Option.map_eq_some_iff, Option.bind_eq_some_iff] at hrun
  obtain ⟨⟨h, x⟩, ⟨b, hb, hl⟩, hp⟩ := hrun
  exact ⟨(requests_kept_iff hb).1 (by decide +kernel), b, h, x, hb, hl, hp⟩

/-- Two exchanges of the owner wait, each is woken for a request, and the second overwrites the first. -/
def overlapping : List Event :=
  [.register "lease" "worker" "session", .exchange "lease" "worker" "session" none,
    .exchange "lease" "worker" "session" none, .request "lease" ⟨"inference-1", "GET", "/v1/models", "{}", []⟩,
    .resume 0, .request "lease" ⟨"inference-2", "GET", "/v1/models", "{}", []⟩, .resume 0]

theorem not_every_request_kept : ¬ ∀ limit events b, Machine.run next (new limit) events = some b → b.NoLoss := by
  intro hall
  have hrun : ((Machine.run next (new 8) overlapping).bind (fun b => b.exchange? "lease")).map
      (fun p => (p.2.waiters "inference-1", line p.2)) = some (some .pending, ["inference-2"]) := by decide +kernel
  simp only [Option.map_eq_some_iff, Option.bind_eq_some_iff, Prod.mk.injEq] at hrun
  obtain ⟨⟨h, x⟩, ⟨b, hb, hl⟩, hp, hline⟩ := hrun
  have hheld := held_iff.1 (hall 8 overlapping b hb "lease" h x hl "inference-1" hp)
  rw [hline] at hheld
  revert hheld
  decide

end InferenceBroker
end Aether
