import AetherRl.BrokerReplies
import AetherRl.EpisodeRunner
import Mathlib.Tactic.Linarith
/-!
# EpisodeRunnerSound — what holds of the runner in every interleaving

A lease that is not done with has its one task; its exchange is open until the task leaves the environment or is
cancelled, and closed once the task is done.  `Turn` is what a task's step, or its cancellation, may do; the invariant is
kept by every turn.
-/
namespace Aether
namespace CentralEpisodeRunner

open Episodes Broker

variable {c : Codec} {slots : Nat} {r r' : CentralEpisodeRunner} {k : Nat} {e e' : Episode}

/-! ## The broker's steps -/

section
variable {b b' : InferenceBroker} {l : OpaqueId}

theorem register_ok {w s : OpaqueId} (hb : b.Ok) (h : b.register l w s = .ok b') : b'.Ok := by
  refine InferenceBroker.step_ok (e := .register l w s) (a := .done) hb ?_
  simp only [InferenceBroker.step, InferenceBroker.answer, h]

theorem close_ok (hb : b.Ok) (l : OpaqueId) : (b.close l).Ok :=
  InferenceBroker.step_ok (e := .close l) (a := .done) hb rfl

theorem close_of_none (h : b.leases l = none) : b.close l = b := by
  simp only [InferenceBroker.close, InferenceBroker.exchange?, h, Option.bind_none]

theorem close_leases (hb : b.Ok) (l l' : OpaqueId) : (b.close l).leases l' = if l' = l then none else b.leases l' := by
  cases hl : b.leases l with
  | none =>
    rw [close_of_none hl]
    split
    · rename_i he
      rw [he, hl]
    · rfl
  | some h =>
    obtain ⟨x, hx, _⟩ := hb.opened l h hl
    have hex : b.exchange? l = some (h, x) := InferenceBroker.exchange?_eq_some.2 ⟨hl, hx⟩
    simp only [InferenceBroker.close, hex]
    split <;> simp [InferenceBroker.set, Function.update_apply]

/-- What is kept of every exchange: its owner, and that it is closed. -/
def Exchanges (b b' : InferenceBroker) : Prop :=
  ∀ (h : Nat) x, b.exchanges[h]? = some x → ∃ x', b'.exchanges[h]? = some x' ∧ x'.workerId = x.workerId ∧
    x'.workerSessionId = x.workerSessionId ∧ (x.closed = true → x'.closed = true)

theorem Exchanges.refl (b : InferenceBroker) : Exchanges b b := fun _ x hx => ⟨x, hx, rfl, rfl, id⟩

theorem exchanges_of_step {ev : InferenceBroker.Event} {a : InferenceBroker.Answer} (hs : b.step ev = some (a, b')) :
    Exchanges b b' := by
  intro h x hx
  obtain ⟨x', hx', ht⟩ := InferenceBroker.step_turn hs hx
  have hkept := ht.kept
  exact ⟨x', hx', hkept.owner.1, hkept.owner.2, hkept.closed⟩

theorem close_exchanges (b : InferenceBroker) (l : OpaqueId) : Exchanges b (b.close l) := by
  have hs : b.step (.close l) = some (.done, b.close l) := rfl
  exact exchanges_of_step hs

/-- The exchange of a lease is closed with it. -/
theorem close_closed {h : Nat} (hb : b.Ok) (hl : b.leases l = some h) :
    ∃ x, (b.close l).exchanges[h]? = some x ∧ x.closed = true := by
  obtain ⟨x, hx, _⟩ := hb.opened l h hl
  obtain ⟨b', hs, _, hclosed⟩ := InferenceBroker.step_close hb (InferenceBroker.exchange?_eq_some.2 ⟨hl, hx⟩)
  cases hs
  exact ⟨x.close, hclosed, rfl⟩

theorem exchange_leases {w s : OpaqueId} {reply : Option InferenceReply} {p : InferenceBroker.Offer × InferenceBroker}
    (h : b.exchange l w s reply = .ok p) : p.2.leases = b.leases := by
  unfold InferenceBroker.exchange at h
  split at h
  · cases h
    rfl
  · split at h
    · cases h
    · rename_i k x _ _
      cases ha : x.acceptAny b.bodyLimitBytes reply with
      | error => rw [ha] at h; cases h
      | ok x₁ =>
        rw [ha, Checked.ok_bind] at h
        split at h
        · cases h
          rfl
        · split at h
          · cases h
            rfl
          · split at h <;> cases h <;> rfl

/-- **What environments and workers do** registers no lease and closes none. -/
theorem external_leases {ev : InferenceBroker.Event} {a : InferenceBroker.Answer} (he : external ev = true)
    (hs : b.step ev = some (a, b')) : b'.leases = b.leases := by
  cases ev with
  | register => cases he
  | close => cases he
  | request l q =>
    simp only [InferenceBroker.step] at hs
    split at hs
    · cases hr : b.request l q with
      | error => rw [hr] at hs; cases hs; rfl
      | ok b₁ =>
        rw [hr] at hs
        cases hs
        unfold InferenceBroker.request at hr
        split at hr
        · cases hr
        · split at hr
          · cases hr
          · split at hr <;> cases hr
            rfl
    · cases hs
  | finish h i =>
    simp only [InferenceBroker.step, Option.bind_eq_some_iff] at hs
    obtain ⟨x, _, w, _, hs⟩ := hs
    split at hs <;> cases hs
    rfl
  | cancel h i =>
    simp only [InferenceBroker.step, Option.bind_eq_some_iff] at hs
    obtain ⟨x, _, hs⟩ := hs
    split at hs <;> cases hs
    rfl
  | exchange l w s reply =>
    simp only [InferenceBroker.step] at hs
    cases hp : b.exchange l w s reply with
    | error => rw [hp] at hs; cases hs; rfl
    | ok p =>
      rw [hp] at hs
      cases hs
      exact exchange_leases hp
  | resume h =>
    simp only [InferenceBroker.step] at hs
    split at hs
    · simp only [Option.bind_eq_some_iff] at hs
      obtain ⟨x, _, hs⟩ := hs
      split at hs <;> cases hs
      rfl
    · cases hs
  | timeOut h =>
    simp only [InferenceBroker.step] at hs
    split at hs <;> cases hs
    rfl

end

/-! ## The invariant -/

/-- The envelope is of an episode of the lease, and within the size its assignment allows. -/
def IsResult (c : Codec) (lease : AssignmentLease) (x : ResultEnvelope) : Prop :=
  (∃ completedAt episode, x = envelope c lease completedAt episode) ∧
    (c.resultEnvelopeBytes x).length ≤ lease.assignment.resultSizeLimitBytes

def IsFailure (lease : AssignmentLease) (f : FailureEnvelope) : Prop := ∃ failedAt error, f = failureOf lease failedAt error

/-- At most a result and then a failure, both of the lease. -/
def Reported (c : Codec) (lease : AssignmentLease) (reports : List Report) : Prop :=
  ∃ result : Option ResultEnvelope, ∃ failure : Option FailureEnvelope,
    reports = result.toList.map .result ++ failure.toList.map .failure ∧
    (∀ x ∈ result, IsResult c lease x) ∧ ∀ f ∈ failure, IsFailure lease f

/-- What a task has reported where it is. -/
def Told (c : Codec) (e : Episode) : Prop :=
  match e.stage with
  | .created | .waiting | .running => e.reports = []
  | .accepting x => e.reports = [.result x] ∧ IsResult c e.lease x
  | .failing _ | .done | .popped => Reported c e.lease e.reports

/-- The task's exchange is its worker session's; while it is open its lease is registered, and the task neither done nor
cancelled. -/
def Served (b : InferenceBroker) (e : Episode) : Prop :=
  ∃ x, b.exchanges[e.exchange]? = some x ∧ x.workerId = e.lease.workerId ∧ x.workerSessionId = e.lease.workerSessionId ∧
    (x.closed = false → b.leases e.lease.leaseId = some e.exchange ∧ e.stage.ended = false ∧ e.cancelled = false)

structure Sound (c : Codec) (slots : Nat) (r : CentralEpisodeRunner) : Prop where
  broker : r.broker.Ok
  tasks : ∀ l k, r.tasks.get? l = some k → ∃ e, r.episodes[k]? = some e ∧ e.lease.leaseId = l ∧ e.stage.isPopped = false
  listed : ∀ (k : Nat) e, r.episodes[k]? = some e → e.stage.isPopped = false → r.tasks.get? e.lease.leaseId = some k
  gate : r.gate + r.episodes.countP (·.stage.isRunning) = slots
  served : ∀ (k : Nat) e, r.episodes[k]? = some e → Served r.broker e
  opened : ∀ (k : Nat) e, r.episodes[k]? = some e → e.stage.within = true → e.cancelled = false →
    r.broker.leases e.lease.leaseId = some e.exchange
  leases : ∀ l h, r.broker.leases l = some h → ∃ (k : Nat) (e : Episode), r.episodes[k]? = some e ∧ e.stage.ended = false ∧
    e.lease.leaseId = l ∧ e.exchange = h
  awaited : ∀ (k : Nat) e, r.episodes[k]? = some e → e.stage.ended = false → r.expiresAt.get? e.lease.leaseId ≠ none
  told : ∀ (k : Nat) e, r.episodes[k]? = some e → Told c e

/-! ## Turns -/

/-- What a step of the task `k`, or its cancellation, may do. -/
structure Turn (c : Codec) (r : CentralEpisodeRunner) (k : Nat) (e e' : Episode) (r' : CentralEpisodeRunner) : Prop where
  episode : r.episodes[k]? = some e
  listed : e.stage.isPopped = false
  episodes : r'.episodes = r.episodes.set k e'
  lease : e'.lease = e.lease
  exchange : e'.exchange = e.exchange
  told : Told c e'
  gate : r'.gate + (if e'.stage.isRunning then 1 else 0) = r.gate + (if e.stage.isRunning then 1 else 0)
  tasks : r'.tasks = if e'.stage.isPopped then r.tasks.erase e.lease.leaseId else r.tasks
  broker : r'.broker = r.broker ∧ (e'.cancelled = true ∨ e'.stage.ended = true → e.cancelled = true ∨ e.stage.ended = true) ∨
    r'.broker = r.broker.close e.lease.leaseId ∧ (e'.stage.within = true → e'.cancelled = true)
  within : e'.stage.within = true → e'.cancelled = false → e.stage.within = true ∧ e.cancelled = false
  expiresAt : r'.expiresAt = r.expiresAt ∧ (e'.stage.ended = false → e.stage.ended = false) ∨
    r'.expiresAt = r.expiresAt.erase e.lease.leaseId ∧ e'.stage.ended = true

theorem Stage.ended_of_popped {s : Stage} (h : s.ended = false) : s.isPopped = false := by
  cases s <;> first | rfl | cases h

/-- The task of a lease is the only one of it that is not popped. -/
theorem Sound.same (h : Sound c slots r) {i j : Nat} {d e : Episode} (hd : r.episodes[i]? = some d)
    (he : r.episodes[j]? = some e) (hpd : d.stage.isPopped = false) (hpe : e.stage.isPopped = false)
    (hl : d.lease.leaseId = e.lease.leaseId) : i = j := by
  have hi := h.listed i d hd hpd
  rw [hl, h.listed j e he hpe] at hi
  exact (Option.some.inj hi).symm

/-- A task that is cancelled or done has its lease closed. -/
theorem Sound.closed (h : Sound c slots r) (he : r.episodes[k]? = some e) (hp : e.stage.isPopped = false)
    (hc : e.cancelled = true ∨ e.stage.ended = true) : r.broker.leases e.lease.leaseId = none := by
  cases hl : r.broker.leases e.lease.leaseId with
  | none => rfl
  | some x =>
    obtain ⟨j, d, hd, hend, hlease, hx⟩ := h.leases _ _ hl
    obtain rfl := h.same hd he (Stage.ended_of_popped hend) hp hlease
    cases hd.symm.trans he
    obtain ⟨y, hy, _, _, hserved⟩ := h.served _ _ he
    obtain ⟨z, hz, hopen⟩ := h.broker.opened _ _ hl
    rw [← hx, hy] at hz
    cases hz
    obtain ⟨_, hend, hcan⟩ := hserved hopen
    rw [hend, hcan] at hc
    rcases hc with hc | hc <;> cases hc

/-- **A turn keeps what holds.** -/
theorem Turn.sound (ht : Turn c r k e e' r') (h : Sound c slots r) : Sound c slots r' := by
  have hlt : k < r.episodes.length := (List.getElem?_eq_some_iff.1 ht.episode).1
  have hself : r'.episodes[k]? = some e' := by rw [ht.episodes, List.getElem?_set_self hlt]
  have hother : ∀ {j}, j ≠ k → r'.episodes[j]? = r.episodes[j]? := fun {j} hj => by
    rw [ht.episodes, List.getElem?_set_ne (Ne.symm hj)]
  -- of the other tasks, those of the same lease are popped
  have hpopped : ∀ {j d}, j ≠ k → r.episodes[j]? = some d → d.stage.isPopped = false →
      d.lease.leaseId ≠ e.lease.leaseId := fun {j d} hj hd hp hl => hj (h.same hd ht.episode hp ht.listed hl)
  have hclose : r'.broker = r.broker ∨ r'.broker = r.broker.close e.lease.leaseId := ht.broker.imp And.left And.left
  have hok : r'.broker.Ok := by
    rcases hclose with hb | hb <;> rw [hb]
    · exact h.broker
    · exact close_ok h.broker _
  have hex : Exchanges r.broker r'.broker := by
    rcases hclose with hb | hb <;> rw [hb]
    · exact .refl _
    · exact close_exchanges _ _
  have hleases : ∀ {l}, l ≠ e.lease.leaseId → r'.broker.leases l = r.broker.leases l := fun {l} hl => by
    rcases hclose with hb | hb <;> rw [hb]
    rw [close_leases h.broker, if_neg hl]
  have hexpires : ∀ {l}, l ≠ e.lease.leaseId → r'.expiresAt.get? l = r.expiresAt.get? l := fun {l} hl => by
    rcases ht.expiresAt with ⟨he, _⟩ | ⟨he, _⟩ <;> rw [he]
    rw [Dict.get?_erase, if_neg hl]
  have htasks : ∀ {l}, l ≠ e.lease.leaseId → r'.tasks.get? l = r.tasks.get? l := fun {l} hl => by
    rw [ht.tasks]
    split
    · rw [Dict.get?_erase, if_neg hl]
    · rfl
  have hclosed : ∀ {x x' : LeaseExchange}, (x.closed = true → x'.closed = true) → x'.closed = false → x.closed = false :=
    fun hmono hx' => Bool.eq_false_iff.2 fun hx => by
      rw [hmono hx] at hx'
      cases hx'
  refine ⟨hok, fun l j hj => ?_, fun j d hd hp => ?_, ?_, fun j d hd => ?_, fun j d hd hw hc => ?_, fun l x hx => ?_,
    fun j d hd hend => ?_, fun j d hd => ?_⟩
  · have hold : r.tasks.get? l = some j := by
      rw [ht.tasks] at hj
      split at hj
      · rw [Dict.get?_erase] at hj
        split at hj
        · cases hj
        · exact hj
      · exact hj
    obtain ⟨d, hd, hlease, hp⟩ := h.tasks l j hold
    by_cases hjk : j = k
    · subst hjk
      cases hd.symm.trans ht.episode
      refine ⟨e', hself, by rw [ht.lease, hlease], ?_⟩
      rw [ht.tasks] at hj
      split at hj
      · rw [hlease, Dict.get?_erase, if_pos rfl] at hj
        cases hj
      · rename_i hpop
        exact Bool.eq_false_iff.2 hpop
    · exact ⟨d, by rw [hother hjk, hd], hlease, hp⟩
  · by_cases hjk : j = k
    · subst hjk
      cases hd.symm.trans hself
      rw [ht.tasks, if_neg (by rw [hp]; exact Bool.false_ne_true), ht.lease]
      exact h.listed _ _ ht.episode ht.listed
    · rw [hother hjk] at hd
      rw [htasks (hpopped hjk hd hp)]
      exact h.listed _ _ hd hp
  · have hcount := h.gate
    have hgate := ht.gate
    have hget : r.episodes[k] = e := (List.getElem?_eq_some_iff.1 ht.episode).2
    rw [ht.episodes, List.countP_set hlt, hget]
    have hpos : e.stage.isRunning = true → 0 < r.episodes.countP (·.stage.isRunning) := fun hrun =>
      List.countP_pos_iff.2 ⟨e, List.mem_of_getElem? ht.episode, hrun⟩
    split at hgate <;> split at hgate <;> simp_all
    all_goals omega
  · by_cases hjk : j = k
    · subst hjk
      cases hd.symm.trans hself
      obtain ⟨x, hx, hw, hsess, hopen⟩ := h.served _ _ ht.episode
      obtain ⟨x', hx', hw', hsess', hmono⟩ := hex _ _ hx
      refine ⟨x', ht.exchange ▸ hx', by rw [ht.lease, hw', hw], by rw [ht.lease, hsess', hsess], fun hno => ?_⟩
      obtain ⟨hl, hend, hcan⟩ := hopen (hclosed hmono hno)
      rcases ht.broker with ⟨hb, hsame⟩ | ⟨hb, _⟩
      · rw [hb, ht.lease, ht.exchange]
        refine ⟨hl, Bool.eq_false_iff.2 fun he => ?_, Bool.eq_false_iff.2 fun he => ?_⟩
        · have hwas := hsame (Or.inr he)
          rw [hend, hcan] at hwas
          rcases hwas with hwas | hwas <;> cases hwas
        · have hwas := hsame (Or.inl he)
          rw [hend, hcan] at hwas
          rcases hwas with hwas | hwas <;> cases hwas
      · obtain ⟨y, hy, hyc⟩ := close_closed h.broker hl
        rw [hb, hy] at hx'
        cases hx'
        rw [hyc] at hno
        cases hno
    · rw [hother hjk] at hd
      obtain ⟨x, hx, hw, hsess, hopen⟩ := h.served _ _ hd
      obtain ⟨x', hx', hw', hsess', hmono⟩ := hex _ _ hx
      refine ⟨x', hx', by rw [hw', hw], by rw [hsess', hsess], fun hno => ?_⟩
      obtain ⟨hl, hend, hcan⟩ := hopen (hclosed hmono hno)
      rw [hleases (hpopped hjk hd (Stage.ended_of_popped hend))]
      exact ⟨hl, hend, hcan⟩
  · by_cases hjk : j = k
    · subst hjk
      cases hd.symm.trans hself
      obtain ⟨hwas, hcan⟩ := ht.within hw hc
      rcases ht.broker with ⟨hb, _⟩ | ⟨_, hno⟩
      · rw [hb, ht.lease, ht.exchange]
        exact h.opened _ _ ht.episode hwas hcan
      · rw [hno hw] at hc
        cases hc
    · rw [hother hjk] at hd
      have hp : d.stage.isPopped = false := by
        generalize d.stage = stage at hw
        cases stage <;> first | rfl | cases hw
      rw [hleases (hpopped hjk hd hp)]
      exact h.opened _ _ hd hw hc
  · by_cases hl : l = e.lease.leaseId
    · rcases ht.broker with ⟨hb, hsame⟩ | ⟨hb, _⟩
      · rw [hb] at hx
        obtain ⟨j, d, hd, hend, hlease, hxd⟩ := h.leases l x hx
        obtain rfl := h.same hd ht.episode (Stage.ended_of_popped hend) ht.listed (hlease.trans hl)
        cases hd.symm.trans ht.episode
        refine ⟨j, e', hself, Bool.eq_false_iff.2 fun he => ?_, by rw [ht.lease, hlease], by rw [ht.exchange, hxd]⟩
        rw [hl, h.closed ht.episode ht.listed (hsame (Or.inr he))] at hx
        cases hx
      · rw [hb, close_leases h.broker, if_pos hl] at hx
        cases hx
    · rw [hleases hl] at hx
      obtain ⟨j, d, hd, hend, hlease, hxd⟩ := h.leases l x hx
      have hjk : j ≠ k := by
        rintro rfl
        cases hd.symm.trans ht.episode
        exact hl hlease.symm
      exact ⟨j, d, by rw [hother hjk, hd], hend, hlease, hxd⟩
  · by_cases hjk : j = k
    · subst hjk
      cases hd.symm.trans hself
      rw [ht.lease]
      rcases ht.expiresAt with ⟨he, hwas⟩ | ⟨_, hno⟩
      · rw [he]
        exact h.awaited _ _ ht.episode (hwas hend)
      · rw [hno] at hend
        cases hend
    · rw [hother hjk] at hd
      rw [hexpires (hpopped hjk hd (Stage.ended_of_popped hend))]
      exact h.awaited _ _ hd hend
  · by_cases hjk : j = k
    · subst hjk
      cases hd.symm.trans hself
      exact ht.told
    · rw [hother hjk] at hd
      exact h.told _ _ hd

/-! ## Steps of a task -/

theorem Reported.nil (c : Codec) (lease : AssignmentLease) : Reported c lease [] :=
  ⟨none, none, rfl, fun _ h => (by cases h), fun _ h => (by cases h)⟩

theorem Reported.result {lease : AssignmentLease} {x : ResultEnvelope} (h : IsResult c lease x) :
    Reported c lease [.result x] :=
  ⟨some x, none, rfl, fun _ hx => Option.some.inj hx ▸ h, fun _ h => (by cases h)⟩

theorem Reported.failure (lease : AssignmentLease) (failedAt : Time) (error : EpisodeError) :
    Reported c lease [.failure (failureOf lease failedAt error)] :=
  ⟨none, some _, rfl, fun _ h => (by cases h), fun _ hf => Option.some.inj hf ▸ ⟨_, _, rfl⟩⟩

theorem Reported.both {lease : AssignmentLease} {x : ResultEnvelope} (h : IsResult c lease x) (failedAt : Time)
    (error : EpisodeError) : Reported c lease [.result x, .failure (failureOf lease failedAt error)] :=
  ⟨some x, some _, rfl, fun _ hx => Option.some.inj hx ▸ h, fun _ hf => Option.some.inj hf ▸ ⟨_, _, rfl⟩⟩

theorem Told.reported (h : Told c e) : Reported c e.lease e.reports := by
  obtain ⟨lease, exchange, stage, cancelled, reports, entered⟩ := e
  cases stage with
  | created | waiting | running =>
    cases h
    exact .nil _ _
  | accepting x =>
    obtain ⟨rfl, hx⟩ := h
    exact .result hx
  | failing | done | popped => exact h

/-- **A task that leaves** closes its lease behind it. -/
theorem leave_turn {g : Nat} (hk : r.episodes[k]? = some e) (hp : e.stage.isPopped = false)
    (hr : Reported c e.lease e.reports)
    (hgate : g = r.gate + (if e.stage.isRunning then 1 else 0)) :
    Turn c r k e { e with stage := .done, cancelled := false } ({ r with gate := g }.leave k e) where
  episode := hk
  listed := hp
  episodes := rfl
  lease := rfl
  exchange := rfl
  told := hr
  gate := hgate
  tasks := rfl
  broker := Or.inr ⟨rfl, fun h => by cases h⟩
  within h _ := by cases h
  expiresAt := Or.inr ⟨rfl, rfl⟩

/-- A task goes on, and its lease stays as it is. -/
theorem set_turn (g : Nat) (stage : Stage) (reports : List Report) (entered : Bool) (hk : r.episodes[k]? = some e)
    (hp : e.stage.ended = false) (hs : stage.ended = false)
    (ht : Told c { e with stage := stage, cancelled := false, reports := reports, entered := entered })
    (hgate : g + (if stage.isRunning then 1 else 0) = r.gate + (if e.stage.isRunning then 1 else 0))
    (hin : stage.within = true → e.stage.within = true ∧ e.cancelled = false) :
    Turn c r k e { e with stage := stage, cancelled := false, reports := reports, entered := entered }
      ({ r with gate := g }.set k { e with stage := stage, cancelled := false, reports := reports, entered := entered })
      where
  episode := hk
  listed := Stage.ended_of_popped hp
  episodes := rfl
  lease := rfl
  exchange := rfl
  told := ht
  gate := hgate
  tasks := (if_neg (by rw [Stage.ended_of_popped hs]; exact Bool.false_ne_true)).symm
  broker := Or.inl ⟨rfl, fun h => by
    rcases h with h | h
    · cases h
    · exact absurd (hs.symm.trans h) Bool.false_ne_true⟩
  within h _ := hin h
  expiresAt := Or.inl ⟨rfl, fun _ => hp⟩

/-- **A failure is reported** after nothing or a result. -/
theorem fail_turn {g : Nat} {failedAt : Time} {error : EpisodeError} (hk : r.episodes[k]? = some e)
    (hp : e.stage.ended = false) (hr : e.reports = [] ∨ ∃ x, e.reports = [.result x] ∧ IsResult c e.lease x)
    (hgate : g = r.gate + (if e.stage.isRunning then 1 else 0)) :
    ∃ e', Turn c r k e e' ({ r with gate := g }.fail k e failedAt error) := by
  have hreports : Reported c e.lease (e.reports ++ [.failure (failureOf e.lease failedAt error)]) := by
    rcases hr with hr | ⟨x, hr, hx⟩ <;> rw [hr]
    · exact .failure _ _ _
    · exact .both hx _ _
  exact ⟨_, set_turn g (.failing (failureOf e.lease failedAt error)) _ _ hk hp rfl hreports hgate
    fun h => by cases h⟩

/-- **What an event of a task does** is a turn. -/
theorem taskStep_turn {ev : Event} (hs : r.taskStep c k e ev = some r') (hk : r.episodes[k]? = some e)
    (ht : Told c e) : ∃ e', Turn c r k e e' r' := by
  obtain ⟨lease, exchange, stage, cancelled, reports, entered⟩ := e
  cases ev with
  | start => cases hs
  | renew => cases hs
  | cancel => cases hs
  | watch => cases hs
  | broker => cases hs
  | begin j letIn =>
    cases stage <;> try cases hs
    cases ht
    simp only [taskStep] at hs
    split at hs
    · -- a task that is cancelled before its first step is done without its `finally`
      rename_i hc
      cases hs
      refine ⟨_, ⟨hk, rfl, rfl, rfl, rfl, .nil _ _, rfl, rfl, Or.inl ⟨rfl, fun _ => Or.inl hc⟩,
        fun h => (by cases h), Or.inl ⟨rfl, fun h => (by cases h)⟩⟩⟩
    · rename_i hc
      have hwithin : ∀ stage : Stage, stage.within = true → Stage.within .created = true ∧ cancelled = false :=
        fun _ _ => ⟨rfl, Bool.eq_false_iff.2 hc⟩
      have hcan : cancelled = false := Bool.eq_false_iff.2 hc
      subst hcan
      split at hs
      · split at hs
        · rename_i hpos
          cases hs
          exact ⟨_, set_turn _ .running _ _ hk rfl rfl rfl (Nat.sub_add_cancel hpos) (hwithin _)⟩
        · cases hs
      · cases hs
        exact ⟨_, set_turn r.gate .waiting _ _ hk rfl rfl rfl rfl (hwithin _)⟩
  | letIn j =>
    cases stage <;> try cases hs
    cases ht
    simp only [taskStep] at hs
    split at hs
    · rename_i hpos
      have hcan : cancelled = false := Bool.eq_false_iff.2 hpos.2
      subst hcan
      cases hs
      exact ⟨_, set_turn _ .running _ _ hk rfl rfl rfl (Nat.sub_add_cancel hpos.1) fun _ => ⟨rfl, rfl⟩⟩
    · cases hs
  | environment j ending failedAt =>
    cases stage <;> try cases hs
    cases ht
    unfold environment
    cases ending with
    | cancelled => exact ⟨_, leave_turn hk rfl (.nil _ _) rfl⟩
    | raised error => exact fail_turn hk rfl (Or.inl rfl) rfl
    | returned completedAt episode =>
      dsimp only
      split
      · exact fail_turn hk rfl (Or.inl rfl) rfl
      · rename_i hfits
        refine ⟨_, set_turn _ (.accepting (envelope c lease completedAt episode))
          [.result (envelope c lease completedAt episode)] _ hk rfl rfl ⟨rfl, ⟨_, _, rfl⟩, ?_⟩ rfl
          fun h => by cases h⟩
        exact not_lt.1 hfits
  | accepted j raised failedAt =>
    cases stage <;> try cases hs
    rename_i x
    obtain ⟨rfl, hx⟩ := ht
    simp only [taskStep] at hs
    split at hs
    · cases hs
    · split at hs <;> cases hs
      · exact ⟨_, leave_turn (g := r.gate) hk rfl (.result hx) rfl⟩
      · exact fail_turn (g := r.gate) hk rfl (Or.inr ⟨x, rfl, hx⟩) rfl
  | failed j =>
    cases stage <;> try cases hs
    simp only [taskStep] at hs
    split at hs <;> cases hs
    exact ⟨_, leave_turn (g := r.gate) hk rfl ht rfl⟩
  | interrupt j =>
    cases stage <;> try cases hs
    · cases ht
      simp only [taskStep] at hs
      split at hs <;> cases hs
      exact ⟨_, leave_turn (g := r.gate) hk rfl (.nil _ _) rfl⟩
    · obtain ⟨rfl, hx⟩ := ht
      simp only [taskStep] at hs
      split at hs <;> cases hs
      exact ⟨_, leave_turn (g := r.gate) hk rfl (.result hx) rfl⟩
    · simp only [taskStep] at hs
      split at hs <;> cases hs
      exact ⟨_, leave_turn (g := r.gate) hk rfl ht rfl⟩
  | callback j =>
    cases stage <;> try cases hs
    exact ⟨_, ⟨hk, rfl, rfl, rfl, rfl, ht, rfl, rfl, Or.inl ⟨rfl, fun _ => Or.inr rfl⟩, fun h => (by cases h),
      Or.inl ⟨rfl, fun h => (by cases h)⟩⟩⟩

/-! ## Calls on the runner -/

theorem new_sound (c : Codec) (slots limit : Nat) : Sound c slots (new slots limit) := by
  have hnone : ∀ (k : Nat) (e : Episode), ([] : List Episode)[k]? ≠ some e := fun k e h => by
    rw [List.getElem?_nil] at h
    cases h
  exact ⟨InferenceBroker.new_broker_ok limit, fun l k h => (by cases h), fun k e h => absurd h (hnone k e), rfl,
    fun k e h => absurd h (hnone k e), fun k e h => absurd h (hnone k e), fun l h hl => (by cases hl),
    fun k e h => absurd h (hnone k e), fun k e h => absurd h (hnone k e)⟩

/-- A lease with no task is not registered. -/
theorem Sound.unregistered (h : Sound c slots r) {l : OpaqueId} (hl : r.tasks.get? l = none) :
    r.broker.leases l = none := by
  cases hb : r.broker.leases l with
  | none => rfl
  | some x =>
    obtain ⟨k, e, he, hend, hlease, _⟩ := h.leases l x hb
    rw [← hlease, h.listed k e he (Stage.ended_of_popped hend)] at hl
    cases hl

/-- **A start never raises**: it finds the lease's task, or makes one. -/
theorem Sound.start (h : Sound c slots r) (lease : AssignmentLease) :
    ((r.tasks.get? lease.leaseId).isSome = true ∧ r.start lease = .ok r) ∨
      (r.tasks.get? lease.leaseId = none ∧ ∃ broker, r.broker.register lease.leaseId lease.workerId
        lease.workerSessionId = .ok broker ∧ r.start lease = .ok { r with
          broker := broker
          expiresAt := r.expiresAt.set lease.leaseId lease.expiresAt
          tasks := r.tasks.set lease.leaseId r.episodes.length
          episodes := r.episodes ++ [⟨lease, r.broker.exchanges.length, .created, false, [], false⟩] }) := by
  by_cases hsome : (r.tasks.get? lease.leaseId).isSome = true
  · exact Or.inl ⟨hsome, if_pos hsome⟩
  · have hnone : r.tasks.get? lease.leaseId = none := by simpa using hsome
    have hfree := h.unregistered hnone
    refine Or.inr ⟨hnone, _, if_neg (by rw [hfree]; exact Bool.false_ne_true), ?_⟩
    unfold CentralEpisodeRunner.start
    rw [if_neg hsome, InferenceBroker.register, if_neg (by rw [hfree]; exact Bool.false_ne_true)]
    rfl

theorem start_sound (h : Sound c slots r) {lease : AssignmentLease} (hs : r.start lease = .ok r') : Sound c slots r' := by
  rcases h.start lease with ⟨_, hsame⟩ | ⟨hnone, b, hb, hnew⟩
  · rw [hsame] at hs
    cases hs
    exact h
  rw [hnew] at hs
  cases hs
  have hfree := h.unregistered hnone
  have hok := register_ok h.broker hb
  rw [InferenceBroker.register, if_neg (by rw [hfree]; exact Bool.false_ne_true)] at hb
  cases hb
  set n := r.episodes.length with hn
  have hold : ∀ {k : Nat} {e : Episode}, r.episodes[k]? = some e → k < n := fun he =>
    (List.getElem?_eq_some_iff.1 he).1
  have hget : ∀ {k : Nat} {e new : Episode}, (r.episodes ++ [new])[k]? = some e →
      r.episodes[k]? = some e ∨ k = n ∧ e = new := by
    intro k e new he
    rcases lt_or_ge k n with hk | hk
    · rw [List.getElem?_append_left hk] at he
      exact Or.inl he
    · rw [List.getElem?_append_right hk, List.getElem?_singleton] at he
      split at he
      · exact Or.inr ⟨by omega, (Option.some.inj he).symm⟩
      · cases he
  have hkeep : ∀ {k : Nat} {e new : Episode}, r.episodes[k]? = some e → (r.episodes ++ [new])[k]? = some e :=
    fun he => by rw [List.getElem?_append_left (hold he), he]
  have hlast : ∀ {new : Episode}, (r.episodes ++ [new])[n]? = some new := fun {new} => List.getElem?_concat_length
  -- an older task that is not popped has another lease
  have hother : ∀ {k : Nat} {e : Episode}, r.episodes[k]? = some e → e.stage.isPopped = false →
      e.lease.leaseId ≠ lease.leaseId := fun {k e} he hp hl => by
    have hlisted := h.listed k e he hp
    rw [hl, hnone] at hlisted
    cases hlisted
  have hexchange : ∀ {i : Nat} {x y : LeaseExchange}, r.broker.exchanges[i]? = some x →
      (r.broker.exchanges ++ [y])[i]? = some x := fun hx => by
    rw [List.getElem?_append_left (List.getElem?_eq_some_iff.1 hx).1, hx]
  have hleases : ∀ l, l ≠ lease.leaseId → Function.update r.broker.leases lease.leaseId
      (some r.broker.exchanges.length) l = r.broker.leases l := fun l hl => Function.update_of_ne hl ..
  refine ⟨hok, fun l k hk => ?_, fun k e he hp => ?_, ?_, fun k e he => ?_, fun k e he hw hc => ?_, fun l x hx => ?_,
    fun k e he hend => ?_, fun k e he => ?_⟩
  · rw [Dict.get?_set] at hk
    split at hk
    · rename_i hl
      cases hk
      exact ⟨_, hlast, hl.symm, rfl⟩
    · obtain ⟨e, he, hlease, hp⟩ := h.tasks l k hk
      exact ⟨e, hkeep he, hlease, hp⟩
  · rw [Dict.get?_set]
    rcases hget he with he | ⟨rfl, rfl⟩
    · rw [if_neg (hother he hp)]
      exact h.listed k e he hp
    · exact if_pos rfl
  · rw [List.countP_append]
    exact h.gate
  · rcases hget he with he | ⟨rfl, rfl⟩
    · obtain ⟨x, hx, hw, hsess, hopen⟩ := h.served k e he
      refine ⟨x, hexchange hx, hw, hsess, fun hno => ?_⟩
      obtain ⟨hl, hend, hcan⟩ := hopen hno
      exact ⟨(hleases _ (hother he (Stage.ended_of_popped hend))).trans hl, hend, hcan⟩
    · exact ⟨_, List.getElem?_concat_length, rfl, rfl, fun _ => ⟨Function.update_self .., rfl, rfl⟩⟩
  · rcases hget he with he | ⟨rfl, rfl⟩
    · have hp : e.stage.isPopped = false := by
        generalize e.stage = stage at hw
        cases stage <;> first | rfl | cases hw
      exact (hleases _ (hother he hp)).trans (h.opened k e he hw hc)
    · exact Function.update_self ..
  · by_cases hl : l = lease.leaseId
    · subst hl
      cases (Function.update_self ..).symm.trans hx
      exact ⟨n, _, hlast, rfl, rfl, rfl⟩
    · obtain ⟨k, e, he, hend, hlease, hxe⟩ := h.leases l x ((hleases l hl).symm.trans hx)
      exact ⟨k, e, hkeep he, hend, hlease, hxe⟩
  · rw [Dict.get?_set]
    split
    · exact Option.some_ne_none _
    · rename_i hne
      rcases hget he with he | ⟨rfl, rfl⟩
      · exact h.awaited k e he hend
      · exact absurd rfl hne
  · rcases hget he with he | ⟨rfl, rfl⟩
    · exact h.told k e he
    · exact rfl

theorem renew_sound (h : Sound c slots r) (l : OpaqueId) (t : Time) : Sound c slots (r.renew l t) := by
  unfold renew
  split
  · refine { h with awaited := fun k e he hend => ?_ }
    rw [Dict.get?_set]
    split
    · exact Option.some_ne_none _
    · exact h.awaited k e he hend
  · exact h

/-- What a cancellation leaves: the tasks where they are, those that had one thrown at them still so. -/
structure Cancels (r r' : CentralEpisodeRunner) : Prop where
  tasks : r'.tasks = r.tasks
  length : r'.episodes.length = r.episodes.length
  episodes : ∀ (k : Nat) e, r.episodes[k]? = some e →
    ∃ b, r'.episodes[k]? = some { e with cancelled := b } ∧ (e.cancelled = true → b = true)

theorem Cancels.refl (r : CentralEpisodeRunner) : Cancels r r := ⟨rfl, rfl, fun _ e he => ⟨e.cancelled, he, id⟩⟩

theorem Cancels.trans {r'' : CentralEpisodeRunner} (h : Cancels r r') (h' : Cancels r' r'') : Cancels r r'' := by
  refine ⟨h'.tasks.trans h.tasks, h'.length.trans h.length, fun k e he => ?_⟩
  obtain ⟨b, hb, hmono⟩ := h.episodes k e he
  obtain ⟨b', hb', hmono'⟩ := h'.episodes k _ hb
  exact ⟨b', hb', fun hc => hmono' (hmono hc)⟩

/-- What a task was before. -/
theorem Cancels.before (h : Cancels r r') (he : r'.episodes[k]? = some e) :
    ∃ d, r.episodes[k]? = some d ∧ d.lease = e.lease ∧ d.stage = e.stage ∧ (d.cancelled = true → e.cancelled = true) := by
  have hlt : k < r.episodes.length := h.length ▸ (List.getElem?_eq_some_iff.1 he).1
  obtain ⟨b, hb, hmono⟩ := h.episodes k _ (List.getElem?_eq_getElem hlt)
  cases hb.symm.trans he
  exact ⟨_, List.getElem?_eq_getElem hlt, rfl, rfl, hmono⟩

/-- **A cancellation** reaches the lease's task if it has one, and closes the lease. -/
theorem cancel_sound (h : Sound c slots r) (l : OpaqueId) :
    Sound c slots (r.cancel l) ∧ Cancels r (r.cancel l) ∧ ∀ (k : Nat) e, (r.cancel l).episodes[k]? = some e →
      e.lease.leaseId = l → e.stage.ended = false → e.cancelled = true := by
  unfold cancel
  cases hl : r.tasks.get? l with
  | none =>
    dsimp only
    rw [close_of_none (h.unregistered hl)]
    refine ⟨h, .refl r, fun k e he hlease hend => ?_⟩
    have hlisted := h.listed k e he (Stage.ended_of_popped hend)
    rw [hlease, hl] at hlisted
    cases hlisted
  | some k =>
    obtain ⟨e, he, hlease, hp⟩ := h.tasks l k hl
    dsimp only
    unfold cancelTask
    rw [he]
    dsimp only
    cases hend : e.stage.ended with
    | true =>
      rw [if_pos rfl, ← hlease, close_of_none (h.closed he hp (Or.inr hend))]
      refine ⟨h, .refl r, fun j d hd hl' hd' => ?_⟩
      obtain rfl := h.same hd he (Stage.ended_of_popped hd') hp hl'
      cases hd.symm.trans he
      rw [hend] at hd'
      cases hd'
    | false =>
      rw [if_neg Bool.false_ne_true, ← hlease]
      have hlt : k < r.episodes.length := (List.getElem?_eq_some_iff.1 he).1
      have hself : (r.episodes.set k { e with cancelled := true })[k]? = some { e with cancelled := true } :=
        List.getElem?_set_self hlt
      have hturn : Turn c r k e { e with cancelled := true }
          { r.set k { e with cancelled := true } with broker := r.broker.close e.lease.leaseId } := by
        refine ⟨he, hp, rfl, rfl, rfl, h.told k e he, rfl, ?_, Or.inr ⟨rfl, fun _ => rfl⟩, fun _ hc => (by cases hc),
          Or.inl ⟨rfl, id⟩⟩
        exact (if_neg (by rw [hp]; exact Bool.false_ne_true)).symm
      refine ⟨hturn.sound h, ⟨rfl, List.length_set, fun j d hd => ?_⟩, fun j d hd hl' hd' => ?_⟩
      · by_cases hj : j = k
        · subst hj
          cases hd.symm.trans he
          exact ⟨true, hself, fun _ => rfl⟩
        · exact ⟨d.cancelled, (List.getElem?_set_ne (Ne.symm hj)).trans hd, id⟩
      · change (r.episodes.set k { e with cancelled := true })[j]? = some d at hd
        by_cases hj : j = k
        · subst hj
          cases hd.symm.trans hself
          rfl
        · rw [List.getElem?_set_ne (Ne.symm hj)] at hd
          exact absurd (h.same hd he (Stage.ended_of_popped hd') hp hl') hj

theorem foldl_cancel (entries : List (OpaqueId × Time)) : ∀ {r : CentralEpisodeRunner}, Sound c slots r →
    Sound c slots (entries.foldl (fun r x => r.cancel x.1) r) ∧
      Cancels r (entries.foldl (fun r x => r.cancel x.1) r) ∧
      ∀ x ∈ entries, ∀ (k : Nat) e, (entries.foldl (fun r x => r.cancel x.1) r).episodes[k]? = some e →
        e.lease.leaseId = x.1 → e.stage.ended = false → e.cancelled = true := by
  induction entries with
  | nil => exact fun {r} h => ⟨h, .refl r, fun x hx => absurd hx List.not_mem_nil⟩
  | cons x xs ih =>
    intro r h
    obtain ⟨h₁, hc₁, hall₁⟩ := cancel_sound h x.1
    obtain ⟨h₂, hc₂, hall₂⟩ := ih h₁
    refine ⟨h₂, hc₁.trans hc₂, fun y hy k e he hl hend => ?_⟩
    rcases List.mem_cons.1 hy with rfl | hy
    · obtain ⟨d, hd, hlease, hstage, hmono⟩ := hc₂.before he
      exact hmono (hall₁ k d hd (hlease ▸ hl) (hstage ▸ hend))
    · exact hall₂ y hy k e he hl hend

/-! ## Every interleaving -/

theorem turn_of_task {ev : Event} (h : Sound c slots r)
    (hn : (ev.task?.bind fun k => (r.episodes[k]?).bind fun e => r.taskStep c k e ev) = some r') :
    ∃ k e e', Turn c r k e e' r' := by
  obtain ⟨k, _, hn⟩ := Option.bind_eq_some_iff.1 hn
  obtain ⟨e, he, hn⟩ := Option.bind_eq_some_iff.1 hn
  obtain ⟨e', ht⟩ := taskStep_turn hn he (h.told k e he)
  exact ⟨k, e, e', ht⟩

theorem next_sound {ev : Event} (h : Sound c slots r) (hn : r.next c ev = some r') : Sound c slots r' := by
  have htask : ∀ ev : Event, (ev.task?.bind fun k => (r.episodes[k]?).bind fun e => r.taskStep c k e ev) = some r' →
      Sound c slots r' := fun ev hn => by
    obtain ⟨_, _, _, ht⟩ := turn_of_task h hn
    exact ht.sound h
  cases ev with
  | start lease =>
    cases hn
    cases hs : r.start lease with
    | error => exact h
    | ok r₁ => exact start_sound h hs
  | renew l t =>
    cases hn
    exact renew_sound h l t
  | cancel l =>
    cases hn
    exact (cancel_sound h l).1
  | watch now =>
    cases hn
    exact (foldl_cancel _ h).1
  | broker e =>
    simp only [next] at hn
    split at hn
    · rename_i hext
      obtain ⟨b, hb, rfl⟩ := Option.map_eq_some_iff.1 hn
      obtain ⟨a, hs⟩ := InferenceBroker.next_eq_some.1 hb
      have hleases := external_leases hext hs
      have hex := exchanges_of_step hs
      refine { h with
        broker := InferenceBroker.step_ok h.broker hs
        served := fun k e he => ?_
        opened := fun k e he hw hc => hleases ▸ h.opened k e he hw hc
        leases := fun l x hx => h.leases l x (hleases ▸ hx) }
      obtain ⟨x, hx, hw, hsess, hopen⟩ := h.served k e he
      obtain ⟨x', hx', hw', hsess', hmono⟩ := hex _ _ hx
      refine ⟨x', hx', by rw [hw', hw], by rw [hsess', hsess], fun hno => ?_⟩
      have hwas : x.closed = false := Bool.eq_false_iff.2 fun hc => by
        rw [hmono hc] at hno
        cases hno
      rw [hleases]
      exact hopen hwas
    · cases hn
  | begin k letIn => exact htask (.begin k letIn) hn
  | letIn k => exact htask (.letIn k) hn
  | environment k ending failedAt => exact htask (.environment k ending failedAt) hn
  | accepted k raised failedAt => exact htask (.accepted k raised failedAt) hn
  | failed k => exact htask (.failed k) hn
  | interrupt k => exact htask (.interrupt k) hn
  | callback k => exact htask (.callback k) hn

/-- Where the events lead; one that cannot happen in its turn is passed over. -/
def reached (c : Codec) (slots limit : Nat) (events : List Event) : CentralEpisodeRunner :=
  Machine.drive (next c) (new slots limit) events

theorem reached_sound (c : Codec) (slots limit : Nat) (events : List Event) :
    Sound c slots (reached c slots limit events) :=
  Machine.drive_invariant (fun _ _ _ h hn => next_sound h hn) events (new_sound c slots limit)

/-- **An execution leaves no request waiting**: the exchange of a lease is its worker session's; it is open, and the one
the lease is registered with, while the task has not left the environment and is not cancelled; and once the task is
cancelled or done it is closed for good and no environment's request on it waits.  A pass of the watchdog cancels every
task whose lease has expired, and no task goes without an expiry. -/
theorem executions_leave_no_request (c : Codec) (slots limit : Nat) (events : List Event) :
    let r := reached c slots limit events
    (∀ e ∈ r.episodes, ∃ x, r.broker.exchanges[e.exchange]? = some x ∧ x.workerId = e.lease.workerId ∧
      x.workerSessionId = e.lease.workerSessionId ∧
      (e.stage.within = true → e.cancelled = false →
        x.closed = false ∧ r.broker.leases e.lease.leaseId = some e.exchange) ∧
      (e.stage.ended = true ∨ e.cancelled = true → x.closed = true ∧ ∀ i, x.waiters i ≠ some .pending)) ∧
    (∀ l, (r.broker.leases l).isSome = true → ∃ e ∈ r.episodes, e.lease.leaseId = l ∧ e.stage.ended = false) ∧
    (∀ e ∈ r.episodes, e.stage.ended = false → ∃ t, r.expiresAt.get? e.lease.leaseId = some t ∧
      ∀ now, t ≤ now → ∀ d ∈ (r.watch now).episodes, d.lease.leaseId = e.lease.leaseId → d.stage.ended = false →
        d.cancelled = true) := by
  intro r
  have h := reached_sound c slots limit events
  refine ⟨fun e he => ?_, fun l hl => ?_, fun e he hend => ?_⟩
  · obtain ⟨k, hk⟩ := List.mem_iff_getElem?.1 he
    obtain ⟨x, hx, hw, hsess, hopen⟩ := h.served k e hk
    refine ⟨x, hx, hw, hsess, fun hin hcan => ?_, fun hdone => ?_⟩
    · obtain ⟨y, hy, ho⟩ := h.broker.opened _ _ (h.opened k e hk hin hcan)
      cases hx.symm.trans hy
      exact ⟨ho, h.opened k e hk hin hcan⟩
    · have hclosed : x.closed = true := by
        by_contra hno
        obtain ⟨_, hend, hcan⟩ := hopen (Bool.eq_false_iff.2 hno)
        rw [hend, hcan] at hdone
        rcases hdone with hdone | hdone <;> cases hdone
      exact ⟨hclosed, (h.broker.exchanges _ x hx).closed hclosed⟩
  · obtain ⟨x, hx⟩ := Option.isSome_iff_exists.1 hl
    obtain ⟨k, e, he, hend, hlease, _⟩ := h.leases l x hx
    exact ⟨e, List.mem_of_getElem? he, hlease, hend⟩
  · obtain ⟨k, hk⟩ := List.mem_iff_getElem?.1 he
    obtain ⟨t, ht⟩ := Option.ne_none_iff_exists'.1 (h.awaited k e hk hend)
    refine ⟨t, ht, fun now hnow d hd hl hdn => ?_⟩
    obtain ⟨j, hj⟩ := List.mem_iff_getElem?.1 hd
    refine (foldl_cancel _ h).2.2 (e.lease.leaseId, t) ?_ j d hj hl hdn
    exact List.mem_filter.2 ⟨Dict.mem_entries ht, decide_eq_true hnow⟩

end CentralEpisodeRunner
end Aether
