import Mathlib.Tactic.Linarith
import AetherRl.RepoWrites
/-!
# Life — what one assignment goes through

A `Life` is an assignment's row with everything the other tables hold of it: its attempts, its outcome, its accepted
result and its cancellations.  `Life.Wf` says what such a record may look like, by phase: waiting for a lease, held
under one, or over.  `Life.Move` lists every way the coordinator may change it, `Move.wf` that each keeps it well
formed, and `Life.Le` what no move takes back.
-/
namespace Aether

structure Life where
  row : AssignmentRow
  leases : List LeaseRow
  outcomes : List OutcomeRow
  results : List ResultRow
  cancellations : List CancellationRow
  leaseCancellations : List LeaseCancellationRow

namespace Life

/-! ## Well-formed lives -/

structure Timed (now : Time) (x : Life) : Prop where
  issued : ∀ l ∈ x.leases, x.row.assignment.createdAt ≤ l.issuedAt ∧ l.issuedAt ≤ now
  expires : ∀ l ∈ x.leases, l.issuedAt < l.expiresAt ∧ ∀ d ∈ x.row.deadlineAt, l.expiresAt ≤ d
  available : x.row.assignment.createdAt ≤ x.row.availableAt
  deadline : x.row.deadlineAt = x.row.assignment.deadlineAt

structure Numbered (x : Life) : Prop where
  ids : (x.leases.map (·.leaseId)).Nodup
  attempts : x.leases.map (·.attempt) = List.range' 1 x.row.attemptCount
  bound : x.row.attemptCount ≤ x.row.maxAttempts

/-- No lease is held. -/
structure Idle (x : Life) : Prop where
  current : x.row.currentLeaseId = none
  closed : ∀ l ∈ x.leases, l.state ≠ .active

structure Waiting (x : Life) : Prop extends Idle x where
  left : x.row.attemptCount < x.row.maxAttempts
  outcomes : x.outcomes = []
  results : x.results = []
  cancellations : x.cancellations = []

/-- A cancellation is recorded for the assignment exactly when one is recorded for the lease it is held under. -/
def Marked (i : OpaqueId) (x : Life) : Prop :=
  (x.cancellations = [] ∧ ∀ c ∈ x.leaseCancellations, c.leaseId ≠ i) ∨
  ∃ c, x.cancellations = [c] ∧ c.terminal = false ∧ ∃ m ∈ x.leaseCancellations, m.leaseId = i

/-- Leased under `i`, its one active lease. -/
structure Held (i : OpaqueId) (x : Life) : Prop where
  current : x.row.currentLeaseId = some i
  lease : ∃ l ∈ x.leases, l.leaseId = i ∧ l.state = .active
  only : ∀ l ∈ x.leases, l.state = .active → l.leaseId = i
  outcomes : x.outcomes = []
  results : x.results = []
  marked : x.Marked i

structure Over (x : Life) : Prop extends Idle x where
  cancellations : x.cancellations.length ≤ 1
  terminal : ∀ c ∈ x.cancellations, c.terminal = true

structure Succeeded (x : Life) (r : ResultRow) (o : OutcomeRow) : Prop extends Over x where
  results : x.results = [r]
  outcomes : x.outcomes = [o]
  kind : o.outcome = .result
  lease : o.leaseId = some r.leaseId
  digest : o.envelopeDigest = some r.envelopeDigest

structure Failed (x : Life) (o : OutcomeRow) : Prop extends Over x where
  results : x.results = []
  outcomes : x.outcomes = [o]
  kind : o.outcome ≠ .result

/-- What the state column promises of the rest. -/
def Phase (x : Life) : Prop := match x.row.state with
  | .pending | .retryWait => x.Waiting
  | .leased => ∃ i, x.Held i
  | .succeeded => ∃ r o, x.Succeeded r o
  | .failed => ∃ o, x.Failed o

structure Wf (now : Time) (x : Life) : Prop where
  timed : x.Timed now
  numbered : x.Numbered
  phase : x.Phase

theorem Wf.mono {now later : Time} {x : Life} (h : x.Wf now) (hn : now ≤ later) : x.Wf later :=
  ⟨⟨fun l hl => ⟨(h.timed.issued l hl).1, (h.timed.issued l hl).2.trans hn⟩, h.timed.expires, h.timed.available,
    h.timed.deadline⟩, h.numbered, h.phase⟩

/-! ### Reading a phase off the row -/

section
variable {now : Time} {x : Life} (h : x.Wf now)
include h

theorem Wf.waiting (hs : x.row.state.waiting = true) : x.Waiting := by
  have hp := h.phase
  unfold Phase at hp
  cases hst : x.row.state <;> rw [hst] at hp hs <;> first | exact hp | cases hs

theorem Wf.held (hs : x.row.state = .leased) : ∃ i, x.Held i := by
  have hp := h.phase
  unfold Phase at hp
  rwa [hs] at hp

theorem Wf.succeeded (hs : x.row.state = .succeeded) : ∃ r o, x.Succeeded r o := by
  have hp := h.phase
  unfold Phase at hp
  rwa [hs] at hp

theorem Wf.failed (hs : x.row.state = .failed) : ∃ o, x.Failed o := by
  have hp := h.phase
  unfold Phase at hp
  rwa [hs] at hp

theorem Wf.over (hs : x.row.state.terminal = true) : x.Over := by
  cases hst : x.row.state <;> rw [hst] at hs
  case succeeded => obtain ⟨r, o, hx⟩ := h.succeeded hst; exact hx.toOver
  case failed => obtain ⟨o, hx⟩ := h.failed hst; exact hx.toOver
  all_goals cases hs

theorem Wf.idle (hs : x.row.state ≠ .leased) : x.Idle := by
  by_cases hw : x.row.state.waiting = true
  · exact (h.waiting hw).toIdle
  · exact (h.over (by cases hst : x.row.state <;> simp_all [AssignmentState.waiting, AssignmentState.terminal])).toIdle

/-- **A lease that is active is the one its assignment is held under.** -/
theorem Wf.held_of_active {l : LeaseRow} (hl : l ∈ x.leases) (ha : l.state = .active) :
    x.row.state = .leased ∧ x.Held l.leaseId := by
  by_cases hs : x.row.state = .leased
  · obtain ⟨i, hi⟩ := h.held hs
    exact ⟨hs, hi.only l hl ha ▸ hi⟩
  · exact absurd ha ((h.idle hs).closed l hl)

theorem Wf.held_of_current {i : OpaqueId} (hc : x.row.currentLeaseId = some i) : x.row.state = .leased ∧ x.Held i := by
  by_cases hs : x.row.state = .leased
  · obtain ⟨j, hj⟩ := h.held hs
    rw [hj.current, Option.some.injEq] at hc
    exact ⟨hs, hc ▸ hj⟩
  · rw [(h.idle hs).current] at hc
    cases hc

end

/-! ## Moves -/

def setLease (i : OpaqueId) (f : LeaseRow → LeaseRow) (x : Life) : Life :=
  { x with leases := Rows.set (·.leaseId) i f x.leases }

def close (i : OpaqueId) (s : LeaseState) (x : Life) : Life := x.setLease i (fun l => { l with state := s })

def endCancellations (x : Life) : Life :=
  { x with cancellations := x.cancellations.map (fun c => { c with terminal := true }) }

theorem endCancellations_of_nil {x : Life} (h : x.cancellations = []) : x.endCancellations = x := by
  rw [endCancellations, h, List.map_nil, ← h]

def grant (l : LeaseRow) (x : Life) : Life :=
  { x with
    row := { x.row with
      state := .leased, attemptCount := x.row.attemptCount + 1, currentLeaseId := some l.leaseId }
    leases := x.leases ++ [l] }

def renew (i : OpaqueId) (expiresAt : Time) (sentAt : Option Time) (x : Life) : Life :=
  x.setLease i (fun l => { l with expiresAt := expiresAt, lastRenewSentAt := sentAt.or l.lastRenewSentAt })

def retry (at_ : Time) (x : Life) : Life :=
  { x with row := { x.row with state := .retryWait, availableAt := at_, currentLeaseId := none } }

def fail (o : OutcomeRow) (x : Life) : Life :=
  { x with row := Repo.markFailed x.row, outcomes := x.outcomes ++ [o] }

def cancel (c : CancellationRow) (x : Life) : Life := { x with cancellations := x.cancellations ++ [c] }

def markLease (m : LeaseCancellationRow) (x : Life) : Life :=
  { x with leaseCancellations := x.leaseCancellations ++ [m] }

def deliver (i : OpaqueId) (now : Time) (x : Life) : Life :=
  { x with
    leaseCancellations := Rows.set (·.leaseId) i
      (fun c => { c with deliveredAt := c.deliveredAt.or (some now) }) x.leaseCancellations }

def succeed (r : ResultRow) (o : OutcomeRow) (x : Life) : Life :=
  { x with
    row := { x.row with state := .succeeded, currentLeaseId := none }
    results := x.results ++ [r]
    outcomes := x.outcomes ++ [o] }

def process (f : ResultRow → ResultRow) (x : Life) : Life := { x with results := x.results.map f }

/-- A lease that may be granted to a waiting assignment at `now`. -/
structure Grantable (now : Time) (l : LeaseRow) (x : Life) : Prop where
  waiting : x.row.state.waiting = true
  available : x.row.availableAt ≤ now
  attempt : l.attempt = x.row.attemptCount + 1
  state : l.state = .active
  issued : l.issuedAt = now
  expires : now < l.expiresAt
  deadline : ∀ d ∈ x.row.deadlineAt, l.expiresAt ≤ d
  fresh : ∀ m ∈ x.leases, m.leaseId ≠ l.leaseId
  unmarked : ∀ c ∈ x.leaseCancellations, c.leaseId ≠ l.leaseId

/-- **Every way a life moves**, at `now`. -/
inductive Move (now : Time) (x : Life) : Life → Prop
  | grant (l : LeaseRow) (h : x.Grantable now l) : Move now x (x.grant l)
  | renew (i : OpaqueId) (e : Time) (s : Option Time)
      (h : ∀ l ∈ x.leases, l.leaseId = i → now < l.expiresAt ∧ l.expiresAt ≤ e ∧ ∀ d ∈ x.row.deadlineAt, e ≤ d) :
      Move now x (x.renew i e s)
  | retry (i : OpaqueId) (s : LeaseState) (at_ : Time) (h : x.row.currentLeaseId = some i) (hs : s ≠ .active)
      (hc : x.cancellations = []) (hn : x.row.attemptCount < x.row.maxAttempts) (ha : now ≤ at_) :
      Move now x ((x.close i s).retry at_)
  | fail (i : OpaqueId) (s : LeaseState) (o : OutcomeRow) (h : x.row.currentLeaseId = some i) (hs : s ≠ .active)
      (ho : o.outcome ≠ .result) : Move now x (((x.close i s).fail o).endCancellations)
  | drop (o : OutcomeRow) (h : x.row.state.waiting = true) (ho : o.outcome ≠ .result) : Move now x (x.fail o)
  | dropStale (c : CancellationRow) (o : OutcomeRow) (h : x.row.state.waiting = true) (hc : c.terminal = true)
      (ho : o.outcome ≠ .result) : Move now x ((x.cancel c).fail o)
  | mark (i : OpaqueId) (c : CancellationRow) (m : LeaseCancellationRow) (h : x.row.currentLeaseId = some i)
      (hx : x.cancellations = []) (hc : c.terminal = false) (hm : m.leaseId = i) :
      Move now x ((x.cancel c).markLease m)
  | deliver (i : OpaqueId) (t : Time) : Move now x (x.deliver i t)
  | succeed (i : OpaqueId) (r : ResultRow) (o : OutcomeRow) (h : x.row.currentLeaseId = some i)
      (hr : r.leaseId = i) (hk : o.outcome = .result) (hl : o.leaseId = some r.leaseId)
      (hd : o.envelopeDigest = some r.envelopeDigest) :
      Move now x (((x.close i .succeeded).succeed r o).endCancellations)
  | process (f : ResultRow → ResultRow) (hf : ∀ r, (f r).fixed = r.fixed) : Move now x (x.process f)

/-! ### Each move keeps a life well formed -/

/-- What a phase looks at. -/
structure SameShape (x y : Life) : Prop where
  row : y.row = x.row
  leases : y.leases.map (fun l => (l.leaseId, l.state)) = x.leases.map (fun l => (l.leaseId, l.state))
  outcomes : y.outcomes = x.outcomes
  results : y.results.map ResultRow.fixed = x.results.map ResultRow.fixed
  cancellations : y.cancellations = x.cancellations
  marks : y.leaseCancellations.map (·.leaseId) = x.leaseCancellations.map (·.leaseId)

theorem mem_of_map_eq {α β : Type} {f : α → β} {l l' : List α} (h : l'.map f = l.map f) {a : α} (ha : a ∈ l') :
    ∃ b ∈ l, f b = f a := List.mem_map.1 (h ▸ List.mem_map_of_mem ha)

namespace SameShape

variable {x y : Life} (h : SameShape x y)
include h

theorem idle (hx : x.Idle) : y.Idle := by
  refine ⟨h.row ▸ hx.current, fun l hl => ?_⟩
  obtain ⟨m, hm, he⟩ := mem_of_map_eq h.leases hl
  rw [← (Prod.mk.inj he).2]
  exact hx.closed m hm

theorem toOver (hx : x.Over) : y.Over :=
  ⟨h.idle hx.toIdle, h.cancellations ▸ hx.cancellations, h.cancellations ▸ hx.terminal⟩

theorem results_nil (hx : x.results = []) : y.results = [] := by
  have hr := h.results
  rwa [hx, List.map_nil, List.map_eq_nil_iff] at hr

theorem held {i : OpaqueId} (hx : x.Held i) : y.Held i := by
  refine ⟨h.row ▸ hx.current, ?_, ?_, h.outcomes ▸ hx.outcomes, h.results_nil hx.results, ?_⟩
  · obtain ⟨l, hl, hi, ha⟩ := hx.lease
    obtain ⟨m, hm, he⟩ := mem_of_map_eq h.leases.symm hl
    exact ⟨m, hm, (Prod.mk.inj he).1.trans hi, (Prod.mk.inj he).2.trans ha⟩
  · intro l hl ha
    obtain ⟨m, hm, he⟩ := mem_of_map_eq h.leases hl
    exact (Prod.mk.inj he).1 ▸ hx.only m hm ((Prod.mk.inj he).2.trans ha)
  · rcases hx.marked with ⟨hc, hm⟩ | ⟨c, hc, ht, m, hm, hi⟩
    · refine Or.inl ⟨h.cancellations.trans hc, fun m hm' => ?_⟩
      obtain ⟨m₀, h₀, he⟩ := mem_of_map_eq h.marks hm'
      exact he ▸ hm m₀ h₀
    · obtain ⟨m', hm', he⟩ := mem_of_map_eq h.marks.symm hm
      exact Or.inr ⟨c, h.cancellations.trans hc, ht, m', hm', he.trans hi⟩

theorem phase (hx : x.Phase) : y.Phase := by
  unfold Phase at hx ⊢
  rw [h.row]
  cases hs : x.row.state <;> simp only [hs] at hx ⊢
  case leased => obtain ⟨i, hi⟩ := hx; exact ⟨i, h.held hi⟩
  case succeeded =>
    obtain ⟨r, o, hx⟩ := hx
    have hr := h.results
    rw [hx.results, List.map_singleton] at hr
    obtain ⟨r', hr', hf⟩ := List.map_eq_singleton_iff.1 hr
    have hl : r'.leaseId = r.leaseId := congrArg (·.leaseId) hf
    have hd : r'.envelopeDigest = r.envelopeDigest := congrArg (·.envelopeDigest) hf
    exact ⟨r', o, h.toOver hx.toOver, hr', h.outcomes.trans hx.outcomes, hx.kind, hl ▸ hx.lease, hd ▸ hx.digest⟩
  case failed =>
    obtain ⟨o, hx⟩ := hx
    exact ⟨o, h.toOver hx.toOver, h.results_nil hx.results, h.outcomes.trans hx.outcomes, hx.kind⟩
  all_goals
    exact ⟨h.idle hx.toIdle, h.row ▸ hx.left, h.outcomes.trans hx.outcomes, h.results_nil hx.results,
      h.cancellations.trans hx.cancellations⟩

end SameShape

/-- **An update of a lease that keeps its fixed columns keeps every lease's.** -/
theorem leases_setLease (i : OpaqueId) (f : LeaseRow → LeaseRow) (x : Life) (hf : ∀ l, (f l).fixed = l.fixed) :
    (x.setLease i f).leases.map LeaseRow.fixed = x.leases.map LeaseRow.fixed :=
  Rows.map_set _ LeaseRow.fixed i f x.leases (fun l _ _ => hf l)

theorem Numbered.congr {x y : Life} (h : x.Numbered) (hl : y.leases.map LeaseRow.fixed = x.leases.map LeaseRow.fixed)
    (ha : y.row.attemptCount = x.row.attemptCount) (hm : y.row.maxAttempts = x.row.maxAttempts) : y.Numbered := by
  have hid : ∀ l : List LeaseRow, l.map (·.leaseId) = (l.map LeaseRow.fixed).map (·.leaseId) := by simp [LeaseRow.fixed]
  have hat : ∀ l : List LeaseRow, l.map (·.attempt) = (l.map LeaseRow.fixed).map (·.attempt) := by simp [LeaseRow.fixed]
  refine ⟨?_, ?_, ?_⟩
  · rw [hid, hl, ← hid]
    exact h.ids
  · rw [hat, hl, ← hat, ha]
    exact h.attempts
  · rw [ha, hm]
    exact h.bound

theorem mem_close {i : OpaqueId} {s : LeaseState} {x : Life} {l : LeaseRow} (h : l ∈ (x.close i s).leases) :
    ∃ l₀ ∈ x.leases, l.fixed = l₀.fixed ∧ l.expiresAt = l₀.expiresAt ∧
      (l.state = l₀.state ∧ l.leaseId ≠ i ∨ l.state = s) := by
  rcases (Rows.mem_set _).1 h with ⟨l₀, h₀, hk, rfl⟩ | ⟨h₀, hk⟩
  · exact ⟨l₀, h₀, rfl, rfl, Or.inr rfl⟩
  · exact ⟨l, h₀, rfl, rfl, Or.inl ⟨rfl, hk⟩⟩

/-- **Closing the lease an assignment is held under leaves none active.** -/
theorem Held.closed {i : OpaqueId} {s : LeaseState} {x : Life} (h : x.Held i) (hs : s ≠ .active) :
    ∀ l ∈ (x.close i s).leases, l.state ≠ .active := by
  intro l hl ha
  obtain ⟨l₀, h₀, hf, _, ⟨hst, hi⟩ | hst⟩ := mem_close hl
  · have hid : l.leaseId = l₀.leaseId := congrArg (·.leaseId) hf
    exact hi (hid.trans (h.only l₀ h₀ (hst ▸ ha)))
  · exact hs (hst ▸ ha)

theorem Numbered.close {i : OpaqueId} {s : LeaseState} {x : Life} (h : x.Numbered) : (x.close i s).Numbered :=
  h.congr (leases_setLease i _ x (fun _ => rfl)) rfl rfl

theorem Timed.close {now : Time} {i : OpaqueId} {s : LeaseState} {x : Life} (h : x.Timed now) :
    (x.close i s).Timed now := by
  refine ⟨fun l hl => ?_, fun l hl => ?_, h.available, h.deadline⟩
  · obtain ⟨l₀, h₀, hf, _⟩ := mem_close hl
    have hi : l.issuedAt = l₀.issuedAt := congrArg (·.issuedAt) hf
    rw [hi]
    exact h.issued l₀ h₀
  · obtain ⟨l₀, h₀, hf, he, _⟩ := mem_close hl
    have hi : l.issuedAt = l₀.issuedAt := congrArg (·.issuedAt) hf
    rw [hi, he]
    exact h.expires l₀ h₀

theorem wf_grant {now : Time} {l : LeaseRow} {x : Life} (h : x.Wf now) (g : x.Grantable now l) :
    (x.grant l).Wf now := by
  have hw := h.waiting g.waiting
  have hmem : ∀ m ∈ (x.grant l).leases, m ∈ x.leases ∨ m = l := by
    intro m hm
    simpa [grant] using hm
  refine ⟨⟨?_, ?_, h.timed.available, h.timed.deadline⟩, ⟨?_, ?_, ?_⟩, ?_⟩
  · intro m hm
    rcases hmem m hm with hm | rfl
    · exact h.timed.issued m hm
    · exact ⟨g.issued ▸ h.timed.available.trans g.available, g.issued.le⟩
  · intro m hm
    rcases hmem m hm with hm | rfl
    · exact h.timed.expires m hm
    · exact ⟨g.issued ▸ g.expires, g.deadline⟩
  · show ((x.leases ++ [l]).map _).Nodup
    rw [List.map_append, List.nodup_append]
    refine ⟨h.numbered.ids, List.nodup_singleton _, ?_⟩
    intro a ha b hb
    obtain ⟨m, hm, rfl⟩ := List.mem_map.1 ha
    rw [List.map_singleton, List.mem_singleton] at hb
    exact hb ▸ g.fresh m hm
  · show (x.leases ++ [l]).map _ = List.range' 1 (x.row.attemptCount + 1)
    rw [List.map_append, h.numbered.attempts, List.map_singleton, g.attempt, List.range'_concat]
    simp [Nat.add_comm]
  · exact hw.left
  · refine ⟨l.leaseId, rfl, ⟨l, by simp [grant], rfl, g.state⟩, ?_, hw.outcomes, hw.results, ?_⟩
    · intro m hm ha
      rcases hmem m hm with hm | rfl
      · exact absurd ha (hw.closed m hm)
      · rfl
    · exact Or.inl ⟨hw.cancellations, g.unmarked⟩

theorem Marked.length {i : OpaqueId} {x : Life} (h : x.Marked i) : x.cancellations.length ≤ 1 := by
  rcases h with ⟨h, _⟩ | ⟨c, h, _⟩ <;> rw [h] <;> simp

/-- What is over once its lease is closed and its cancellations are ended. -/
theorem Held.over {i : OpaqueId} {s : LeaseState} {x y : Life} (h : x.Held i) (hs : s ≠ .active)
    (hc : y.row.currentLeaseId = none) (hl : y.leases = (x.close i s).leases)
    (hy : y.cancellations = x.endCancellations.cancellations) : y.Over := by
  refine ⟨⟨hc, fun l m => h.closed hs l (hl ▸ m)⟩, ?_, ?_⟩
  · rw [hy]
    exact (List.length_map _).le.trans h.marked.length
  · rw [hy]
    intro c hc
    obtain ⟨c₀, _, rfl⟩ := List.mem_map.1 hc
    rfl

/-- **A move keeps a life well formed.** -/
theorem Move.wf {now : Time} {x y : Life} (h : x.Wf now) (m : Move now x y) : y.Wf now := by
  cases m with
  | grant l g => exact wf_grant h g
  | renew i e s hr =>
    have hm : ∀ l ∈ (x.renew i e s).leases, ∃ l₀ ∈ x.leases, l.issuedAt = l₀.issuedAt ∧ l₀.expiresAt ≤ l.expiresAt ∧
        ∀ d ∈ x.row.deadlineAt, l.expiresAt ≤ d := by
      intro l hl
      rcases (Rows.mem_set _).1 hl with ⟨l₀, h₀, hk, rfl⟩ | ⟨h₀, _⟩
      · exact ⟨l₀, h₀, rfl, (hr l₀ h₀ hk).2⟩
      · exact ⟨l, h₀, rfl, le_refl _, (h.timed.expires l h₀).2⟩
    refine ⟨⟨fun l hl => ?_, fun l hl => ?_, h.timed.available, h.timed.deadline⟩,
      h.numbered.congr (leases_setLease i _ x (fun _ => rfl)) rfl rfl, SameShape.phase ?_ h.phase⟩
    · obtain ⟨l₀, h₀, hi, _⟩ := hm l hl
      exact hi ▸ h.timed.issued l₀ h₀
    · obtain ⟨l₀, h₀, hi, he, hd⟩ := hm l hl
      exact ⟨hi ▸ (h.timed.expires l₀ h₀).1.trans_le he, hd⟩
    · refine ⟨rfl, ?_, rfl, rfl, rfl, rfl⟩
      apply Rows.map_set
      intro _ _ _
      rfl
  | retry i s at_ hi hs hc hn ha =>
    obtain ⟨_, hx⟩ := h.held_of_current hi
    have ht := h.timed.close (i := i) (s := s)
    have hnum := h.numbered.close (i := i) (s := s)
    refine ⟨⟨ht.issued, ht.expires, ?_, ht.deadline⟩, ⟨hnum.ids, hnum.attempts, hnum.bound⟩, ?_⟩
    · obtain ⟨l, hl, _, _⟩ := hx.lease
      exact ((h.timed.issued l hl).1.trans (h.timed.issued l hl).2).trans ha
    · exact ⟨⟨rfl, hx.closed hs⟩, hn, hx.outcomes, hx.results, hc⟩
  | fail i s o hi hs ho =>
    obtain ⟨_, hx⟩ := h.held_of_current hi
    have ht := h.timed.close (i := i) (s := s)
    have hnum := h.numbered.close (i := i) (s := s)
    refine ⟨⟨ht.issued, ht.expires, ht.available, ht.deadline⟩, ⟨hnum.ids, hnum.attempts, hnum.bound⟩, o, ?_⟩
    exact ⟨hx.over hs rfl rfl rfl, hx.results, by show x.outcomes ++ [o] = _; rw [hx.outcomes]; rfl, ho⟩
  | drop o hw ho =>
    have hx := h.waiting hw
    refine ⟨⟨h.timed.issued, h.timed.expires, h.timed.available, h.timed.deadline⟩,
      ⟨h.numbered.ids, h.numbered.attempts, h.numbered.bound⟩, o, ?_⟩
    refine ⟨⟨⟨rfl, hx.closed⟩, ?_, ?_⟩, hx.results, by show x.outcomes ++ [o] = _; rw [hx.outcomes]; rfl, ho⟩
    · show x.cancellations.length ≤ 1
      rw [hx.cancellations]
      simp
    · show ∀ c ∈ x.cancellations, _
      rw [hx.cancellations]
      simp
  | dropStale c o hw hc ho =>
    have hx := h.waiting hw
    refine ⟨⟨h.timed.issued, h.timed.expires, h.timed.available, h.timed.deadline⟩,
      ⟨h.numbered.ids, h.numbered.attempts, h.numbered.bound⟩, o, ?_⟩
    have hcs : ((x.cancel c).fail o).cancellations = [c] := by
      show x.cancellations ++ [c] = _
      rw [hx.cancellations]
      rfl
    refine ⟨⟨⟨rfl, hx.closed⟩, ?_, ?_⟩, hx.results, by show x.outcomes ++ [o] = _; rw [hx.outcomes]; rfl, ho⟩
    · rw [hcs]
      simp
    · rw [hcs]
      simpa using hc
  | mark i c m hi hx hc hm =>
    obtain ⟨hs, hh⟩ := h.held_of_current hi
    refine ⟨⟨h.timed.issued, h.timed.expires, h.timed.available, h.timed.deadline⟩,
      ⟨h.numbered.ids, h.numbered.attempts, h.numbered.bound⟩, ?_⟩
    have hph : ((x.cancel c).markLease m).Held i := by
      refine ⟨hh.current, hh.lease, hh.only, hh.outcomes, hh.results, Or.inr ⟨c, ?_, hc, m, ?_, hm⟩⟩
      · show x.cancellations ++ [c] = _
        rw [hx]
        rfl
      · simp [markLease]
    unfold Phase
    rw [show ((x.cancel c).markLease m).row.state = .leased from hs]
    exact ⟨i, hph⟩
  | deliver i t =>
    refine ⟨⟨h.timed.issued, h.timed.expires, h.timed.available, h.timed.deadline⟩,
      ⟨h.numbered.ids, h.numbered.attempts, h.numbered.bound⟩, SameShape.phase ?_ h.phase⟩
    refine ⟨rfl, rfl, rfl, rfl, rfl, ?_⟩
    apply Rows.map_set
    intro _ _ _
    rfl
  | succeed i r o hi hr hk hl hd =>
    obtain ⟨_, hx⟩ := h.held_of_current hi
    have ht := h.timed.close (i := i) (s := .succeeded)
    have hnum := h.numbered.close (i := i) (s := .succeeded)
    refine ⟨⟨ht.issued, ht.expires, ht.available, ht.deadline⟩, ⟨hnum.ids, hnum.attempts, hnum.bound⟩, r, o, ?_⟩
    refine ⟨hx.over (by decide) rfl rfl rfl, ?_, ?_, hk, hl, hd⟩
    · show x.results ++ [r] = _
      rw [hx.results]
      rfl
    · show x.outcomes ++ [o] = _
      rw [hx.outcomes]
      rfl
  | process f hf =>
    refine ⟨⟨h.timed.issued, h.timed.expires, h.timed.available, h.timed.deadline⟩,
      ⟨h.numbered.ids, h.numbered.attempts, h.numbered.bound⟩, SameShape.phase ?_ h.phase⟩
    refine ⟨rfl, rfl, rfl, ?_, rfl, rfl⟩
    show (x.results.map f).map _ = _
    rw [List.map_map]
    exact List.map_congr_left (fun r _ => hf r)

/-! ## What no move takes back -/

/-- **`y` is `x` later on**: the fixed columns stay, attempts and outcomes are only added, what is over stays as it is,
and a cancelled assignment is leased under the same lease or over. -/
structure Le (x y : Life) : Prop where
  row : y.row.fixed = x.row.fixed
  leases : x.leases.map LeaseRow.fixed <+: y.leases.map LeaseRow.fixed
  outcomes : x.outcomes <+: y.outcomes
  results : x.results.map ResultRow.fixed <+: y.results.map ResultRow.fixed
  ended : x.row.state.terminal = true → y.row = x.row
  cancelled : x.cancellations ≠ [] → y.cancellations ≠ [] ∧ (y.row = x.row ∨ y.row.state.terminal = true)

theorem Le.refl (x : Life) : Le x x :=
  ⟨rfl, List.prefix_rfl, List.prefix_rfl, List.prefix_rfl, fun _ => rfl, fun h => ⟨h, Or.inl rfl⟩⟩

theorem Le.trans {x y z : Life} (h₁ : Le x y) (h₂ : Le y z) : Le x z := by
  refine ⟨h₂.row.trans h₁.row, h₁.leases.trans h₂.leases, h₁.outcomes.trans h₂.outcomes, h₁.results.trans h₂.results,
    fun hx => ?_, fun hx => ?_⟩
  · have hy := h₁.ended hx
    exact (h₂.ended (hy ▸ hx)).trans hy
  · obtain ⟨hy, hr⟩ := h₁.cancelled hx
    obtain ⟨hz, hs⟩ := h₂.cancelled hy
    refine ⟨hz, ?_⟩
    rcases hr with hr | hr
    · exact hs.imp (fun h => h.trans hr) id
    · exact Or.inr ((h₂.ended hr).symm ▸ hr)

/-- A held lease is not over, and has no outcome and no result yet. -/
theorem Held.not_over {now : Time} {i : OpaqueId} {x : Life} (h : x.Wf now) (hx : x.Held i) :
    x.row.state.terminal = false := by
  have hs := (h.held_of_current hx.current).1
  rw [hs]
  rfl

theorem Move.le {now : Time} {x y : Life} (h : x.Wf now) (m : Move now x y) : Le x y := by
  have waits : ∀ {x : Life}, x.row.state.waiting = true → ¬ x.row.state.terminal = true := by
    intro x hw ht
    cases hs : x.row.state <;> rw [hs] at hw ht <;> cases hw <;> cases ht
  cases m with
  | grant l g =>
    have hw := h.waiting g.waiting
    refine ⟨rfl, ?_, List.prefix_rfl, List.prefix_rfl, fun ht => absurd ht (waits g.waiting),
      fun hc => absurd hw.cancellations hc⟩
    show _ <+: (x.leases ++ [l]).map _
    rw [List.map_append]
    exact List.prefix_append _ _
  | renew i e s hr =>
    have hl : (x.renew i e s).leases.map LeaseRow.fixed = x.leases.map LeaseRow.fixed :=
      leases_setLease i _ x (fun _ => rfl)
    exact ⟨rfl, hl ▸ List.prefix_rfl, List.prefix_rfl, List.prefix_rfl, fun _ => rfl, fun hc => ⟨hc, Or.inl rfl⟩⟩
  | retry i s at_ hi hs hc hn ha =>
    obtain ⟨_, hx⟩ := h.held_of_current hi
    have hl : (x.close i s).leases.map LeaseRow.fixed = x.leases.map LeaseRow.fixed :=
      leases_setLease i _ x (fun _ => rfl)
    refine ⟨rfl, ?_, List.prefix_rfl, List.prefix_rfl, fun ht => ?_, fun hx => absurd hc hx⟩
    · exact hl ▸ List.prefix_rfl
    · rw [hx.not_over h] at ht
      cases ht
  | fail i s o hi hs ho =>
    obtain ⟨_, hx⟩ := h.held_of_current hi
    have hl : (x.close i s).leases.map LeaseRow.fixed = x.leases.map LeaseRow.fixed :=
      leases_setLease i _ x (fun _ => rfl)
    refine ⟨rfl, ?_, List.prefix_append _ _, List.prefix_rfl, fun ht => ?_, fun hc => ⟨?_, Or.inr rfl⟩⟩
    · exact hl ▸ List.prefix_rfl
    · rw [hx.not_over h] at ht
      cases ht
    · exact fun he => hc (List.map_eq_nil_iff.1 he)
  | drop o hw ho =>
    exact ⟨rfl, List.prefix_rfl, List.prefix_append _ _, List.prefix_rfl, fun ht => absurd ht (waits hw),
      fun hc => absurd (h.waiting hw).cancellations hc⟩
  | dropStale c o hw hc ho =>
    exact ⟨rfl, List.prefix_rfl, List.prefix_append _ _, List.prefix_rfl, fun ht => absurd ht (waits hw),
      fun hc => absurd (h.waiting hw).cancellations hc⟩
  | mark i c m hi hx hc hm =>
    exact ⟨rfl, List.prefix_rfl, List.prefix_rfl, List.prefix_rfl, fun _ => rfl, fun he => absurd hx he⟩
  | deliver i t =>
    exact ⟨rfl, List.prefix_rfl, List.prefix_rfl, List.prefix_rfl, fun _ => rfl, fun hc => ⟨hc, Or.inl rfl⟩⟩
  | succeed i r o hi hr hk hl hd =>
    obtain ⟨_, hx⟩ := h.held_of_current hi
    have hle : (x.close i .succeeded).leases.map LeaseRow.fixed = x.leases.map LeaseRow.fixed :=
      leases_setLease i _ x (fun _ => rfl)
    refine ⟨rfl, ?_, List.prefix_append _ _, ?_, fun ht => ?_, fun hc => ⟨?_, Or.inr rfl⟩⟩
    · exact hle ▸ List.prefix_rfl
    · show _ <+: (x.results ++ [r]).map _
      rw [List.map_append]
      exact List.prefix_append _ _
    · rw [hx.not_over h] at ht
      cases ht
    · exact fun he => hc (List.map_eq_nil_iff.1 he)
  | process f hf =>
    refine ⟨rfl, List.prefix_rfl, List.prefix_rfl, ?_, fun _ => rfl, fun hc => ⟨hc, Or.inl rfl⟩⟩
    have he : (x.results.map f).map ResultRow.fixed = x.results.map ResultRow.fixed := by
      rw [List.map_map]
      exact List.map_congr_left (fun r _ => hf r)
    exact he ▸ List.prefix_rfl

/-! ## Sequences of moves -/

abbrev Moves (now : Time) : Life → Life → Prop := Relation.ReflTransGen (Move now)

theorem Moves.fixed {now : Time} {x y : Life} (m : Moves now x y) : y.row.fixed = x.row.fixed := by
  induction m with
  | refl => rfl
  | tail _ m ih => exact Eq.trans (by cases m <;> rfl) ih

theorem Moves.wf_le {now : Time} {x y : Life} (h : x.Wf now) (m : Moves now x y) : y.Wf now ∧ Le x y := by
  induction m with
  | refl => exact ⟨h, Le.refl x⟩
  | tail _ m ih => exact ⟨m.wf ih.1, ih.2.trans (m.le ih.1)⟩

/-- Neither waiting nor able to wait again: over, or held under a cancelled lease. -/
structure Settled (x : Life) : Prop where
  idle : x.row.state.waiting = false
  cancelled : x.row.state = .leased → x.cancellations ≠ []

theorem Settled.of_over {x : Life} (h : x.row.state.terminal = true) : x.Settled := by
  constructor
  · cases hs : x.row.state <;> rw [hs] at h <;> first | rfl | cases h
  · intro hs
    rw [hs] at h
    cases h

/-- **What is settled stays settled.** -/
theorem Settled.moves {now : Time} {x y : Life} (h : x.Settled) (hw : x.Wf now) (m : Moves now x y) : y.Settled := by
  have hle := (m.wf_le hw).2
  by_cases hs : x.row.state = .leased
  · obtain ⟨hc, hr⟩ := hle.cancelled (h.cancelled hs)
    rcases hr with hr | hr
    · exact ⟨hr ▸ h.idle, fun _ => hc⟩
    · exact .of_over hr
  · have ht : x.row.state.terminal = true := by
      have hi := h.idle
      cases hst : x.row.state <;> simp_all [AssignmentState.waiting, AssignmentState.terminal]
    have hy := hle.ended ht
    exact .of_over (hy ▸ ht)

/-! ## Slots -/

/-- The lease takes a slot of its session: active, unexpired, before the deadline, and not known to be cancelled. -/
structure Holds (now : Time) (x : Life) (l : LeaseRow) : Prop where
  active : l.state = .active
  unexpired : now < l.expiresAt
  deadline : ∀ d ∈ x.row.deadlineAt, now < d
  undelivered : ∀ c ∈ x.leaseCancellations, c.leaseId = l.leaseId → c.deliveredAt = none

theorem Holds.before {now : Time} {x y : Life} {l : LeaseRow} (h : y.Holds now l)
    (hd : y.row.deadlineAt = x.row.deadlineAt)
    (hm : ∀ c ∈ x.leaseCancellations, c.leaseId = l.leaseId → ∃ c' ∈ y.leaseCancellations, c'.leaseId = l.leaseId ∧
      (c'.deliveredAt = none → c.deliveredAt = none)) : x.Holds now l := by
  refine ⟨h.active, h.unexpired, hd ▸ h.deadline, fun c hc hi => ?_⟩
  obtain ⟨c', hc', hi', hnone⟩ := hm c hc hi
  exact hnone (h.undelivered c' hc' hi')

theorem Holds.same {now : Time} {x y : Life} {l : LeaseRow} (h : y.Holds now l)
    (hd : y.row.deadlineAt = x.row.deadlineAt) (hm : y.leaseCancellations = x.leaseCancellations) : x.Holds now l :=
  h.before hd fun c hc hi => ⟨c, hm ▸ hc, hi, fun hn => hn⟩

/-- A closed lease takes no slot, and the others are as they were. -/
theorem Holds.of_close {now : Time} {x y : Life} {i : OpaqueId} {s : LeaseState} {l : LeaseRow} (h : y.Holds now l)
    (hs : s ≠ .active) (hl : l ∈ (x.close i s).leases) (hd : y.row.deadlineAt = x.row.deadlineAt)
    (hm : y.leaseCancellations = x.leaseCancellations) : ∃ l₀ ∈ x.leases, x.Holds now l₀ ∧ l₀.fixed = l.fixed := by
  rcases (Rows.mem_set _).1 hl with ⟨l₀, _, _, rfl⟩ | ⟨hl, _⟩
  · exact absurd h.active hs
  · exact ⟨l, hl, h.same hd hm, rfl⟩

/-- **A move gives no slot to a lease that was there without one.** -/
theorem Move.holds {now : Time} {x y : Life} (m : Move now x y) {l : LeaseRow} (hl : l ∈ y.leases) (h : y.Holds now l) :
    (∃ l₀ ∈ x.leases, x.Holds now l₀ ∧ l₀.fixed = l.fixed) ∨ l.fixed ∉ x.leases.map LeaseRow.fixed := by
  cases m with
  | grant g hg =>
    rcases List.mem_append.1 hl with hl | hl
    · exact Or.inl ⟨l, hl, h.same rfl rfl, rfl⟩
    · rw [List.mem_singleton] at hl
      subst hl
      refine Or.inr fun hm => ?_
      obtain ⟨l₀, hl₀, he⟩ := List.mem_map.1 hm
      have hid : l₀.leaseId = l.leaseId := congrArg (·.leaseId) he
      exact hg.fresh l₀ hl₀ hid
  | renew i e s hr =>
    rcases (Rows.mem_set _).1 hl with ⟨l₀, hl₀, hi, rfl⟩ | ⟨hl, _⟩
    · exact Or.inl ⟨l₀, hl₀, ⟨h.active, (hr l₀ hl₀ hi).1, h.deadline, h.undelivered⟩, rfl⟩
    · exact Or.inl ⟨l, hl, h.same rfl rfl, rfl⟩
  | retry i s at_ hi hs => exact Or.inl (h.of_close hs hl rfl rfl)
  | fail i s o hi hs => exact Or.inl (h.of_close hs hl rfl rfl)
  | succeed i r o => exact Or.inl (h.of_close (by decide) hl rfl rfl)
  | drop o => exact Or.inl ⟨l, hl, h.same rfl rfl, rfl⟩
  | dropStale c o => exact Or.inl ⟨l, hl, h.same rfl rfl, rfl⟩
  | mark i c m =>
    exact Or.inl ⟨l, hl, h.before rfl fun c' hc' hi => ⟨c', List.mem_append_left _ hc', hi, fun hn => hn⟩, rfl⟩
  | deliver i t =>
    refine Or.inl ⟨l, hl, h.before rfl fun c hc hi => ?_, rfl⟩
    by_cases hci : c.leaseId = i
    · refine ⟨_, (Rows.mem_set _).2 (Or.inl ⟨c, hc, hci, rfl⟩), hi, fun hn => ?_⟩
      cases hdel : c.deliveredAt <;> simp [hdel] at hn ⊢
    · exact ⟨c, (Rows.mem_set _).2 (Or.inr ⟨hc, hci⟩), hi, fun hn => hn⟩
  | process f hf => exact Or.inl ⟨l, hl, h.same rfl rfl, rfl⟩

theorem Moves.holds {now : Time} {x y : Life} (hw : x.Wf now) (m : Moves now x y) {l : LeaseRow} (hl : l ∈ y.leases)
    (h : y.Holds now l) :
    (∃ l₀ ∈ x.leases, x.Holds now l₀ ∧ l₀.fixed = l.fixed) ∨ l.fixed ∉ x.leases.map LeaseRow.fixed := by
  induction m generalizing l with
  | refl => exact Or.inl ⟨l, hl, h, rfl⟩
  | tail hm m ih =>
    rcases m.holds hl h with ⟨l₁, hl₁, h₁, he⟩ | hnew
    · exact he ▸ ih hl₁ h₁
    · exact Or.inr fun hx => hnew ((Moves.wf_le hw hm).2.leases.subset hx)

end Life

end Aether
