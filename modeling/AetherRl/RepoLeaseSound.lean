import AetherRl.RepoReapSound
/-!
# RepoLeaseSound — grants, renewals and heartbeats keep the invariant

A grant moves a waiting assignment under its new lease, a renewal and a delivered cancellation leave every row's state
alone; so the groups stay in sync without being recomputed.  `Sound.changes` is that rule, `Sound.recomputed` the one
for a change of state followed by its group's recomputation.
-/
namespace Aether

open Txn (Returns Writes Evolves returns_bind returns_pure returns_map returns_orThrow returns_orRaise returns_raiseIf
  returns_throw)
open Tables Repo
open Life (Moves Move)

variable {now : Time}

/-! ## Two rules for one change -/

theorem Changes.advances {i : OpaqueId} {f : Life → Life} {t t' : Tables} {x : Life} (hc : Changes i f t t')
    (hx : t.life? i = some x) (hm : Moves now x (f x)) : Advances now (fun g => g = x.row.groupId) t t' :=
  (hc.moved hx hm).advances hx

/-- **A change that ends no assignment keeps the invariant.** -/
theorem Sound.changes {t t' : Tables} (hs : Sound now t) {i : OpaqueId} {f : Life → Life} (hc : Changes i f t t')
    {x : Life} (hx : t.life? i = some x) (hm : Moves now x (f x))
    (hflag : (f x).row.state.terminal = x.row.state.terminal) (hg : t'.groups = t.groups) :
    Sound now t' ∧ Advances now (fun _ => True) t t' := by
  have ha := hc.advances hx hm
  refine ⟨hs.advance ha (by rw [hg]) ?_, ha.mono (fun _ _ => trivial)⟩
  have hall : ∀ g, t'.AllOver g ↔ t.AllOver g := by
    intro g
    constructor
    · intro h j z hz hzg
      by_cases hj : j = i
      · subst hj
        rw [hx, Option.some.injEq] at hz
        subst hz
        rw [← hflag]
        exact h j (f x) (hc.at hx) ((fixed_groupId hm.fixed).trans hzg)
      · exact h j z (by rw [hc.other hj]; exact hz) hzg
    · intro h j z hz hzg
      by_cases hj : j = i
      · subst hj
        rw [hc.at hx, Option.some.injEq] at hz
        subst hz
        rw [hflag]
        exact h j x hx ((fixed_groupId hm.fixed).symm.trans hzg)
      · exact h j z (by rw [← hc.other hj]; exact hz) hzg
  intro r hr hd
  rw [hall]
  exact hs.synced r (hg ▸ hr) hd

/-- **A move followed by its group's recomputation keeps the invariant.** -/
theorem Sound.recomputed {d d₁ d' : Db} (hs : Sound now d.toTables) {i : OpaqueId} {x : Life}
    (hx : d.life? i = some x) (hm : Moved now i d.toTables d₁.toTables) (hg : d₁.groups = d.groups) {u : Unit}
    (hr : Returns (recomputeGroup x.row.groupId) d₁ u d') :
    Sound now d'.toTables ∧ Advances now (fun _ => True) d.toTables d'.toTables := by
  have a₁ := hm.advances hx
  have ha : Advances now (fun _ => True) d.toTables d'.toTables :=
    (a₁.mono (fun _ _ => trivial)).trans (.of_same (life?_recomputeGroup hr))
  have hfix := writes_recomputeGroup (S := [.groups]) x.row.groupId (by decide) d₁ u d' hr .fixedGroups (by decide)
  have hfix' : d'.groups.map GroupRow.fixed = d₁.groups.map GroupRow.fixed := hfix
  refine ⟨hs.advance ha (by rw [hfix', hg]) ?_, ha⟩
  intro r hr' hd
  exact (hs.synced.advance a₁ hg).recompute hr r hr' (by simp)

/-! ## Reads -/

theorem returns_assignment {i : OpaqueId} {d d' : Db} {a : AssignmentRow} (h : Returns (assignment i) d a d') :
    d.assignment? i = some a ∧ d' = d := by
  simp only [assignment, returns_bind, returns_tables, returns_orRaise] at h
  obtain ⟨_, _, ⟨rfl, rfl⟩, ha, rfl⟩ := h
  exact ⟨ha, rfl⟩

theorem returns_compatibleSession {i j : OpaqueId} {d d' : Db} {s : SessionRow}
    (h : Returns (compatibleSession i j) d s d') : d.session? j = some s ∧ s.workerId = i ∧ d' = d := by
  simp only [compatibleSession, returns_bind, returns_tables, returns_orRaise, returns_raiseIf, returns_pure] at h
  obtain ⟨_, _, ⟨rfl, rfl⟩, s', _, ⟨hs, rfl⟩, _, _, ⟨hw, rfl⟩, rfl, rfl⟩ := h
  exact ⟨hs, not_not.1 hw, rfl⟩

theorem returns_validatePolicyIds {is : List OpaqueId} {d d' : Db} {u : Unit}
    (h : Returns (validatePolicyIds is) d u d') : d' = d := by
  simp only [validatePolicyIds, returns_bind, returns_tables, returns_raiseIf] at h
  obtain ⟨_, _, ⟨_, rfl⟩, _, rfl⟩ := h
  rfl

theorem steady_readOnly {α : Type} {m : Body α} (h : Writes Db.rows [] m) : Steady now m :=
  .of_writes h (fun _ _ => List.not_mem_nil)

/-! ## Grants -/

theorem leaseExpiry_le (now duration : Time) {deadline : Option Time} :
    ∀ d ∈ deadline, leaseExpiry now duration deadline ≤ d := by
  intro d h
  rw [Option.mem_def] at h
  rw [h]
  exact min_le_right _ _

/-- **A lease expires after its issue** if the sum does. -/
theorem lt_leaseExpiry_iff {duration : Time} {deadline : Option Time} (hl : ∀ d ∈ deadline, now < d) :
    now < leaseExpiry now duration deadline ↔ now < Binary64.add now duration := by
  cases deadline with
  | none => exact Iff.rfl
  | some d => exact lt_min_iff.trans (and_iff_left (hl d rfl))

/-- **A grant is refused by its `CHECK`** unless the lease expires after its issue. -/
theorem grantLease_expires {a : AssignmentRow} {leaseId workerId workerSessionId : OpaqueId} {expiresAt : Time}
    {d d' : Db} {u : Unit} (h : Returns (grantLease a leaseId workerId workerSessionId now expiresAt) d u d') :
    now < expiresAt := by
  simp only [grantLease, returns_bind, returns_exec] at h
  obtain ⟨_, d₁, h₁, -⟩ := h
  have htimes := d₁.ok.leases.times
  rw [h₁] at htimes
  exact htimes _ (List.mem_append_right _ (List.mem_singleton_self _))

/-- **A grant moves its waiting assignment under the new lease**, whose id no lease had. -/
theorem grantLease_sound {a : AssignmentRow} {leaseId workerId workerSessionId : OpaqueId} {expiresAt : Time}
    {d d' : Db} {u : Unit} (hs : Sound now d.toTables) (ha : d.assignment? a.assignmentId = some a)
    (hw : a.state.waiting = true) (hav : a.availableAt ≤ now) (hd : ∀ x ∈ a.deadlineAt, expiresAt ≤ x)
    (h : Returns (grantLease a leaseId workerId workerSessionId now expiresAt) d u d') :
    (Sound now d'.toTables ∧ Advances now (fun _ => True) d.toTables d'.toTables) ∧
      d'.leases = d.leases ++ [⟨leaseId, a.assignmentId, a.attemptCount + 1, workerId, workerSessionId, now, expiresAt,
        .active, none⟩] := by
  have he := grantLease_expires h
  simp only [grantLease, returns_bind, returns_exec] at h
  obtain ⟨_, d₁, h₁, h₂⟩ := h
  have hx := life?_of_assignment ha
  have hfresh : ∀ m ∈ d.leases, m.leaseId ≠ leaseId := by
    have hk := d₁.ok.leases.key
    rw [h₁] at hk
    simp only [insertLease, List.map_append, List.nodup_append, List.map_singleton, List.mem_singleton] at hk
    exact fun m hm => hk.2.2 _ (List.mem_map_of_mem hm) _ rfl
  have hunm : ∀ c ∈ d.leaseCancellations, c.leaseId ≠ leaseId := by
    intro c hc he
    obtain ⟨l, hl, _, hli⟩ := d.ok.cancellations.lease c hc
    exact hfresh l hl (hli.trans he)
  have c₁ := changes_insertLease ⟨leaseId, a.assignmentId, a.attemptCount + 1, workerId, workerSessionId, now, expiresAt,
    .active, none⟩ d.toTables
  rw [← h₁] at c₁
  have c₂ : Changes a.assignmentId _ d₁.toTables d'.toTables := h₂ ▸ changes_setAssignment a.assignmentId
    (fun b => { b with state := .leased, attemptCount := a.attemptCount + 1, currentLeaseId := some leaseId })
    d₁.toTables (fun _ => rfl)
  have hm : Move now (d.lifeOf a) ((d.lifeOf a).grant ⟨leaseId, a.assignmentId, a.attemptCount + 1, workerId,
      workerSessionId, now, expiresAt, .active, none⟩) := by
    refine .grant _ ⟨hw, hav, rfl, rfl, rfl, he, hd, fun m hm => ?_, fun c hc => ?_⟩
    · exact hfresh m ((mem_life_leases hx).1 hm).1
    · exact hunm c ((mem_life_marks hx).1 hc).1
  refine ⟨hs.changes (c₁.trans c₂) hx (.single hm) ?_ (by rw [h₂, h₁]; rfl), by rw [h₂, h₁]; rfl⟩
  show false = a.state.terminal
  cases hst : a.state <;> rw [hst] at hw <;> first | rfl | cases hw

theorem leaseCandidates_leasable {d : Db} {a : AssignmentRow} (h : a ∈ leaseCandidates d.toTables now) :
    a ∈ d.assignments ∧ leasable d.toTables now a = true := by
  rw [leaseCandidates, List.mem_map] at h
  obtain ⟨x, hx, rfl⟩ := h
  rw [Rows.mem_orderBy, List.mem_filterMap] at hx
  obtain ⟨b, hb, hx⟩ := hx
  rw [Option.bind_eq_some_iff] at hx
  obtain ⟨g, _, hx⟩ := hx
  split at hx
  case isFalse => cases hx
  case isTrue hl =>
    rw [Option.some.injEq] at hx
    subst hx
    exact ⟨hb, hl⟩

theorem chooseCandidate_mem {cs : List AssignmentRow} {oldest : AssignmentRow} (h : oldest ∈ cs) (loaded : List OpaqueId)
    (preference : Time) : chooseCandidate cs oldest loaded preference now ∈ cs := by
  unfold chooseCandidate
  split
  · cases hf : cs.find? (fun c => decide (c.policyId ∈ loaded)) with
    | none => exact h
    | some c => exact List.mem_of_find?_eq_some hf
  · exact h

/-- What `leasable` checked of a candidate. -/
theorem leasable_iff {t : Tables} {a : AssignmentRow} (h : leasable t now a = true) :
    a.state.waiting = true ∧ a.availableAt ≤ now ∧ (∀ d ∈ a.deadlineAt, now < d) := by
  simp only [leasable, Bool.and_eq_true, decide_eq_true_eq, Option.all_eq_true] at h
  exact ⟨h.1.1.1, h.1.1.2, h.1.2⟩

theorem steady_completeRequest (i : OpaqueId) (s : RequestState) (l : Option OpaqueId) (t : Time) :
    Steady now (completeRequest i s l t) :=
  .of_writes (S := [.requests]) (writes_completeRequest i s l t (by decide)) (by decide)

/-- **The grant `lease_next_compatible` makes**: of a candidate, to the request. -/
theorem returns_grantToRequest {request : LeaseRequest} {duration : Time} {leaseId : OpaqueId} {preference : Time}
    {d d' : Db} {answer : LeaseAnswer} (h : Returns (grantToRequest request duration leaseId preference now) d answer d') :
    (answer = .nothing ∧ d' = d ∧ leaseCandidates d.toTables now = []) ∨ ∃ a ∈ leaseCandidates d.toTables now, ∃ d₁,
      answer = .granted a (leaseExpiry now duration a.deadlineAt) ∧
      Returns (grantLease a leaseId request.workerId request.workerSessionId now (leaseExpiry now duration a.deadlineAt))
        d () d₁ ∧
      Returns (completeRequest request.requestId .leased (some leaseId) now) d₁ () d' := by
  simp only [grantToRequest, returns_bind, returns_tables] at h
  obtain ⟨_, d₀, ⟨rfl, rfl⟩, h⟩ := h
  cases hc : (leaseCandidates d₀.toTables now).head? with
  | none =>
    rw [hc] at h
    simp only [returns_pure] at h
    exact Or.inl ⟨h.1, h.2, List.head?_eq_none_iff.1 hc⟩
  | some oldest =>
    rw [hc] at h
    simp only [returns_bind, returns_pure] at h
    obtain ⟨_, d₁, h₁, _, d₂, h₂, rfl, rfl⟩ := h
    exact Or.inr ⟨_, chooseCandidate_mem (List.mem_of_mem_head? hc) _ _, d₁, rfl, h₁, h₂⟩

theorem buildLease_ok {i w s : OpaqueId} {n : Nat} {t e : Time} {a : RolloutAssignment} {lease : AssignmentLease}
    (h : buildLease i n w s t e a = .ok lease) : lease.leaseId = i ∧ lease.assignment = a := by
  unfold buildLease at h
  split at h
  · rw [Except.ok.injEq] at h
    rw [← h]
    exact ⟨rfl, rfl⟩
  · cases h

/-- A lease read back is its own row joined with its assignment's. -/
theorem returns_assignmentLease {i : OpaqueId} {d d' : Db} {lease : AssignmentLease}
    (h : Returns (assignmentLease i) d lease d') : d' = d ∧ ∃ l a, d.lease? i = some l ∧
      d.assignment? l.assignmentId = some a ∧ buildLease l.leaseId l.attempt l.workerId l.workerSessionId l.issuedAt
        l.expiresAt a.assignment = .ok lease := by
  simp only [assignmentLease, returns_bind, returns_tables, returns_orRaise, returns_orThrow] at h
  obtain ⟨_, _, ⟨rfl, rfl⟩, l, _, ⟨hl, rfl⟩, _, d₀, ⟨rfl, rfl⟩, a, _, ⟨ha, rfl⟩, hb, rfl⟩ := h
  exact ⟨rfl, l, a, hl, ha, hb⟩

/-- **What a request's row answers**: its state, and the lease it is bound to. -/
theorem returns_leaseRequestDisposition {row : RequestRow} {d d' : Db} {x : LeaseRequestDisposition}
    (h : Returns (leaseRequestDisposition row) d x d') : d' = d ∧ x.state = row.state ∧
      (row.state = .leased → ∃ i lease, row.leaseId = some i ∧ x.lease = some lease ∧
        Returns (assignmentLease i) d lease d) ∧ (row.state ≠ .leased → x.lease = none) := by
  unfold leaseRequestDisposition at h
  split at h
  · rename_i hs
    simp only [returns_bind, returns_orRaise, returns_pure] at h
    obtain ⟨i, _, ⟨hi, rfl⟩, lease, d₁, hl, rfl, rfl⟩ := h
    obtain ⟨rfl, _⟩ := returns_assignmentLease hl
    exact ⟨rfl, hs.symm, fun _ => ⟨i, lease, hi, rfl, hl⟩, fun hne => absurd hs hne⟩
  · rename_i hs
    rw [returns_pure] at h
    obtain ⟨rfl, rfl⟩ := h
    exact ⟨rfl, rfl, fun he => absurd he (hs · |>.elim), fun _ => rfl⟩

/-- What `lease_next_compatible` does before it looks for a candidate: it expires leases and cancels stale work. -/
structure Reaped (now : Time) (d d' : Db) : Prop where
  sound : Sound now d'.toTables
  advances : Advances now (fun _ => True) d.toTables d'.toTables
  frame : ∀ k, k ∉ reapTables → d'.rows k = d.rows k
  fresh : ∃ lag ∈ d'.scheduler.maxPolicyLag, NoStaleWork d'.toTables lag

/-- **What `lease_next_compatible` answers and commits.** -/
inductive LeaseNext (request : LeaseRequest) (duration : Time) (leaseId : OpaqueId) (now : Time) (d : Db) :
    LeaseAnswer → Db → Prop
  | recorded (row : RequestRow) (hr : d.request? request.requestId = some row) (hs : row.state = .leased)
      (x : LeaseRequestDisposition) (hx : Returns (leaseRequestDisposition row) d x d) :
      LeaseNext request duration leaseId now d (.recorded x.lease) d
  | refused (row : RequestRow) (hr : d.request? request.requestId = some row) (hs : row.state = .noWork) :
      LeaseNext request duration leaseId now d .nothing d
  | nothing (row : RequestRow) (hr : d.request? request.requestId = some row) (hs : row.state = .pending) (d₁ : Db)
      (h₁ : Reaped now d d₁) : LeaseNext request duration leaseId now d .nothing d₁
  | granted (row : RequestRow) (hr : d.request? request.requestId = some row) (hs : row.state = .pending) (d₁ d₂ d₃ : Db)
      (h₁ : Reaped now d d₁) (a : AssignmentRow) (ha : a ∈ leaseCandidates d₁.toTables now)
      (h₂ : Returns (grantLease a leaseId request.workerId request.workerSessionId now
        (leaseExpiry now duration a.deadlineAt)) d₁ () d₂)
      (h₃ : Returns (completeRequest request.requestId .leased (some leaseId) now) d₂ () d₃)
      (session : SessionRow) (hsession : d₁.session? request.workerSessionId = some session)
      (hworker : session.workerId = request.workerId)
      (hfree : activeCount d₁.toTables request.workerId request.workerSessionId now < session.capabilities.inferenceSlots) :
      LeaseNext request duration leaseId now d (.granted a (leaseExpiry now duration a.deadlineAt)) d₃

theorem returns_leaseNextBody {env : Env} {request : LeaseRequest} {duration : Time} {leaseId : OpaqueId} {d d' : Db}
    {answer : LeaseAnswer} (hs : Sound now d.toTables)
    (h : Returns (leaseNextBody env request duration leaseId now) d answer d') :
    LeaseNext request duration leaseId now d answer d' := by
  simp only [leaseNextBody, returns_bind, returns_tables, returns_orRaise] at h
  obtain ⟨_, _, ⟨rfl, rfl⟩, row, d₀, ⟨hr, rfl⟩, x, d₁, hx, h⟩ := h
  obtain ⟨rfl, hst, _, _⟩ := returns_leaseRequestDisposition hx
  split at h
  · rename_i he
    rw [returns_pure] at h
    obtain ⟨rfl, rfl⟩ := h
    exact .recorded row hr (hst ▸ he) x hx
  · rename_i he
    rw [returns_pure] at h
    obtain ⟨rfl, rfl⟩ := h
    exact .refused row hr (hst ▸ he)
  · rename_i he
    simp only [returns_bind, returns_tables, returns_orRaise] at h
    obtain ⟨_, d₂, h₂, session, d₃, hses, _, _, hval, _, _, ⟨rfl, rfl⟩, lag, _, ⟨hlag, rfl⟩, _, _, ⟨rfl, rfl⟩, pref, d₄,
      ⟨_, rfl⟩, _, d₅, h₅, _, d₆, ⟨rfl, rfl⟩, h⟩ := h
    obtain ⟨hses, hworker, rfl⟩ := returns_compatibleSession hses
    have hval : d₄ = d₃ := returns_validatePolicyIds hval
    subst hval
    obtain ⟨hs₂, ha₂⟩ := steady_expireLeasesBody env now _ _ _ hs h₂
    have hw₂ := writes_expireLeasesBody (S := reapTables) env now (List.Subset.refl _) _ _ _ h₂
    obtain ⟨⟨hs₅, ha₅⟩, hno⟩ := cancelStaleTrainGroups_sound hs₂ h₅
    have hw₅ := writes_cancelStaleTrainGroups (S := reapTables) lag now (List.Subset.refl _) _ _ _ h₅
    have hreap : Reaped now d₁ d₆ := by
      refine ⟨hs₅, ha₂.trans ha₅, fun k hk => (hw₅ k hk).trans (hw₂ k hk), lag, ?_, hno⟩
      have hsch : d₆.scheduler = d₄.scheduler := hw₅ .scheduler (by decide)
      rw [hsch]
      exact hlag
    split at h
    · rw [returns_pure] at h
      obtain ⟨rfl, rfl⟩ := h
      exact .nothing row hr (hst ▸ he) _ hreap
    · rename_i hfree
      rcases returns_grantToRequest h with ⟨rfl, rfl, -⟩ | ⟨a, ha, d₇, rfl, h₇, h₈⟩
      · exact .nothing row hr (hst ▸ he) _ hreap
      · have hsame : d₆.sessions = d₄.sessions := hw₅ .sessions (by decide)
        refine .granted row hr (hst ▸ he) d₆ d₇ d' hreap a ha h₇ h₈ session ?_ hworker (by omega)
        rw [Tables.session?, hsame]
        exact hses

/-- **A candidate is granted its lease**, the last row of the leases. -/
theorem grantCandidate_sound {request : LeaseRequest} {duration : Time} {leaseId : OpaqueId} {d d' : Db} {u : Unit}
    (hs : Sound now d.toTables) {a : AssignmentRow} (ha : a ∈ leaseCandidates d.toTables now)
    (h : Returns (grantLease a leaseId request.workerId request.workerSessionId now
      (leaseExpiry now duration a.deadlineAt)) d u d') :
    (Sound now d'.toTables ∧ Advances now (fun _ => True) d.toTables d'.toTables) ∧
      d'.leases = d.leases ++ [⟨leaseId, a.assignmentId, a.attemptCount + 1, request.workerId, request.workerSessionId,
        now, leaseExpiry now duration a.deadlineAt, .active, none⟩] := by
  obtain ⟨hm, hl⟩ := leaseCandidates_leasable ha
  obtain ⟨hw, hav, -⟩ := leasable_iff hl
  exact grantLease_sound hs (Rows.get_of_mem _ d.ok.assignments.key hm) hw hav (leaseExpiry_le now duration) h

/-- **A grant of a candidate to a request**, and what it leaves of the leases. -/
theorem granted_sound {request : LeaseRequest} {duration : Time} {leaseId : OpaqueId} {d d₁ d' : Db}
    (hs : Sound now d.toTables) {a : AssignmentRow} (ha : a ∈ leaseCandidates d.toTables now)
    (h₁ : Returns (grantLease a leaseId request.workerId request.workerSessionId now
      (leaseExpiry now duration a.deadlineAt)) d () d₁)
    (h₂ : Returns (completeRequest request.requestId .leased (some leaseId) now) d₁ () d') :
    (Sound now d'.toTables ∧ Advances now (fun _ => True) d.toTables d'.toTables) ∧
      d'.leases = d.leases ++ [⟨leaseId, a.assignmentId, a.attemptCount + 1, request.workerId, request.workerSessionId,
        now, leaseExpiry now duration a.deadlineAt, .active, none⟩] := by
  obtain ⟨⟨hs₁, ha₁⟩, hl₁⟩ := grantCandidate_sound hs ha h₁
  obtain ⟨hs₂, ha₂⟩ := steady_completeRequest _ _ _ _ d₁ () d' hs₁ h₂
  have hl₂ : d'.leases = d₁.leases :=
    writes_completeRequest (S := [.requests]) _ _ _ _ (by decide) _ _ _ h₂ .leases (by decide)
  exact ⟨⟨hs₂, ha₁.trans ha₂⟩, hl₂.trans hl₁⟩

theorem steady_leaseNextBody (env : Env) (request : LeaseRequest) (duration : Time) (leaseId : OpaqueId) :
    Steady now (leaseNextBody env request duration leaseId now) := by
  intro d answer d' hs h
  cases returns_leaseNextBody hs h with
  | recorded => exact ⟨hs, .refl _⟩
  | refused => exact ⟨hs, .refl _⟩
  | nothing row hr hst _ h₁ => exact ⟨h₁.sound, h₁.advances⟩
  | granted row hr hst d₁ d₂ _ h₁ a ha h₂ h₃ =>
    obtain ⟨⟨hs', ha'⟩, _⟩ := granted_sound h₁.sound ha h₂ h₃
    exact ⟨hs', h₁.advances.trans ha'⟩

/-! ## Terminal without an envelope, and direct leases -/

/-- **An overdue assignment that waits is failed with its group recomputed.** -/
theorem terminalizeWithoutEnvelope_sound {a : AssignmentRow} {k : Outcome} (hk : k ≠ .result) {d d' : Db} {u : Unit}
    (hs : Sound now d.toTables) (ha : d.assignment? a.assignmentId = some a) (hw : a.state.waiting = true)
    (h : Returns (terminalizeWithoutEnvelope a k now) d u d') :
    Sound now d'.toTables ∧ Advances now (fun _ => True) d.toTables d'.toTables := by
  simp only [terminalizeWithoutEnvelope, returns_bind, returns_exec] at h
  obtain ⟨_, d₁, h₁, _, d₂, h₂, h₃⟩ := h
  have hx := life?_of_assignment ha
  have c₁ : Changes a.assignmentId (fun x => { x with row := markFailed x.row }) d.toTables d₁.toTables :=
    h₁ ▸ changes_setAssignment _ _ _ (fun _ => rfl)
  have c₂ := changes_insertOutcome ⟨a.assignmentId, k, none, none, now⟩ d₁.toTables
  rw [← h₂] at c₂
  have hm : Moved now a.assignmentId d.toTables d₂.toTables :=
    (c₁.trans c₂).moved hx (.single (.drop ⟨a.assignmentId, k, none, none, now⟩ hw hk))
  exact hs.recomputed hx hm (by rw [h₂, h₁]; rfl) h₃

/-- **What `create_lease` commits**: an overdue assignment failed, or a grant. -/
theorem returns_createLeaseBody {i workerId workerSessionId leaseId : OpaqueId} {duration : Time} {d d' : Db}
    {r : Option (AssignmentRow × Time)}
    (h : Returns (createLeaseBody i workerId workerSessionId leaseId duration now) d r d') :
    ∃ a, d.assignment? a.assignmentId = some a ∧ a.state.waiting = true ∧ a.availableAt ≤ now ∧
      ((r = none ∧ Returns (terminalizeWithoutEnvelope a .deadlineExceeded now) d () d') ∨
        (r = some (a, leaseExpiry now duration a.deadlineAt) ∧ (∀ x ∈ a.deadlineAt, now < x) ∧
          (∃ session, d.session? workerSessionId = some session ∧ session.workerId = workerId ∧
            (d.leases.filter fun l => decide (l.workerId = workerId) && decide (l.workerSessionId = workerSessionId) &&
              decide (l.state = .active)).length < session.capabilities.inferenceSlots) ∧
          Returns (grantLease a leaseId workerId workerSessionId now (leaseExpiry now duration a.deadlineAt)) d () d')) := by
  simp only [createLeaseBody, returns_bind, returns_raiseIf] at h
  obtain ⟨a, _, ha, _, _, ⟨_, rfl⟩, _, _, ⟨hdue, rfl⟩, session, _, hses, _, _, ⟨_, rfl⟩, h⟩ := h
  obtain ⟨ha, rfl⟩ := returns_assignment ha
  obtain ⟨hses, hworker, rfl⟩ := returns_compatibleSession hses
  have hid : a.assignmentId = i := Rows.key_of_get _ ha
  subst hid
  rw [not_or, Bool.not_eq_false, not_lt] at hdue
  refine ⟨a, ha, hdue.1, hdue.2, ?_⟩
  by_cases hdl : due a.deadlineAt now = true
  · rw [if_pos hdl] at h
    simp only [returns_bind, returns_pure] at h
    obtain ⟨_, d₁, h₁, rfl, rfl⟩ := h
    exact Or.inl ⟨rfl, h₁⟩
  · rw [if_neg hdl] at h
    simp only [returns_bind, returns_tables, returns_raiseIf, returns_pure] at h
    obtain ⟨_, _, ⟨rfl, rfl⟩, _, _, ⟨hfree, rfl⟩, _, d₁, h₁, rfl, rfl⟩ := h
    refine Or.inr ⟨rfl, fun x hx => ?_, ⟨session, hses, hworker, not_le.1 hfree⟩, h₁⟩
    rw [Option.mem_def] at hx
    simpa [due, hx] using hdl

theorem steady_createLeaseBody (i workerId workerSessionId leaseId : OpaqueId) (duration : Time) :
    Steady now (createLeaseBody i workerId workerSessionId leaseId duration now) := by
  intro d r d' hs h
  obtain ⟨a, ha, hw, hav, ⟨_, h⟩ | ⟨_, -, _, h⟩⟩ := returns_createLeaseBody h
  · exact terminalizeWithoutEnvelope_sound (by simp) hs ha hw h
  · exact (grantLease_sound hs ha hw hav (leaseExpiry_le now duration) h).1

/-! ## Renewals and delivered cancellations -/

theorem life?_of_lease {t : Tables} (hk : SchemaOk t) {l : LeaseRow} (hl : l ∈ t.leases) :
    ∃ x, t.life? l.assignmentId = some x ∧ l ∈ x.leases := by
  obtain ⟨a, ha, hid⟩ := hk.leases.assignment l hl
  have hx := life?_of_mem hk ha
  rw [hid] at hx
  exact ⟨_, hx, (mem_life_leases hx).2 ⟨hl, rfl⟩⟩

/-- **A delivered cancellation changes no row's state.** -/
theorem steady_deliverCancellation (i : OpaqueId) (t : Time) : Steady now (deliverCancellation i t) := by
  intro d u d' hs h
  simp only [deliverCancellation, returns_exec] at h
  by_cases hc : ∃ c ∈ d.leaseCancellations, c.leaseId = i
  · obtain ⟨c, hc, rfl⟩ := hc
    obtain ⟨l, hl, hla, hli⟩ := d.ok.cancellations.lease c hc
    obtain ⟨x, hx, hlx⟩ := life?_of_lease d.ok hl
    have hown : ∀ m ∈ d.leaseCancellations, m.leaseId = c.leaseId → m.assignmentId = l.assignmentId := by
      intro m hm hmi
      obtain ⟨l', hl', hla', hli'⟩ := d.ok.cancellations.lease m hm
      have he : l' = l := Rows.eq_of_key _ d.ok.leases.key hl' hl (hli'.trans (hmi.trans hli.symm))
      rw [← hla', he]
    have hch : Changes l.assignmentId (Life.deliver c.leaseId t) d.toTables d'.toTables :=
      h ▸ changes_setLeaseCancellation hown (fun _ => rfl)
    exact hs.changes hch hx (.single (.deliver _ _)) rfl (by rw [h]; rfl)
  · have he : d' = d := by
      refine Db.ext_tables (h.trans ?_)
      rw [setLeaseCancellation, Rows.set_of_not_mem _ (fun c hcm hci => hc ⟨c, hcm, hci⟩)]
    rw [he]
    exact ⟨hs, .refl _⟩

/-- **A renewal moves the expiry of one lease, not past its assignment's deadline.** -/
theorem setLease_renew_sound {l : LeaseRow} {e : Time} {sent : Option Time} {d d' : Db} (hs : Sound now d.toTables)
    (hl : l ∈ d.leases) (hlive : now < l.expiresAt) (he : l.expiresAt ≤ e) (hd : ∀ a, d.assignment? l.assignmentId = some a → ∀ x ∈ a.deadlineAt, e ≤ x)
    (h : d'.toTables = setLease l.leaseId
      (fun m => { m with expiresAt := e, lastRenewSentAt := sent.or m.lastRenewSentAt }) d.toTables) :
    Sound now d'.toTables ∧ Advances now (fun _ => True) d.toTables d'.toTables := by
  obtain ⟨x, hx, hlx⟩ := life?_of_lease d.ok hl
  have hch : Changes l.assignmentId (Life.renew l.leaseId e sent) d.toTables d'.toTables :=
    h ▸ changes_setLease (lease_owner d.ok hx ⟨l, hlx, rfl⟩) (fun _ => rfl)
  have hm : Move now x (x.renew l.leaseId e sent) := by
    refine .renew _ _ _ (fun m hm hmi => ?_)
    have hml : m = l := Rows.eq_of_key _ d.ok.leases.key ((mem_life_leases hx).1 hm).1 hl hmi
    rw [hml]
    exact ⟨hlive, he, hd x.row (life_row hx).1⟩
  exact hs.changes hch hx (.single hm) rfl (by rw [h]; rfl)

theorem renewedExpiry_bounds (now duration : Time) {l : LeaseRow} {deadline : Option Time}
    (h : ∀ d ∈ deadline, l.expiresAt ≤ d) : l.expiresAt ≤ renewedExpiry l deadline now duration ∧
      ∀ d ∈ deadline, renewedExpiry l deadline now duration ≤ d := by
  cases deadline with
  | none => exact ⟨le_max_left _ _, fun d hd => absurd hd (Option.not_mem_none _)⟩
  | some d =>
    refine ⟨le_min (le_max_left _ _) (h d rfl), fun d' hd => ?_⟩
    rw [Option.mem_some] at hd
    exact hd ▸ min_le_right _ _

/-- The expiry of a stored lease is within its assignment's deadline. -/
theorem Sound.expires_le {t : Tables} (hs : Sound now t) {l : LeaseRow} (hl : l ∈ t.leases)
    {a : AssignmentRow} (ha : t.assignment? l.assignmentId = some a) : ∀ x ∈ a.deadlineAt, l.expiresAt ≤ x := by
  have hx := life?_of_assignment ha
  exact ((hs.wf _ _ hx).timed.expires l ((mem_life_leases hx).2 ⟨hl, rfl⟩)).2

theorem steady_renewBody (r : RenewalArgs) : Steady now (renewBody r now) := by
  unfold renewBody
  refine .bind (fun d _ d' hs h => (reconcileStaleWork_sound hs h).1) fun _ => ?_
  intro d answer d' hs h
  simp only [returns_bind, returns_tables, returns_raiseIf, returns_orRaise] at h
  obtain ⟨_, _, ⟨rfl, rfl⟩, _, _, ⟨_, rfl⟩, l, _, ⟨hl, rfl⟩, _, _, ⟨hact, rfl⟩, _, _, ⟨_, rfl⟩, _, d₀, ⟨rfl, rfl⟩, h⟩ := h
  have hlm := Rows.mem_of_get _ hl
  have hlk : l.leaseId = r.leaseId := Rows.key_of_get _ hl
  split at h
  · simp only [returns_bind, returns_raiseIf, returns_pure] at h
    obtain ⟨_, _, ⟨_, rfl⟩, _, d₁, h₁, _, rfl⟩ := h
    exact steady_deliverCancellation _ _ _ _ _ hs h₁
  · simp only [returns_bind, returns_raiseIf, returns_exec, returns_pure] at h
    obtain ⟨_, _, ⟨_, rfl⟩, a, _, ha, _, _, ⟨_, rfl⟩, _, d₂, h₂, _, rfl⟩ := h
    obtain ⟨ha, rfl⟩ := returns_assignment ha
    obtain ⟨he, hd⟩ := renewedExpiry_bounds now r.duration (hs.expires_le hlm ha)
    rw [← hlk] at h₂
    rw [not_or, not_le] at hact
    refine setLease_renew_sound hs hlm hact.2 he (fun a' ha' => ?_) h₂
    rw [ha, Option.some.injEq] at ha'
    exact ha' ▸ hd

theorem lease?_setLease_of_ne {t : Tables} {i j : OpaqueId} {f : LeaseRow → LeaseRow}
    (hf : ∀ l, (f l).leaseId = l.leaseId) (hj : j ≠ i) : (setLease i f t).lease? j = t.lease? j := by
  rw [Tables.lease?, Tables.setLease, Rows.get_set _ (fun l _ _ => hf l), if_neg hj]
  rfl

/-- **One lease of a heartbeat**: its row is the one read before the loop, so a renewal renews it. -/
theorem heartbeatLease_sound {t : Tables} {duration : Time} {i : OpaqueId} {d d' : Db}
    {answer : LeaseRenewal ⊕ OpaqueId} (hs : Sound now d.toTables) (ha : d.assignments = t.assignments)
    (hl : d.lease? i = t.lease? i) (h : Returns (heartbeatLease t now duration i) d answer d') :
    (Sound now d'.toTables ∧ Advances now (fun _ => True) d.toTables d'.toTables) ∧ d'.assignments = d.assignments ∧
      ∀ j, j ≠ i → d'.lease? j = d.lease? j := by
  simp only [heartbeatLease, returns_bind] at h
  obtain ⟨_, d₁, h₁, h⟩ := h
  -- the delivery leaves the leases and the assignments as they were
  have hdel : (Sound now d₁.toTables ∧ Advances now (fun _ => True) d.toTables d₁.toTables) ∧
      d₁.assignments = d.assignments ∧ d₁.leases = d.leases := by
    unfold deliverWhen at h₁
    split at h₁
    · have hw := writes_deliverCancellation (S := [.leaseCancellations]) i now (by decide) _ _ _ h₁
      exact ⟨steady_deliverCancellation _ _ _ _ _ hs h₁, hw .assignments (by decide), hw .leases (by decide)⟩
    · rw [returns_pure] at h₁
      rw [h₁.2]
      exact ⟨⟨hs, .refl _⟩, rfl, rfl⟩
  obtain ⟨⟨hs₁, ha₁⟩, has, hls⟩ := hdel
  have hsame : ∀ j, d₁.lease? j = d.lease? j := fun j => by rw [Tables.lease?, hls]; rfl
  split at h
  · rw [returns_pure] at h
    rw [h.2]
    exact ⟨⟨hs₁, ha₁⟩, has, fun j _ => hsame j⟩
  · rename_i l a hb
    rw [Option.bind_eq_some_iff] at hb
    obtain ⟨l', hl', hb⟩ := hb
    rw [Option.map_eq_some_iff] at hb
    obtain ⟨a', ha', hb⟩ := hb
    obtain ⟨rfl, rfl⟩ := Prod.mk.inj hb
    split at h
    · rw [returns_pure] at h
      rw [h.2]
      exact ⟨⟨hs₁, ha₁⟩, has, fun j _ => hsame j⟩
    · rename_i hrenew
      simp only [not_or, not_le] at hrenew
      simp only [returns_bind, returns_exec, returns_pure] at h
      obtain ⟨_, d₂, h₂, _, rfl⟩ := h
      have hl₁ : d₁.lease? i = some l' := by rw [hsame, hl, hl']
      have hlk : l'.leaseId = i := Rows.key_of_get _ hl₁
      have ha₁' : d₁.assignment? l'.assignmentId = some a' := by
        rw [Tables.assignment?, has, ha]
        exact ha'
      obtain ⟨he, hd⟩ := renewedExpiry_bounds now duration
        (hs₁.expires_le (Rows.mem_of_get _ hl₁) ha₁')
      have hren : d'.toTables = setLease l'.leaseId (fun m => { m with
          expiresAt := renewedExpiry l' a'.deadlineAt now duration
          lastRenewSentAt := (none : Option Time).or m.lastRenewSentAt }) d₁.toTables := by
        rw [h₂, hlk]
        rfl
      obtain ⟨hs₂, ha₂⟩ := setLease_renew_sound hs₁ (Rows.mem_of_get _ hl₁) hrenew.2.2.2.1 he (fun b hb => by
        rw [ha₁', Option.some.injEq] at hb
        exact hb ▸ hd) hren
      refine ⟨⟨hs₂, ha₁.trans ha₂⟩, by rw [h₂]; exact has, fun j hj => ?_⟩
      rw [h₂, ← hsame j]
      exact lease?_setLease_of_ne (fun _ => rfl) hj

/-- **The leases of a heartbeat**, one after the other and each once. -/
theorem heartbeatLeases_sound (t : Tables) (duration : Time) : ∀ (is : List OpaqueId) (d d' : Db)
    (answer : List LeaseRenewal × List OpaqueId), is.Nodup → Sound now d.toTables → d.assignments = t.assignments →
    (∀ i ∈ is, d.lease? i = t.lease? i) → Returns (heartbeatLeases t now duration is) d answer d' →
    Sound now d'.toTables ∧ Advances now (fun _ => True) d.toTables d'.toTables
  | [], d, d', answer, _, hs, _, _, h => by
    rw [heartbeatLeases, returns_pure] at h
    rw [h.2]
    exact ⟨hs, .refl _⟩
  | i :: is, d, d', answer, hn, hs, ha, hl, h => by
    rw [heartbeatLeases] at h
    simp only [returns_bind] at h
    obtain ⟨first, d₁, h₁, rest, d₂, h₂, h₃⟩ := h
    rw [List.nodup_cons] at hn
    obtain ⟨⟨hs₁, ha₁⟩, has, hother⟩ := heartbeatLease_sound hs ha (hl i List.mem_cons_self) h₁
    obtain ⟨hs₂, ha₂⟩ := heartbeatLeases_sound t duration is d₁ d₂ rest hn.2 hs₁ (has.trans ha)
      (fun j hj => by
        rw [hother j (fun he => hn.1 (he ▸ hj))]
        exact hl j (List.mem_cons_of_mem _ hj)) h₂
    have hd : d' = d₂ := by
      split at h₃ <;> exact ((returns_pure _ _ _ _).1 h₃).2
    rw [hd]
    exact ⟨hs₂, ha₁.trans ha₂⟩

theorem steady_heartbeatBody (b : WorkerHeartbeat) (duration : Time) : Steady now (heartbeatBody b duration now) := by
  unfold heartbeatBody
  refine .bind (fun d _ d' hs h => (reconcileStaleWork_sound hs h).1) fun _ => ?_
  refine .bind (steady_readOnly (writes_compatibleSession _ _)) fun session => ?_
  refine .bind (steady_readOnly (Writes.raiseIf _ _)) fun _ => ?_
  refine .bind (steady_readOnly (writes_validatePolicyIds _)) fun _ => ?_
  intro d answer d' hs h
  simp only [returns_bind, returns_tables, returns_raiseIf, returns_pure] at h
  obtain ⟨_, d₀, ⟨rfl, rfl⟩, _, _, ⟨_, rfl⟩, answer', d₁, h₁, _, d₂, h₂, _, rfl⟩ := h
  have hn : b.activeLeaseIds.Nodup := b.active_sorted.imp (fun h => ne_of_lt h)
  obtain ⟨hs₁, ha₁⟩ := heartbeatLeases_sound _ duration _ _ _ _ hn hs rfl (fun _ _ => rfl) h₁
  obtain ⟨hs₂, ha₂⟩ := (Steady.of_writes (S := [.sessions]) (writes_setSession _ _ (by decide)) (by decide) :
    Steady now _) d₁ () d' hs₁ h₂
  exact ⟨hs₂, ha₁.trans ha₂⟩

/-! ## Releases -/

/-- **A release never commits**: the lease it deletes is still its assignment's current one, and the reference is
immediate. -/
theorem releaseLease_raises {leaseId : OpaqueId} {d : Db} {a : AssignmentRow} (ha : a ∈ d.assignments)
    (hc : a.currentLeaseId = some leaseId) (assignmentId : OpaqueId) (t : Time) :
    releaseLease leaseId assignmentId t d = .error .integrity := by
  have hno : ¬ SchemaOk (deleteLease leaseId d.toTables) := by
    intro hk
    obtain ⟨l, hl, _, hi⟩ := hk.assignments.currentLease a ha leaseId hc
    simp only [deleteLease, List.mem_filter, decide_eq_true_eq] at hl
    exact hl.2 hi
  show (do exec (deleteLease leaseId); exec _ : Body Unit) d = _
  simp only [bind, StateT.bind, exec, dif_neg hno]
  rfl

/-- **A release that returns did nothing.** -/
theorem returns_releaseUnofferedLeaseBody {leaseId : OpaqueId} {t : Time} {d d' : Db} {u : Unit}
    (h : Returns (releaseUnofferedLeaseBody leaseId t) d u d') : d' = d := by
  simp only [releaseUnofferedLeaseBody, returns_bind, returns_tables] at h
  obtain ⟨_, _, ⟨rfl, rfl⟩, h⟩ := h
  split at h
  · exact ((returns_pure _ _ _ _).1 h).2
  · split at h
    · rw [returns_bind] at h
      obtain ⟨a, d₁, ha, h⟩ := h
      obtain ⟨ha, rfl⟩ := returns_assignment ha
      split at h
      case isTrue hc =>
        rw [Returns, releaseLease_raises (Rows.mem_of_get _ ha) hc] at h
        cases h
      case isFalse => exact ((returns_pure _ _ _ _).1 h).2
    · exact ((returns_pure _ _ _ _).1 h).2

end Aether
