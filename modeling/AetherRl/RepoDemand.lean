import AetherRl.RepoAdmits
import AetherRl.RepoCreations
import AetherRl.RepoPreference
import AetherRl.RepoReplay
import AetherRl.RepoSweep
import AetherRl.RepoTiming
/-!
# RepoDemand — a call that creates a group leases from it

`lease_or_create_next_compatible` makes two attempts to lease, asks in between whether the request may generate work,
and creates a group if it may: four transactions, each at its own reading of the clock.  A first attempt that finds
nothing leaves the database swept, with every slot and every assignment it could have leased as they were.  If the clock
stands still, the second attempt has nothing to sweep, the slot the question found free, and no candidate but the
assignments of the new group.  Its grant is refused when the float sum of the clock's reading and the duration is the
reading itself.
-/
namespace Aether

open Txn
open Tables Repo
open Life (Moves Move)

variable {now later : Time} {d d' d₁ d₂ : Db} {env : Env} {q : LeaseRequest} {duration : Time} {i : OpaqueId}

/-! ## An attempt that finds nothing -/

/-- What `lease_next_compatible` asks before it looks for a candidate: a pending request, a session of its worker, known
policies and the scheduler's settings. -/
structure Asks (q : LeaseRequest) (d : Db) (session : SessionRow) (lag : Int) (preference : Time) : Prop where
  pending : ∃ row, d.request? q.requestId = some row ∧ row.state = .pending
  registered : d.session? q.workerSessionId = some session
  worker : session.workerId = q.workerId
  policies : ∀ i ∈ q.loadedPolicyIds, i ∈ d.policies.map (·.policyId)
  lag : d.scheduler.maxPolicyLag = some lag
  preference : d.scheduler.loadedPolicyPreferenceSeconds = some preference

theorem Asks.of_rows {session : SessionRow} {lag : Int} {preference : Time} (h : Asks q d session lag preference)
    (hrows : ∀ k ∈ [Table.requests, .sessions, .policies], d'.rows k = d.rows k)
    (hsch : d'.scheduler.maxPolicyLag = d.scheduler.maxPolicyLag ∧
      d'.scheduler.loadedPolicyPreferenceSeconds = d.scheduler.loadedPolicyPreferenceSeconds) :
    Asks q d' session lag preference := by
  have hr : d'.requests = d.requests := hrows .requests (by decide)
  have hs : d'.sessions = d.sessions := hrows .sessions (by decide)
  have hp : d'.policies = d.policies := hrows .policies (by decide)
  obtain ⟨row, hrow, hst⟩ := h.pending
  exact ⟨⟨row, by rw [Tables.request?, hr]; exact hrow, hst⟩, by rw [Tables.session?, hs]; exact h.registered, h.worker,
    by rw [hp]; exact h.policies, hsch.1.trans h.lag, hsch.2.trans h.preference⟩

/-- **An attempt that found nothing** for a pending request: it swept, and then had no slot or no candidate. -/
structure FoundNone (env : Env) (q : LeaseRequest) (now : Time) (d d' : Db) (session : SessionRow) (lag : Int)
    (preference : Time) : Prop where
  asks : Asks q d session lag preference
  swept : ∃ n u d₁, Returns (expireLeasesBody env now) d n d₁ ∧ Returns (cancelStaleTrainGroups lag now) d₁ u d'
  none : session.capabilities.inferenceSlots < activeCount d'.toTables q.workerId q.workerSessionId now + 1 ∨
    leaseCandidates d'.toTables now = []

theorem leaseNextBody_nothing {row : RequestRow} (hr : d.request? q.requestId = some row) (hst : row.state = .pending)
    (h : Returns (leaseNextBody env q duration i now) d .nothing d') :
    ∃ session lag preference, FoundNone env q now d d' session lag preference := by
  simp only [leaseNextBody, returns_bind, returns_tables, returns_orRaise] at h
  obtain ⟨_, _, ⟨rfl, rfl⟩, row', d₀, ⟨hr', rfl⟩, x, d₁, hx, h⟩ := h
  obtain rfl := Option.some.inj (hr.symm.trans hr')
  obtain ⟨rfl, hstate, -, -⟩ := returns_leaseRequestDisposition hx
  rw [hstate, hst] at h
  simp only [returns_bind, returns_tables, returns_orRaise, validatePolicyIds, returns_raiseIf, not_not] at h
  obtain ⟨n, d₂, h₂, session, d₃, hses, _, _, ⟨_, _, ⟨rfl, rfl⟩, hknown, rfl⟩, _, _, ⟨rfl, rfl⟩, lag, _, ⟨hlag, rfl⟩, _, _,
    ⟨rfl, rfl⟩, preference, d₄, ⟨hpref, rfl⟩, u, d₅, h₅, _, d₆, ⟨rfl, rfl⟩, h⟩ := h
  obtain ⟨hses, hworker, rfl⟩ := returns_compatibleSession hses
  have hw₂ := writes_expireLeasesBody (S := reapTables) env now (List.Subset.refl _) _ _ _ h₂
  have hsess : d₄.sessions = d₁.sessions := hw₂ .sessions (by decide)
  have hpol : d₄.policies = d₁.policies := hw₂ .policies (by decide)
  have hsch : d₄.scheduler = d₁.scheduler := hw₂ .scheduler (by decide)
  refine ⟨session, lag, preference, ⟨⟨row, hr, hst⟩, ?_, hworker, hpol ▸ hknown, hsch ▸ hlag, hsch ▸ hpref⟩, ?_, ?_⟩
  · rw [Tables.session?, ← hsess]
    exact hses
  · split at h
    · obtain ⟨-, rfl⟩ := (returns_pure _ _ _ _).1 h
      exact ⟨n, u, d₄, h₂, h₅⟩
    · rcases returns_grantToRequest h with ⟨-, rfl, -⟩ | ⟨a, -, _, hne, -⟩
      · exact ⟨n, u, d₄, h₂, h₅⟩
      · cases hne
  · split at h
    · rename_i hfull
      obtain ⟨-, rfl⟩ := (returns_pure _ _ _ _).1 h
      exact Or.inl hfull
    · rcases returns_grantToRequest h with ⟨-, rfl, hnone⟩ | ⟨a, -, _, hne, -⟩
      · exact Or.inr hnone
      · cases hne

section
variable {session : SessionRow} {lag : Int} {preference : Time}

/-- **What the sweep of a failed attempt left.** -/
theorem FoundNone.reaped (h : FoundNone env q now d d' session lag preference) (hs : Sound now d.toTables) :
    Reaped now d d' ∧ Swept now d'.toTables ∧ NoStaleWork d'.toTables lag ∧ Asks q d' session lag preference := by
  obtain ⟨n, u, d₁, h₁, h₂⟩ := h.swept
  obtain ⟨hs₁, ha₁⟩ := steady_expireLeasesBody env now _ _ _ hs h₁
  have hw₁ := writes_expireLeasesBody (S := reapTables) env now (List.Subset.refl _) _ _ _ h₁
  obtain ⟨⟨hs₂, ha₂⟩, hno⟩ := cancelStaleTrainGroups_sound hs₁ h₂
  have hw₂ := writes_cancelStaleTrainGroups (S := reapTables) lag now (List.Subset.refl _) _ _ _ h₂
  have hframe : ∀ k, k ∉ reapTables → d'.rows k = d.rows k := fun k hk => (hw₂ k hk).trans (hw₁ k hk)
  have hsch : d'.scheduler = d.scheduler := hframe .scheduler (by decide)
  have hasks : Asks q d' session lag preference :=
    h.asks.of_rows (fun k hk => hframe k (by revert k; decide)) ⟨by rw [hsch], by rw [hsch]⟩
  exact ⟨⟨hs₂, ha₁.trans ha₂, hframe, lag, hasks.lag, hno⟩, (expireLeasesBody_swept h₁).cancelStale hs₁ h₂, hno, hasks⟩

/-- **What it could have leased is still there**, unless it was stale. -/
theorem FoundNone.candidates (h : FoundNone env q now d d' session lag preference) (hs : Sound now d.toTables)
    {a : AssignmentRow} (ha : a ∈ d.assignments) (hl : leasable d.toTables now a = true)
    (hf : ¬ StaleAssignment d.toTables lag a) : a ∈ leaseCandidates d'.toTables now := by
  obtain ⟨n, u, d₁, h₁, h₂⟩ := h.swept
  exact mem_leaseCandidates.2 (leasable_swept hs h₁ h₂ ha hl hf)

/-- The slots a session's leases hold are what `activeCount` counts for its worker. -/
theorem activeCount_le_holders (t : Tables) (workerId sessionId : OpaqueId) (now : Time) :
    activeCount t workerId sessionId now ≤ (holders t now sessionId).length := by
  unfold holders activeCount
  rw [← List.countP_eq_length_filter, ← List.countP_eq_length_filter]
  apply List.countP_mono_left
  intro l _ h
  simp only [Bool.and_eq_true, decide_eq_true_eq] at h ⊢
  exact ⟨h.1.2, h.2⟩

theorem Asks.holders_le (h : Asks q d session lag preference) (now : Time) :
    (holders d.toTables now q.workerSessionId).length ≤ activeCount d.toTables q.workerId q.workerSessionId now :=
  h.worker ▸ holders_le_activeCount h.registered

/-- No more leases hold a slot, when none gained one. -/
theorem Holding.holders_le (h : Holding now [] d d') (i : OpaqueId) :
    (holders d'.toTables now i).length ≤ (holders d.toTables now i).length := by
  have hle := h.length_le i
  rwa [List.filter_nil, List.length_nil, Nat.add_zero] at hle

/-- **The sweep freed no slot that was held.** -/
theorem FoundNone.slots (h : FoundNone env q now d d' session lag preference) (hs : Sound now d.toTables) :
    activeCount d.toTables q.workerId q.workerSessionId now ≤
      activeCount d'.toTables q.workerId q.workerSessionId now := by
  obtain ⟨n, u, d₁, h₁, h₂⟩ := h.swept
  obtain ⟨-, -, -, hasks⟩ := h.reaped hs
  exact (activeCount_le_holders _ _ _ _).trans
    (((sweep_keeps_slots hs h₁ h₂).holders_le _).trans (hasks.holders_le now))

end

/-! ## The question -/

/-- **A request may generate work** when it is pending, has a free slot and nothing to lease. -/
theorem returns_leaseRequestCanGenerateBody (h : Returns (leaseRequestCanGenerateBody q now) d true d') :
    d' = d ∧ (∃ row, d.request? q.requestId = some row ∧ row.state = .pending) ∧
      ∃ session, d.session? q.workerSessionId = some session ∧
      activeCount d.toTables q.workerId q.workerSessionId now < session.capabilities.inferenceSlots ∧
      leaseCandidates d.toTables now = [] := by
  simp only [leaseRequestCanGenerateBody, returns_bind, returns_tables] at h
  obtain ⟨_, _, ⟨rfl, rfl⟩, h⟩ := h
  split at h
  · rename_i row session hrow hsession
    rw [returns_pure] at h
    obtain ⟨hc, rfl⟩ := h
    have hc := hc.symm
    simp only [Bool.and_eq_true, decide_eq_true_eq, List.isEmpty_iff] at hc
    exact ⟨rfl, ⟨row, hrow, hc.1.1.1⟩, session, hsession, hc.1.2, hc.2⟩
  · rw [returns_pure] at h
    cases h.1

/-! ## The new group -/

/-- A group made at `now` of the active policy: its assignments are available at once, and their deadlines lie ahead. -/
structure Makes (now : Time) (d d' : Db) (g : GroupRow) (rows : List AssignmentRow) : Prop where
  created : Created d.toTables d'.toTables g rows
  asked : ∀ k ∈ [Table.requests, .sessions, .policies, .run], d'.rows k = d.rows k
  settings : d'.scheduler.maxPolicyLag = d.scheduler.maxPolicyLag ∧
    d'.scheduler.loadedPolicyPreferenceSeconds = d.scheduler.loadedPolicyPreferenceSeconds
  active : ∃ p, d.activePolicy? = some p ∧ g.policyId = p.policyId ∧ ∀ a ∈ rows, a.policyId = p.policyId
  available : ∀ a ∈ rows, a.availableAt = now
  deadlines : ∀ a ∈ rows, ∀ x ∈ a.deadlineAt, now < x
  nonempty : rows ≠ []

/-- **`create_next_group` makes a new group**, whenever it makes one. -/
theorem createNext_makes {kind : Option Kind} {ids : Nat → OpaqueId} {artifacts : Artifacts} {r : CreatedGroup}
    (hl : d.Logged) (h : Returns (createNextGroupBody env kind ids artifacts now) d (some r) d') :
    ∃ g rows, Makes now d d' g rows := by
  have hw := writes_createNextGroupBody (S := .sources :: .scheduler :: groupTables) env kind ids artifacts now (by decide)
    (by decide) (by decide) _ _ _ h
  cases returns_createNextGroupBody h with
  | existing source hs g hg =>
    rw [hl.find_none d.ok.sources.key (mem_of_served hs)] at hg
    cases hg
  | made source hs hg active ha hid hd task htask r _ h =>
    obtain ⟨⟨as, has, hcr⟩, hsch, -⟩ := returns_newGroup h
    refine ⟨_, _, hcr, fun k hk => hw k (by revert k; decide), by rw [hsch]; exact ⟨rfl, rfl⟩,
      ⟨active, ha, hid, fun b hb => ?_⟩, fun b hb => ?_, fun b hb x hx => ?_, fun hnil => ?_⟩
    · obtain ⟨a, ham, rfl⟩ := List.mem_map.1 hb
      exact (congrArg PolicyManifest.policyId (has a ham).1).trans hid
    · obtain ⟨a, ham, rfl⟩ := List.mem_map.1 hb
      exact (has a ham).2.1
    · obtain ⟨a, ham, rfl⟩ := List.mem_map.1 hb
      have hdl : a.deadlineAt = source.assignmentTimeoutSeconds.map (now + ·) := (has a ham).2.2
      have hx : x ∈ source.assignmentTimeoutSeconds.map (now + ·) := hdl ▸ hx
      obtain ⟨timeout, ht, rfl⟩ := Option.mem_map.1 hx
      exact lt_add_of_pos_right now (d.ok.sources.timeout source (mem_of_served hs) timeout ht)
    · obtain ⟨b, hb, -⟩ := (hcr.indices 0).1 (d.ok.sources.groupSize source (mem_of_served hs))
      rw [hnil] at hb
      cases hb

section
variable {g : GroupRow} {rows : List AssignmentRow} (h : Makes now d d' g rows)
include h

theorem Makes.activePolicy : d'.activePolicy? = d.activePolicy? := by
  have hrun : d'.run = d.run := h.asked .run (by decide)
  have hpol : d'.policies = d.policies := h.asked .policies (by decide)
  rw [Tables.activePolicy?, Tables.activePolicy?, hrun]
  congr 1
  funext r
  rw [Tables.policy?, Tables.policy?, hpol]

/-- **Work of the active policy is not stale.** -/
theorem Makes.not_stale {lag : Int} (hlag : 0 ≤ lag) {i : OpaqueId} {p : PolicyRow} (hp : d.activePolicy? = some p)
    (hi : i = p.policyId) : ¬ ∃ active ∈ d'.activePolicy?, ∃ p ∈ d'.policy? i,
      lag < (active.policyVersion : Int) - p.policyVersion := by
  rintro ⟨active, hact, p', hp', hlt⟩
  have hpol : d'.policies = d.policies := h.asked .policies (by decide)
  rw [h.activePolicy, hp, Option.mem_some] at hact
  subst hact
  have hmem : p ∈ d.policies := by
    obtain ⟨r, -, hr⟩ := Option.bind_eq_some_iff.1 hp
    exact Rows.mem_of_get _ hr
  rw [Tables.policy?, hpol, hi, Rows.get_of_mem _ d.ok.policies.key hmem, Option.mem_some] at hp'
  subst hp'
  omega

theorem Makes.noStaleWork {lag : Int} (hlag : 0 ≤ lag) (hno : NoStaleWork d.toTables lag) :
    NoStaleWork d'.toTables lag := by
  intro r hr hstale i x hx hxr
  obtain ⟨hkind, hpolicies⟩ := hstale
  rw [h.created.groups, List.mem_append, List.mem_singleton] at hr
  obtain ⟨p, hp, hg, -⟩ := h.active
  rcases hr with hr | rfl
  · rcases h.created.cases hx with hx | ⟨a, ha, -, rfl⟩
    · refine hno r hr ⟨hkind, ?_⟩ i x hx hxr
      have hpol : d'.policies = d.policies := h.asked .policies (by decide)
      obtain ⟨active, hact, p', hp', hlt⟩ := hpolicies
      rw [Tables.policy?, hpol] at hp'
      exact ⟨active, h.activePolicy ▸ hact, p', hp', hlt⟩
    · exact absurd (hxr.symm.trans (h.created.newborn a ha).2) (h.created.group_ne hr)
  · exact absurd hpolicies (h.not_stale hlag hp hg)

theorem Makes.fresh {lag : Int} (hlag : 0 ≤ lag) {a : AssignmentRow} (ha : a ∈ rows) :
    ¬ StaleAssignment d'.toTables lag a := by
  obtain ⟨p, hp, -, hrows⟩ := h.active
  exact fun hst => h.not_stale hlag hp (hrows a ha) hst.2

/-- **A new assignment may be leased until its deadline.** -/
theorem Makes.leasable {later : Time} (hn : now ≤ later) {a : AssignmentRow} (ha : a ∈ rows)
    (hdl : due a.deadlineAt later = false) : a ∈ d'.assignments ∧ leasable d'.toTables later a = true := by
  have hm : a ∈ d'.assignments := by
    rw [h.created.assignments]
    exact List.mem_append_right _ ha
  refine ⟨hm, ?_⟩
  have hcan : d'.cancellation? a.assignmentId = none := by
    have hx := h.created.born ha
    rw [Tables.cancellation?, Rows.get_eq_none]
    intro c hc hid
    exact absurd ((mem_life_cancellations hx).2 ⟨hc, hid⟩) List.not_mem_nil
  have hstate : a.state = .pending := (h.created.newborn a ha).1.state
  simp only [Repo.leasable, hcan, hstate, AssignmentState.waiting, h.available a ha, hn,
    decide_true, Bool.and_true, Bool.true_and, Option.isNone_none, Option.all_eq_true, decide_eq_true_eq]
  exact not_due.1 hdl

/-- **Where nothing could be leased, only the new assignments can.** -/
theorem Makes.candidate {later : Time} (hnone : leaseCandidates d.toTables later = []) {a : AssignmentRow}
    (ha : a ∈ leaseCandidates d'.toTables later) : a ∈ rows := by
  obtain ⟨hm, hl⟩ := mem_leaseCandidates.1 ha
  rw [h.created.assignments, List.mem_append] at hm
  refine hm.resolve_left fun hm => ?_
  have hcan : d'.cancellations = d.cancellations := h.created.others .cancellations (by decide) (by decide)
  have hl' : Repo.leasable d.toTables later a = true := by
    rw [Repo.leasable, Tables.cancellation?, ← hcan]
    exact hl
  have hmem := mem_leaseCandidates.2 ⟨hm, hl'⟩
  rw [hnone] at hmem
  cases hmem

end

/-! ## The grant -/

/-- The attempts of an assignment are numbered up to its count. -/
theorem attempt_le (hs : Sound now d.toTables) {a : AssignmentRow} (ha : a ∈ d.assignments) {l : LeaseRow}
    (hl : l ∈ d.leases) (hla : l.assignmentId = a.assignmentId) : l.attempt ≤ a.attemptCount := by
  have hx := life?_of_mem d.ok ha
  have hnum := (hs.wf _ _ hx).numbered.attempts
  have hmem : l.attempt ∈ (d.lifeOf a).leases.map (·.attempt) :=
    List.mem_map_of_mem ((mem_life_leases hx).2 ⟨hl, hla⟩)
  rw [hnum, List.mem_range'_1] at hmem
  have hrow : (d.lifeOf a).row = a := rfl
  rw [hrow] at hmem
  omega

/-- The lease `lease_next_compatible` grants. -/
def grantedLease (q : LeaseRequest) (duration : Time) (i : OpaqueId) (now : Time) (a : AssignmentRow) : LeaseRow :=
  ⟨i, a.assignmentId, a.attemptCount + 1, q.workerId, q.workerSessionId, now, leaseExpiry now duration a.deadlineAt,
    .active, none⟩

/-- **What a grant leaves**: the request answered by the lease, and the assignment leased under it. -/
structure GrantedTo (q : LeaseRequest) (i : OpaqueId) (a : AssignmentRow) (d d' : Db) : Prop where
  request : ∃ row, d'.request? q.requestId = some row ∧ row.state = .leased ∧ row.leaseId = some i
  assignment : ∃ b ∈ d'.assignments, b.assignmentId = a.assignmentId ∧ b.groupId = a.groupId ∧ b.state = .leased ∧
    b.currentLeaseId = some i ∧ b.assignment = a.assignment
  groups : d'.groups = d.groups

/-- **A waiting assignment is granted to a pending request** under a free id: every statement of the grant is admitted. -/
theorem grant_returns (hs : Sound now d.toTables) (hag : Aged now d.toTables) {row : RequestRow}
    (hr : d.request? q.requestId = some row) (hst : row.state = .pending) {session : SessionRow}
    (hses : d.session? q.workerSessionId = some session) (hworker : session.workerId = q.workerId)
    (hid : i ∉ d.leases.map (·.leaseId)) (hsum : now < Binary64.add now duration) {a : AssignmentRow}
    (ha : a ∈ d.assignments) (hl : leasable d.toTables now a = true) :
    ∃ d₁ d', Returns (grantLease a i q.workerId q.workerSessionId now (leaseExpiry now duration a.deadlineAt)) d () d₁ ∧
      Returns (completeRequest q.requestId .leased (some i) now) d₁ () d' ∧ GrantedTo q i a d d' := by
  obtain ⟨-, -, hdl⟩ := leasable_iff hl
  have hrow : row ∈ d.requests := Rows.mem_of_get _ hr
  have hkey : row.requestId = q.requestId := Rows.key_of_get _ hr
  have h₁ : SchemaOk (insertLease (grantedLease q duration i now a) d.toTables) := by
    refine schema_insertLease d.ok hid (fun m hm hma => ?_) ⟨a, ha, rfl⟩
      ⟨session, Rows.mem_of_get _ hses, hworker, Rows.key_of_get _ hses⟩ (Nat.succ_pos _) ((lt_leaseExpiry_iff hdl).2 hsum)
    have hle := attempt_le hs ha hm hma
    exact (Nat.lt_succ_of_le hle).ne
  have h₂ : SchemaOk (setAssignment a.assignmentId (fun b =>
      { b with state := .leased, attemptCount := a.attemptCount + 1, currentLeaseId := some i })
      (insertLease (grantedLease q duration i now a) d.toTables)) := by
    refine schema_setAssignment h₁ (fun _ => rfl) fun b hb hba k hk => ?_
    obtain rfl := Option.some.inj hk
    exact ⟨_, List.mem_append_right _ (List.mem_singleton_self _), rfl, rfl⟩
  obtain ⟨d₁, hd₁⟩ : ∃ d₁ : Db, d₁.toTables = setAssignment a.assignmentId (fun b =>
      { b with state := .leased, attemptCount := a.attemptCount + 1, currentLeaseId := some i })
      (insertLease (grantedLease q duration i now a) d.toTables) := ⟨⟨_, h₂⟩, rfl⟩
  have hreq : d₁.requests = d.requests := by rw [hd₁]; rfl
  have hleases : d₁.leases = d.leases ++ [grantedLease q duration i now a] := by rw [hd₁]; rfl
  -- the one row the update reaches is the pending one
  have honly : ∀ r ∈ d₁.requests, r.requestId = q.requestId → r = row := fun r hrm hrk =>
    Rows.eq_of_key _ d.ok.requests.key (hreq ▸ hrm) hrow (hrk.trans hkey.symm)
  have h₃ : SchemaOk (setRequest q.requestId (fun r => if r.state = .pending then
      { r with state := .leased, leaseId := some i, completedAt := some now } else r) d₁.toTables) := by
    refine schema_setRequest d₁.ok (fun r => by split <;> exact ⟨rfl, rfl, rfl⟩) (fun r hrm hrk k hk => ?_)
      fun r hrm hrk => ?_
    · rw [honly r hrm hrk, if_pos hst] at hk
      obtain rfl := Option.some.inj hk
      refine ⟨⟨_, hleases ▸ List.mem_append_right _ (List.mem_singleton_self _), rfl⟩, fun hmem => hid ?_⟩
      obtain ⟨r', hr', hk'⟩ := List.mem_filterMap.1 hmem
      obtain ⟨l, hl, hli⟩ := d.ok.requests.lease r' (hreq ▸ hr') _ hk'
      exact List.mem_map.2 ⟨l, hl, hli⟩
    · rw [honly r hrm hrk, if_pos hst]
      refine ⟨fun c hc => ?_, Or.inr (Or.inr ⟨rfl, by simp, by simp⟩)⟩
      obtain rfl := Option.some.inj hc
      exact hag row hrow
  obtain ⟨d', hd'⟩ : ∃ d' : Db, d'.toTables = setRequest q.requestId (fun r => if r.state = .pending then
      { r with state := .leased, leaseId := some i, completedAt := some now } else r) d₁.toTables := ⟨⟨_, h₃⟩, rfl⟩
  refine ⟨d₁, d', ?_, ?_, ⟨{ row with state := .leased, leaseId := some i, completedAt := some now }, ?_, rfl, rfl⟩,
    ⟨{ a with state := .leased, attemptCount := a.attemptCount + 1, currentLeaseId := some i }, ?_, rfl, rfl, rfl, rfl,
      rfl⟩, ?_⟩
  · simp only [grantLease, returns_bind, returns_exec]
    exact ⟨(), ⟨_, h₁⟩, rfl, hd₁⟩
  · rw [completeRequest, returns_exec]
    exact hd'
  · refine (Rows.get_eq_some _ d'.ok.requests.key).2 ⟨?_, hkey⟩
    rw [hd', setRequest_requests, Rows.mem_set]
    exact Or.inl ⟨row, hreq ▸ hrow, hkey, by rw [if_pos hst]⟩
  · rw [hd', setRequest_assignments, hd₁, setAssignment_assignments, Rows.mem_set]
    exact Or.inl ⟨a, ha, rfl, rfl⟩
  · rw [hd', setRequest_groups, hd₁]
    rfl

/-- **A second attempt grants** what it finds, in a database that has nothing to sweep. -/
theorem leaseNextBody_grants (env : Env) (hs : Sound now d.toTables) (hag : Aged now d.toTables) (hsw : Swept now d.toTables)
    {session : SessionRow} {lag : Int} {preference : Time} (hasks : Asks q d session lag preference)
    (hno : NoStaleWork d.toTables lag) {active : PolicyRow} (hact : d.activePolicy? = some active)
    (hfree : activeCount d.toTables q.workerId q.workerSessionId now < session.capabilities.inferenceSlots)
    (hne : leaseCandidates d.toTables now ≠ []) (hid : i ∉ d.leases.map (·.leaseId))
    (hsum : now < Binary64.add now duration) :
    ∃ a ∈ leaseCandidates d.toTables now, ∃ d',
      Returns (leaseNextBody env q duration i now) d (.granted a (leaseExpiry now duration a.deadlineAt)) d' ∧
        GrantedTo q i a d d' := by
  obtain ⟨row, hr, hst⟩ := hasks.pending
  obtain ⟨oldest, rest, hcs⟩ := List.exists_cons_of_ne_nil hne
  have hhead : (leaseCandidates d.toTables now).head? = some oldest := by rw [hcs, List.head?_cons]
  obtain ⟨c, hchosen⟩ : ∃ c, chooseCandidate (leaseCandidates d.toTables now) oldest q.loadedPolicyIds preference now = c :=
    ⟨_, rfl⟩
  have hmem : c ∈ leaseCandidates d.toTables now :=
    hchosen ▸ chooseCandidate_mem (List.mem_of_mem_head? hhead) q.loadedPolicyIds preference
  obtain ⟨hm, hl⟩ := mem_leaseCandidates.1 hmem
  obtain ⟨d₁, d', h₁, h₂, hg⟩ := grant_returns hs hag hr hst hasks.registered hasks.worker hid hsum hm hl
  refine ⟨c, hmem, d', ?_, hg⟩
  have hdisp : Returns (leaseRequestDisposition row) d ⟨.pending, none⟩ d := by
    rw [leaseRequestDisposition, hst, returns_pure]
    exact ⟨rfl, rfl⟩
  have hses : Returns (compatibleSession q.workerId q.workerSessionId) d session d := by
    simp only [compatibleSession, returns_bind, returns_tables, returns_orRaise, returns_raiseIf, returns_pure]
    exact ⟨_, _, ⟨rfl, rfl⟩, session, _, ⟨hasks.registered, rfl⟩, (), _, ⟨not_not.2 hasks.worker, rfl⟩, rfl, rfl⟩
  have hval : Returns (validatePolicyIds q.loadedPolicyIds) d () d := by
    simp only [validatePolicyIds, returns_bind, returns_tables, returns_raiseIf]
    exact ⟨_, _, ⟨rfl, rfl⟩, not_not.2 hasks.policies, rfl⟩
  have hgrant : Returns (grantToRequest q duration i preference now) d
      (.granted c (leaseExpiry now duration c.deadlineAt)) d' := by
    simp only [grantToRequest, returns_bind, returns_tables]
    refine ⟨_, _, ⟨rfl, rfl⟩, ?_⟩
    rw [hhead]
    simp only [hchosen, returns_bind, returns_pure]
    exact ⟨(), d₁, h₁, (), d', h₂, trivial, rfl⟩
  simp only [leaseNextBody, returns_bind, returns_tables, returns_orRaise]
  refine ⟨_, _, ⟨rfl, rfl⟩, row, d, ⟨hr, rfl⟩, _, d, hdisp, ?_⟩
  simp only [returns_bind, returns_tables, returns_orRaise]
  refine ⟨0, d, expireLeasesBody_idle env hsw hs, session, d, hses, (), d, hval, _, _, ⟨rfl, rfl⟩, lag, d, ⟨hasks.lag, rfl⟩,
    _, _, ⟨rfl, rfl⟩, preference, d, ⟨hasks.preference, rfl⟩, (), d, cancelStaleTrainGroups_idle hs hno hact, _, _,
    ⟨rfl, rfl⟩, ?_⟩
  rw [if_neg (by omega)]
  exact hgrant

/-- **A grant that returns has moved the expiry ahead.** -/
theorem leaseNextBody_expires (hs : Sound now d.toTables) {a : AssignmentRow} {expiresAt : Time}
    (h : Returns (leaseNextBody env q duration i now) d (.granted a expiresAt) d') : now < Binary64.add now duration := by
  cases returns_leaseNextBody hs h with
  | granted row hr hst d₁ d₂ _ h₁ a ha h₂ =>
    obtain ⟨-, -, hdl⟩ := leasable_iff (leaseCandidates_leasable ha).2
    exact (lt_leaseExpiry_iff hdl).1 (grantLease_expires h₂)

/-! ## The second attempt -/

/-- The request is answered by a lease of an assignment of the group. -/
def LeasedFrom (q : LeaseRequest) (groupId : OpaqueId) (lease : AssignmentLease) (d : Db) : Prop :=
  (∃ row, d.request? q.requestId = some row ∧ row.state = .leased ∧ row.leaseId = some lease.leaseId) ∧
  ∃ a ∈ d.assignments, a.groupId = groupId ∧ a.state = .leased ∧ a.currentLeaseId = some lease.leaseId ∧
    a.assignment = lease.assignment

/-- Every assignment of the group is past its deadline. -/
def AllDue (now : Time) (groupId : OpaqueId) (d : Db) : Prop :=
  ∀ a ∈ d.assignments, a.groupId = groupId → due a.deadlineAt now = true

/-- Where a call stands that has created a group: what its first attempt left, what the question found there, and the
group made since. -/
structure Creating (env : Env) (q : LeaseRequest) (t₀ t₁ t₂ : Time) (d₀ d₁ d₂ : Db) (g : GroupRow)
    (rows : List AssignmentRow) : Prop where
  ordered : t₀ ≤ t₁ ∧ t₁ ≤ t₂
  sound : Sound t₀ d₀.toTables
  found : ∃ session lag preference, FoundNone env q t₀ d₀ d₁ session lag preference ∧
    activeCount d₁.toTables q.workerId q.workerSessionId t₁ < session.capabilities.inferenceSlots
  none : leaseCandidates d₁.toTables t₁ = []
  made : Makes t₂ d₁ d₂ g rows

section
variable {t₀ t₁ t₂ : Time} {d₀ : Db} {g : GroupRow} {rows : List AssignmentRow}
  (h : Creating env q t₀ t₁ t₂ d₀ d₁ d₂ g rows)
include h

theorem Creating.sound_made (hn : t₂ ≤ later) : Sound later d₂.toTables := by
  obtain ⟨session, lag, preference, hfound, -⟩ := h.found
  exact h.made.created.sound ((hfound.reaped h.sound).1.sound.mono ((h.ordered.1.trans h.ordered.2).trans hn))

theorem Creating.asks_made {session : SessionRow} {lag : Int} {preference : Time}
    (hfound : FoundNone env q t₀ d₀ d₁ session lag preference) : Asks q d₂ session lag preference := by
  obtain ⟨-, -, -, hasks⟩ := hfound.reaped h.sound
  exact hasks.of_rows (fun k hk => h.made.asked k (by revert k; decide)) h.made.settings

/-- **The slot the question found is still free.** -/
theorem Creating.slots_made {session : SessionRow} {lag : Int} {preference : Time}
    (hfound : FoundNone env q t₀ d₀ d₁ session lag preference) (hn : t₁ ≤ later) :
    (holders d₂.toTables later q.workerSessionId).length ≤ activeCount d₁.toTables q.workerId q.workerSessionId t₁ := by
  obtain ⟨-, -, -, hasks⟩ := hfound.reaped h.sound
  exact ((holders_mono _ hn _).trans (h.made.created.holding.holders_le _)).trans (hasks.holders_le _)

theorem Creating.leaseIds : d₂.leases.map (·.leaseId) = d₀.leases.map (·.leaseId) := by
  obtain ⟨session, lag, preference, hfound, -⟩ := h.found
  obtain ⟨hreap, -⟩ := hfound.reaped h.sound
  have hfixed : d₁.leases.map LeaseRow.fixed = d₀.leases.map LeaseRow.fixed := hreap.frame .fixedLeases (by decide)
  have hl : d₂.leases = d₁.leases := h.made.created.others .leases (by decide) (by decide)
  rw [hl]
  exact Rows.map_of_fixed (g := (·.leaseId)) hfixed fun _ => rfl

/-- **If the clock stands still, the second attempt grants an assignment of the new group.** -/
theorem Creating.grants (hstill : t₂ = t₀) (hag : Aged t₀ d₀.toTables) (hid : i ∉ d₀.leases.map (·.leaseId))
    (hsum : t₀ < Binary64.add t₀ duration) : ∃ a ∈ rows, ∃ d₃, a ∈ leaseCandidates d₂.toTables t₀ ∧
      Returns (leaseNextBody env q duration i t₀) d₂ (.granted a (leaseExpiry t₀ duration a.deadlineAt)) d₃ ∧
      GrantedTo q i a d₂ d₃ := by
  obtain ⟨session, lag, preference, hfound, hfree⟩ := h.found
  obtain ⟨hreap, hswept, hno, hasks⟩ := hfound.reaped h.sound
  have ht₁ : t₁ = t₀ := le_antisymm (h.ordered.2.trans hstill.le) h.ordered.1
  have hlag : 0 ≤ lag := d₁.ok.scheduler.lag lag hasks.lag
  have hnotDue : ∀ a ∈ rows, due a.deadlineAt t₀ = false := fun a ha =>
    not_due.2 fun x hx => hstill ▸ h.made.deadlines a ha x hx
  have hne : leaseCandidates d₂.toTables t₀ ≠ [] := by
    obtain ⟨a, ha⟩ := List.exists_mem_of_ne_nil _ h.made.nonempty
    exact List.ne_nil_of_mem (mem_leaseCandidates.2 (h.made.leasable hstill.le ha (hnotDue a ha)))
  have hactive : ∃ active, d₂.activePolicy? = some active := by
    obtain ⟨p, hp, -⟩ := h.made.active
    exact ⟨p, h.made.activePolicy.trans hp⟩
  obtain ⟨active, hactive⟩ := hactive
  have hreq : d₂.requests = d₀.requests :=
    (h.made.asked .requests (by decide)).trans (hreap.frame .requests (by decide))
  have hslots : activeCount d₂.toTables q.workerId q.workerSessionId t₀ < session.capabilities.inferenceSlots :=
    (activeCount_le_holders _ _ _ _).trans_lt ((h.slots_made hfound ht₁.le).trans_lt hfree)
  obtain ⟨a, ha, d₃, hbody, hg⟩ := leaseNextBody_grants env (h.sound_made hstill.le)
    (fun r hr => hag r (hreq ▸ hr)) (hswept.created h.made.created hnotDue) (h.asks_made hfound)
    (h.made.noStaleWork hlag hno) hactive hslots hne (h.leaseIds ▸ hid) hsum
  exact ⟨a, h.made.candidate (ht₁ ▸ h.none) ha, d₃, ha, hbody, hg⟩

/-- **A second attempt that finds nothing finds every new assignment past its deadline.** -/
theorem Creating.all_due (hn : t₂ ≤ later) {d₃ : Db} (hbody : Returns (leaseNextBody env q duration i later) d₂ .nothing d₃) :
    AllDue later g.groupId d₃ := by
  obtain ⟨session, lag, preference, hfound, hfree⟩ := h.found
  have hs := h.sound_made hn
  obtain ⟨row, hr, hst⟩ := (h.asks_made hfound).pending
  obtain ⟨session', lag', preference', hfound'⟩ := leaseNextBody_nothing hr hst hbody
  have hsession : session' = session := Option.some.inj (hfound'.asks.registered.symm.trans (h.asks_made hfound).registered)
  subst hsession
  obtain ⟨hreap, -, -, hasks⟩ := hfound'.reaped hs
  have hlag : 0 ≤ lag' := d₂.ok.scheduler.lag lag' hfound'.asks.lag
  have hnone : leaseCandidates d₃.toTables later = [] := by
    refine hfound'.none.resolve_left fun hfull => ?_
    have hheld := (activeCount_le_holders d₃.toTables q.workerId q.workerSessionId later).trans
      ((hreap.holding hs).holders_le _)
    have hslots := h.slots_made hfound (h.ordered.2.trans hn)
    omega
  have hrows : ∀ a ∈ rows, due a.deadlineAt later = true := by
    intro a ha
    rw [← Bool.not_eq_false]
    intro hdl
    obtain ⟨hm, hl⟩ := h.made.leasable hn ha hdl
    have hmem := hfound'.candidates hs hm hl (h.made.fresh hlag ha)
    rw [hnone] at hmem
    cases hmem
  have hfixed : d₃.assignments.map AssignmentRow.fixed = d₂.assignments.map AssignmentRow.fixed :=
    hreap.frame .fixedAssignments (by decide)
  intro a ha hag
  obtain ⟨b, hb, hba⟩ := before_of_fixed hfixed (Rows.get_of_mem _ d₃.ok.assignments.key ha)
  rw [due_of_fixed hba]
  have hbg : b.groupId = g.groupId := (congrArg (·.groupId) hba).trans hag
  have hbm := Rows.mem_of_get _ hb
  rw [h.made.created.assignments, List.mem_append] at hbm
  rcases hbm with hbm | hbm
  · exact absurd hbg (h.made.created.group_of_old (life?_of_mem d₁.ok hbm))
  · exact hrows b hbm

end

/-! ## The call -/

/-- The groups a call added. -/
def newGroups (d d' : Db) : List GroupRow :=
  d'.groups.filter fun g => decide (g.groupId ∉ d.groups.map (·.groupId))

/-- The four readings a creating call takes of the clock are the same. -/
def StandsStill (env : Env) (w : World) : Prop := env.clock (w.reads + 3) = env.clock w.reads

/-- The float sum of the last of these readings and the duration is ahead of the reading. -/
def Outlasts (env : Env) (duration : Time) (w : World) : Prop :=
  env.clock (w.reads + 3) < Binary64.add (env.clock (w.reads + 3)) duration

/-- **Why a call creates a group**: the request was pending, and, if the clock stands still, its session had a free slot
and no assignment could be leased to it. -/
structure Demanded (env : Env) (q : LeaseRequest) (w : World) : Prop where
  pending : ∃ row, w.db.request? q.requestId = some row ∧ row.state = .pending
  slot : StandsStill env w → ∃ session, w.db.session? q.workerSessionId = some session ∧ session.workerId = q.workerId ∧
    activeCount w.db.toTables q.workerId q.workerSessionId (env.clock w.reads) < session.capabilities.inferenceSlots
  nothing : StandsStill env w → ∀ a ∈ w.db.assignments, leasable w.db.toTables (env.clock w.reads) a = true →
    ∃ lag ∈ w.db.scheduler.maxPolicyLag, StaleAssignment w.db.toTables lag a

/-- What a call that ends with `r` in `d` has to do with the groups it added. -/
def OnDemand (env : Env) (q : LeaseRequest) (duration : Time) (leaseId : OpaqueId) (w : World)
    (r : Except Error (Option AssignmentLease)) (d : Db) : Prop :=
  (newGroups w.db d).length ≤ 1 ∧ ∀ g ∈ newGroups w.db d, Demanded env q w ∧
    (StandsStill env w → leaseId ∉ w.db.leases.map (·.leaseId) → r = .error .crash ∨
      ((∃ lease, r = .ok (some lease) ∧ LeasedFrom q g.groupId lease d) ↔ Outlasts env duration w)) ∧
    ∀ answer, r = .ok answer →
      answer.isSome = true ∧ Outlasts env duration w ∨ AllDue (env.clock (w.reads + 3)) g.groupId d

theorem newGroups_same (h : d'.groups.map GroupRow.fixed = d.groups.map GroupRow.fixed) : newGroups d d' = [] := by
  rw [newGroups, List.filter_eq_nil_iff]
  intro g hg hnew
  obtain ⟨g₀, hg₀, he⟩ := Life.mem_of_map_eq h hg
  have hid : g₀.groupId = g.groupId := congrArg (·.groupId) he
  exact of_decide_eq_true hnew (List.mem_map.2 ⟨g₀, hg₀, hid⟩)

/-- The groups added are the one created, whatever became of its state. -/
theorem newGroups_added {g : GroupRow} (hg : ∀ r ∈ d.groups, r.groupId ≠ g.groupId)
    (h : d'.groups.map GroupRow.fixed = d.groups.map GroupRow.fixed ++ [g.fixed]) :
    (newGroups d d').length ≤ 1 ∧ ∀ r ∈ newGroups d d', r.groupId = g.groupId := by
  have hids : d'.groups.map (·.groupId) = d.groups.map (·.groupId) ++ [g.groupId] := by
    have he := congrArg (List.map GroupRow.groupId) h
    rwa [List.map_append, List.map_map, List.map_map] at he
  have hfresh : g.groupId ∉ d.groups.map (·.groupId) := by
    intro hmem
    obtain ⟨r, hr, hid⟩ := List.mem_map.1 hmem
    exact hg r hr hid
  have hnew : (newGroups d d').map (·.groupId) = [g.groupId] := by
    have hfilter : (newGroups d d').map (·.groupId) =
        (d'.groups.map (·.groupId)).filter fun i => decide (i ∉ d.groups.map (·.groupId)) := by
      rw [newGroups, List.filter_map]
      rfl
    rw [hfilter, hids, List.filter_append, List.filter_eq_nil_iff.2 fun i hi => by simpa using hi, List.nil_append,
      List.filter_singleton, decide_eq_true hfresh]
    rfl
  refine ⟨?_, fun r hr => ?_⟩
  · rw [← List.length_map (f := (·.groupId)), hnew]
    exact le_rfl
  · have hmem := List.mem_map_of_mem (f := (·.groupId)) hr
    rw [hnew] at hmem
    exact List.mem_singleton.1 hmem

theorem OnDemand.of_same {w : World} {r : Except Error (Option AssignmentLease)}
    (h : d.groups.map GroupRow.fixed = w.db.groups.map GroupRow.fixed) : OnDemand env q duration i w r d := by
  rw [OnDemand, newGroups_same h]
  exact ⟨Nat.zero_le _, fun g hg => by cases hg⟩

/-- The groups are those there were and the new one, in every state from its creation on. -/
theorem Creating.newGroups {g : GroupRow} {rows : List AssignmentRow} {t₀ t₁ t₂ : Time} {d₀ : Db}
    (h : Creating env q t₀ t₁ t₂ d₀ d₁ d₂ g rows) (d₃ : Db)
    (hsame : d₃.groups.map GroupRow.fixed = d₂.groups.map GroupRow.fixed) :
    (newGroups d₀ d₃).length ≤ 1 ∧ ∀ r ∈ Aether.newGroups d₀ d₃, r.groupId = g.groupId := by
  obtain ⟨session, lag, preference, hfound, -⟩ := h.found
  have hfixed : d₁.groups.map GroupRow.fixed = d₀.groups.map GroupRow.fixed :=
    (hfound.reaped h.sound).1.frame .fixedGroups (by decide)
  refine newGroups_added (fun r hr => ?_) ?_
  · obtain ⟨r₁, hr₁, he⟩ := List.mem_map.1 (hfixed ▸ List.mem_map_of_mem hr)
    have hid : r₁.groupId = r.groupId := congrArg (·.groupId) he
    exact hid ▸ h.made.created.group_ne hr₁
  · rw [hsame, h.made.created.groups, List.map_append, hfixed]
    rfl

/-- **A second attempt does what is asked of the call.** -/
theorem Creating.onDemand {g : GroupRow} {rows : List AssignmentRow} {w w₃ : World}
    (h : Creating env q (env.clock w.reads) (env.clock (w.reads + 1)) (env.clock (w.reads + 2)) w.db d₁ w₃.db g rows)
    (hag : Aged (env.clock w.reads) w.db.toTables) (hreads : w₃.reads = w.reads + 3) (hw : Demanded env q w)
    (hd : 0 < duration) :
    Wp (leaseNextCompatible env q duration i) (fun answer w' => OnDemand env q duration i w (.ok answer) w'.db)
      (fun e w' => OnDemand env q duration i w (.error e) w'.db) w₃ := by
  have hlate : env.clock (w.reads + 2) ≤ env.clock (w.reads + 3) := env.clock_mono (Nat.le_succ _)
  have hsound := h.sound_made hlate
  obtain ⟨session, lag, preference, hfound, -⟩ := h.found
  obtain ⟨row, hrow, hpending⟩ := (h.asks_made hfound).pending
  simp only [leaseNextCompatible, wp_bind, wp_raiseUnless, wp_readClock, hreads]
  refine ⟨fun _ => ?_, fun hneg => absurd hd hneg⟩
  by_cases hgrants : StandsStill env w ∧ i ∉ w.db.leases.map (·.leaseId) ∧ Outlasts env duration w
  · obtain ⟨hstill, hid, hlasts⟩ := hgrants
    have hmade : env.clock (w.reads + 2) = env.clock w.reads :=
      le_antisymm (hlate.trans hstill.le) (h.ordered.1.trans h.ordered.2)
    have hsum : env.clock w.reads < Binary64.add (env.clock w.reads) duration := by
      rw [← show env.clock (w.reads + 3) = env.clock w.reads from hstill]
      exact hlasts
    obtain ⟨a, ha, d₃, hcand, hbody, hgrant⟩ := h.grants hmade hag hid hsum
    rw [← show env.clock (w.reads + 3) = env.clock w.reads from hstill] at hcand hbody
    refine wp_transaction_returns hbody (fun n => ?_) ?_
    · obtain ⟨hm, hl⟩ := mem_leaseCandidates.1 hcand
      obtain ⟨-, hav, hdl⟩ := leasable_iff hl
      obtain ⟨lease, hbuild⟩ := buildLease_grant hsound (Rows.get_of_mem _ w₃.db.ok.assignments.key hm) hav
        ((lt_leaseExpiry_iff hdl).2 hlasts) i q.workerId q.workerSessionId (a.attemptCount + 1)
      obtain ⟨hli, hla⟩ := buildLease_ok hbuild
      dsimp only
      rw [hbuild]
      obtain ⟨hone, hnew⟩ := h.newGroups d₃ (by rw [hgrant.groups])
      refine ⟨hone, fun r hr => ⟨hw, fun _ _ => Or.inr (iff_of_true ⟨lease, rfl, ?_, ?_⟩ hlasts),
        fun answer hanswer => Or.inl ⟨?_, hlasts⟩⟩⟩
      · rw [hli]
        exact hgrant.request
      · obtain ⟨b, hb, -, hbg, hst, hcur, hba⟩ := hgrant.assignment
        refine ⟨b, hb, ?_, hst, hli ▸ hcur, hla ▸ hba⟩
        rw [hbg, (h.made.created.newborn a ha).2, hnew r hr]
      · rw [← Except.ok.inj hanswer]
        rfl
    · obtain ⟨hone, hnew⟩ := h.newGroups w₃.db rfl
      exact ⟨hone, fun r _ => ⟨hw, fun _ _ => Or.inl rfl, fun answer hanswer => by cases hanswer⟩⟩
  · have hstays : StandsStill env w → i ∉ w.db.leases.map (·.leaseId) → ¬ Outlasts env duration w :=
      fun h₁ h₂ h₃ => hgrants ⟨h₁, h₂, h₃⟩
    refine wp_transaction (fun answer d₃ n hbody => ?_) fun e => ?_
    · have hw₃ := writes_leaseNextBody (S := .requests :: .fixedLeases :: reapTables) env q duration i
        (env.clock (w.reads + 3)) (by decide) (by decide) (by decide) _ _ _ hbody
      obtain ⟨hone, hnew⟩ := h.newGroups d₃ (hw₃ .fixedGroups (by decide))
      cases answer with
      | granted a expiresAt =>
        have hlasts : Outlasts env duration w := leaseNextBody_expires hsound hbody
        dsimp only
        split
        · rename_i lease _
          refine ⟨hone, fun r hr => ⟨hw, fun h₁ h₂ => absurd hlasts (hstays h₁ h₂), fun answer hanswer =>
            Or.inl ⟨?_, hlasts⟩⟩⟩
          rw [← Except.ok.inj hanswer]
          rfl
        · exact ⟨hone, fun r hr => ⟨hw, fun h₁ h₂ => absurd hlasts (hstays h₁ h₂), fun answer hanswer => by
            cases hanswer⟩⟩
      | nothing =>
        refine ⟨hone, fun r hr => ⟨hw, fun h₁ h₂ => Or.inr (iff_of_false ?_ (hstays h₁ h₂)), fun answer hanswer =>
          Or.inr ?_⟩⟩
        · rintro ⟨lease, hlease, -⟩
          cases hlease
        rw [hnew r hr]
        exact h.all_due hlate hbody
      | recorded lease =>
        -- the request is still pending, so no answer is on record
        cases returns_leaseNextBody hsound hbody with
        | recorded row' hr' hst' =>
          rw [← Option.some.inj (hrow.symm.trans hr'), hpending] at hst'
          cases hst'
    · obtain ⟨hone, hnew⟩ := h.newGroups w₃.db rfl
      refine ⟨hone, fun r _ => ⟨hw, fun h₁ h₂ => Or.inr (iff_of_false ?_ (hstays h₁ h₂)), fun answer hanswer => by
        cases hanswer⟩⟩
      rintro ⟨lease, hlease, -⟩
      cases hlease

/-- What a first attempt leaves, when it answers nothing to a pending request. -/
theorem FoundNone.demanded {w : World} {session : SessionRow} {lag : Int} {preference : Time}
    (h : FoundNone env q (env.clock w.reads) w.db d₁ session lag preference) (hs : Sound (env.clock w.reads) w.db.toTables)
    (hfree : activeCount d₁.toTables q.workerId q.workerSessionId (env.clock (w.reads + 1)) <
      session.capabilities.inferenceSlots)
    (hnone : leaseCandidates d₁.toTables (env.clock (w.reads + 1)) = []) : Demanded env q w := by
  have hstill : StandsStill env w → env.clock (w.reads + 1) = env.clock w.reads := fun hstill =>
    le_antisymm ((env.clock_mono (by omega : w.reads + 1 ≤ w.reads + 3)).trans (le_of_eq hstill))
      (env.clock_mono (Nat.le_succ _))
  refine ⟨h.asks.pending, fun hst => ?_, fun hst a ha hl => ⟨lag, h.asks.lag, ?_⟩⟩
  · rw [hstill hst] at hfree
    exact ⟨session, h.asks.registered, h.asks.worker, (h.slots hs).trans_lt hfree⟩
  · rw [hstill hst] at hnone
    by_contra hfresh
    have hmem := h.candidates hs ha hl hfresh
    rw [hnone] at hmem
    cases hmem

/-- What a first attempt that returns has done: it read the clock once, and left the groups and the sources as they
were. -/
structure Attempted (env : Env) (q : LeaseRequest) (duration : Time) (w w₁ : World) (answer : Option AssignmentLease) :
    Prop where
  reads : w₁.reads = w.reads + 1
  duration : 0 < duration
  sound : Sound (env.clock w.reads) w₁.db.toTables
  rows : ∀ k ∈ [Table.fixedGroups, .sources, .scheduler], w₁.db.rows k = w.db.rows k
  none : answer = none → (∃ row, w₁.db.request? q.requestId = some row ∧ row.state ≠ .pending) ∨
    ∃ session lag preference, FoundNone env q (env.clock w.reads) w.db w₁.db session lag preference

theorem Attempted.logged {w w₁ : World} {answer : Option AssignmentLease} (h : Attempted env q duration w w₁ answer)
    (hl : w.db.Logged) : w₁.db.Logged := by
  have hg : w₁.db.groups.map GroupRow.fixed = w.db.groups.map GroupRow.fixed := h.rows .fixedGroups (by decide)
  have hsrc : w₁.db.sources = w.db.sources := h.rows .sources (by decide)
  have hsch : w₁.db.scheduler = w.db.scheduler := h.rows .scheduler (by decide)
  rw [Db.Logged, hsrc, hsch]
  exact hl.of_fixed hg

theorem leaseNext_attempted {w : World} (hs : w.Sound env) (q : LeaseRequest) (duration : Time) (i : OpaqueId) :
    Wp (leaseNextCompatible env q duration i) (fun answer w₁ => Attempted env q duration w w₁ answer)
      (fun _ w₁ => w₁.db.groups.map GroupRow.fixed = w.db.groups.map GroupRow.fixed) w := by
  simp only [leaseNextCompatible, wp_bind, wp_raiseUnless, wp_readClock]
  refine ⟨fun hd => wp_transaction (fun answer d n h => ?_) fun _ => rfl, fun _ => trivial⟩
  have hs' : Sound (env.clock w.reads) d.toTables := (steady_leaseNextBody env q duration i _ _ _ (sound_clock hs) h).1
  have hw := writes_leaseNextBody (S := .requests :: .fixedLeases :: reapTables) env q duration i (env.clock w.reads)
    (by decide) (by decide) (by decide) _ _ _ h
  have hrows : ∀ k ∈ [Table.fixedGroups, .sources, .scheduler], d.rows k = w.db.rows k := fun k hk =>
    hw k (by revert k; decide)
  cases answer with
  | recorded lease =>
    cases returns_leaseNextBody (sound_clock hs) h with
    | recorded row hr hst =>
      exact ⟨rfl, hd, hs', hrows, fun _ => Or.inl ⟨row, hr, by rw [hst]; decide⟩⟩
  | nothing =>
    refine ⟨rfl, hd, hs', hrows, fun _ => ?_⟩
    obtain ⟨row, hr, hst⟩ : ∃ row, w.db.request? q.requestId = some row ∧ (row.state = .noWork ∧ d = w.db ∨
        row.state = .pending) := by
      cases returns_leaseNextBody (sound_clock hs) h with
      | refused row hr hst => exact ⟨row, hr, Or.inl ⟨hst, rfl⟩⟩
      | nothing row hr hst => exact ⟨row, hr, Or.inr hst⟩
    rcases hst with ⟨hst, rfl⟩ | hst
    · exact Or.inl ⟨row, hr, by rw [hst]; decide⟩
    · exact Or.inr (leaseNextBody_nothing hr hst h)
  | granted a expiresAt =>
    dsimp only
    split
    · exact ⟨rfl, hd, hs', hrows, fun hne => by cases hne⟩
    · exact hrows .fixedGroups (by decide)

/-- **A call that creates a group does so on demand.** -/
theorem nextOrCreate_onDemand {w : World} (hs : w.Sound env) (hl : w.db.Logged) (hag : Aged (w.now env) w.db.toTables)
    (q : LeaseRequest) (duration : Time) (draws : Draws) (artifacts : Artifacts) :
    Wp (leaseOrCreateNextCompatible env q duration draws artifacts)
      (fun answer w' => OnDemand env q duration draws.secondLease w (.ok answer) w'.db)
      (fun e w' => OnDemand env q duration draws.secondLease w (.error e) w'.db) w := by
  have hs₀ := sound_clock hs
  have hag₀ : Aged (env.clock w.reads) w.db.toTables := fun r hr => (hag r hr).trans (env.clock_mono (Nat.sub_le _ _))
  rw [leaseOrCreateNextCompatible, wp_bind]
  refine (leaseNext_attempted hs q duration draws.firstLease).imp (fun lease w₁ h₁ => ?_) fun _ _ h => .of_same h
  have hsame : w₁.db.groups.map GroupRow.fixed = w.db.groups.map GroupRow.fixed := h₁.rows .fixedGroups (by decide)
  split
  · exact .of_same hsame
  · simp only [leaseRequestCanGenerate, createNextGroup, wp_bind, wp_readClock, h₁.reads]
    refine wp_transaction (fun can d₂ n₂ h₂ => ?_) fun _ => .of_same hsame
    cases can with
    | false =>
      have hw₂ := writes_leaseRequestCanGenerateBody (S := []) _ _ _ _ _ h₂ .fixedGroups List.not_mem_nil
      exact .of_same (Eq.trans hw₂ hsame)
    | true =>
      obtain ⟨rfl, ⟨row, hrow, hpending⟩, session, hsession, hfree, hnone⟩ := returns_leaseRequestCanGenerateBody h₂
      simp only [if_true, wp_bind, wp_readClock]
      refine wp_transaction (fun made d₃ n₃ h₃ => ?_) fun _ => .of_same hsame
      cases made with
      | none =>
        cases returns_createNextGroupBody h₃ with
        | idle => exact .of_same hsame
      | some r =>
        rcases h₁.none rfl with ⟨row', hrow', hne⟩ | ⟨session', lag, preference, hfound⟩
        · rw [← Option.some.inj (hrow.symm.trans hrow')] at hne
          exact absurd hpending hne
        · obtain ⟨-, -, -, hasks⟩ := hfound.reaped hs₀
          obtain rfl := Option.some.inj (hsession.symm.trans hasks.registered)
          obtain ⟨g, rows, hmade⟩ := createNext_makes (h₁.logged hl) h₃
          have hmono : env.clock w.reads ≤ env.clock (w.reads + 1) ∧
              env.clock (w.reads + 1) ≤ env.clock (w.reads + 1 + 1) :=
            ⟨env.clock_mono (Nat.le_succ _), env.clock_mono (Nat.le_succ _)⟩
          have hcreating : Creating env q (env.clock w.reads) (env.clock (w.reads + 1)) (env.clock (w.reads + 2)) w.db
              w₁.db d₃ g rows := ⟨hmono, hs₀, ⟨session, lag, preference, hfound, hfree⟩, hnone, hmade⟩
          exact hcreating.onDemand hag₀ rfl (hfound.demanded hs₀ hfree hnone) h₁.duration

namespace Sample

/-- The coordinator while its clock stands still. -/
def stopped (now : Time) : Env := { Sample.env with clock := fun _ => now, clock_mono := fun _ _ _ => le_rfl }

/-- The call that creates a group, at 1,700,000,000 seconds. -/
def demands (duration : Time) : Except Error (Option AssignmentLease) × World :=
  leaseOrCreateNextCompatible (stopped 1700000000) request duration draws (fun _ => true)
    (reached (stopped 1700000000) leased.dropLast)

end Sample

/-- A request on an idle coordinator has a group created for it, and a lease of a minute. -/
example : (newGroups (reached (Sample.stopped 1700000000) Sample.leased.dropLast).db (Sample.demands 60).2.db).length = 1 ∧
    (Sample.demands 60).1.isOk = true := by decide +kernel

end Aether
