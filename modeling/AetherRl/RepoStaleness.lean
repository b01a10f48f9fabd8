import AetherRl.RepoOutcomes
/-!
# RepoStaleness — the policy lag and what it cancels

Activations and changes of the lag cancel stale work at once, grants reconcile before they choose.  So no lease is
granted to an assignment whose policy lags the active one by more than the lag, whatever ran before; and an assignment
once cancelled stays under the lease it is held by until it is over.
-/
namespace Aether

open Txn (Returns Writes Wp returns_bind returns_pure wp_bind wp_pure wp_throw)
open Tables Repo

/-- An assignment of a train group whose policy lags the active version by more than `lag`. -/
def StaleAssignment (t : Tables) (lag : Int) (a : AssignmentRow) : Prop :=
  (∃ g ∈ t.group? a.groupId, g.kind = .train) ∧
    ∃ active ∈ t.activePolicy?, ∃ p ∈ t.policy? a.policyId, lag < (active.policyVersion : Int) - p.policyVersion

/-- No assignment of this id is stale for the lag there is. -/
def FreshAssignment (t : Tables) (i : OpaqueId) : Prop :=
  ∀ a ∈ t.assignments, a.assignmentId = i → ∀ lag ∈ t.scheduler.maxPolicyLag, ¬ StaleAssignment t lag a

variable {now : Time} {d d' d'' : Db}

/-- **A stale assignment is one of a stale group.** -/
theorem StaleAssignment.group {lag : Int} {a : AssignmentRow} (h : StaleAssignment d.toTables lag a)
    (ha : a ∈ d.assignments) : ∃ g ∈ d.groups, g.groupId = a.groupId ∧ StaleGroup d.toTables lag g := by
  obtain ⟨⟨g, hg, hk⟩, active, hact, p, hp, hlag⟩ := h
  obtain ⟨r, hr, hid, hpol⟩ := d.ok.assignments.group a ha
  have hgr := (Rows.get_eq_some _ d.ok.groups.key).1 hg
  have he : r = g := Rows.eq_of_key _ d.ok.groups.key hr hgr.1 (hid.trans hgr.2.symm)
  subst he
  exact ⟨r, hr, hid, hk, active, hact, p, hpol ▸ hp, hlag⟩

/-- **Where no stale work is left, what waits is not stale.** -/
theorem NoStaleWork.fresh {lag : Int} (h : NoStaleWork d.toTables lag) {a : AssignmentRow} (ha : a ∈ d.assignments)
    (hw : a.state.waiting = true) : ¬ StaleAssignment d.toTables lag a := by
  intro hst
  obtain ⟨g, hg, hid, hsg⟩ := hst.group ha
  have hset := h g hg hsg a.assignmentId (d.lifeOf a) (life?_of_mem d.ok ha) hid.symm
  have hidle : a.state.waiting = false := hset.idle
  rw [hw] at hidle
  cases hidle

/-! ## What a call leaves of the policies, the groups and the leases -/

/-- Nothing staleness looks at changed; groups, assignments and leases may be new. -/
structure Extends (t t' : Tables) : Prop where
  run : t'.run = t.run
  policies : t'.policies = t.policies
  lag : t'.scheduler.maxPolicyLag = t.scheduler.maxPolicyLag
  groups : t.groups.map GroupRow.fixed <+: t'.groups.map GroupRow.fixed
  assignments : t.assignments.map AssignmentRow.fixed <+: t'.assignments.map AssignmentRow.fixed

theorem Extends.refl (t : Tables) : Extends t t := ⟨rfl, rfl, rfl, List.prefix_rfl, List.prefix_rfl⟩

theorem Extends.trans {t t' t'' : Tables} (h₁ : Extends t t') (h₂ : Extends t' t'') : Extends t t'' :=
  ⟨h₂.run.trans h₁.run, h₂.policies.trans h₁.policies, h₂.lag.trans h₁.lag, h₁.groups.trans h₂.groups,
    h₁.assignments.trans h₂.assignments⟩

/-- The old row of an assignment that was already there. -/
theorem Extends.before (h : Extends d.toTables d'.toTables) {a' : AssignmentRow} (ha' : a' ∈ d'.assignments)
    {a : AssignmentRow} (ha : a ∈ d.assignments) (hid : a.assignmentId = a'.assignmentId) : a'.fixed = a.fixed := by
  obtain ⟨b, hb, he⟩ := List.mem_map.1 (h.assignments.subset (List.mem_map_of_mem ha))
  have hbid : b.assignmentId = a.assignmentId := congrArg (·.assignmentId) he
  rw [← Rows.eq_of_key _ d'.ok.assignments.key hb ha' (hbid.trans hid)]
  exact he

/-- **An assignment that was there is stale when it was.** -/
theorem StaleAssignment.before (h : Extends d.toTables d'.toTables) {lag : Int} {a a' : AssignmentRow}
    (ha : a ∈ d.assignments) (he : a'.fixed = a.fixed) (hst : StaleAssignment d'.toTables lag a') :
    StaleAssignment d.toTables lag a := by
  have hg : a'.groupId = a.groupId := congrArg (·.groupId) he
  have hp : a'.policyId = a.policyId := congrArg (·.policyId) he
  obtain ⟨⟨g', hg', hk⟩, hpol⟩ := hst
  obtain ⟨g, hgm, hgid, _⟩ := d.ok.assignments.group a ha
  obtain ⟨g₁, hg₁, hf⟩ := List.mem_map.1 (h.groups.subset (List.mem_map_of_mem hgm))
  have hid₁ : g₁.groupId = g.groupId := congrArg (·.groupId) hf
  have hk₁ : g₁.kind = g.kind := congrArg (·.kind) hf
  obtain ⟨hgm', hgid'⟩ := (Rows.get_eq_some _ d'.ok.groups.key).1 hg'
  have hsame : g₁ = g' := Rows.eq_of_key _ d'.ok.groups.key hg₁ hgm' (by rw [hid₁, hgid, hgid', hg])
  refine ⟨⟨g, (Rows.get_eq_some _ d.ok.groups.key).2 ⟨hgm, hgid⟩, ?_⟩, ?_⟩
  · rw [← hk₁, hsame]
    exact hk
  · unfold activePolicy? policy? at *
    rwa [h.run, h.policies, hp] at hpol

theorem FreshAssignment.extends (h : Extends d.toTables d'.toTables) {i : OpaqueId}
    (hi : ∃ a ∈ d.assignments, a.assignmentId = i) (hf : FreshAssignment d.toTables i) :
    FreshAssignment d'.toTables i := by
  obtain ⟨a, ha, hai⟩ := hi
  intro a' ha' hid lag hlag hst
  have he := h.before ha' ha (hai.trans hid.symm)
  exact hf a ha hai lag (h.lag ▸ hlag) (hst.before h ha he)

/-- **Every lease that is new is one of an assignment that is not stale.** -/
structure GrantsFresh (d d' : Db) : Prop extends Extends d.toTables d'.toTables where
  leases : ∀ l ∈ d'.leases, l.fixed ∈ d.leases.map LeaseRow.fixed ∨ FreshAssignment d'.toTables l.assignmentId

theorem GrantsFresh.of_leases (h : Extends d.toTables d'.toTables)
    (hl : d'.leases.map LeaseRow.fixed = d.leases.map LeaseRow.fixed) : GrantsFresh d d' :=
  ⟨h, fun _ hm => Or.inl (hl ▸ List.mem_map_of_mem hm)⟩

theorem GrantsFresh.refl (d : Db) : GrantsFresh d d := .of_leases (.refl _) rfl

theorem GrantsFresh.trans (h₁ : GrantsFresh d d') (h₂ : GrantsFresh d' d'') : GrantsFresh d d'' := by
  refine ⟨h₁.toExtends.trans h₂.toExtends, fun l hl => ?_⟩
  rcases h₂.leases l hl with hold | hnew
  · obtain ⟨l', hl', he⟩ := List.mem_map.1 hold
    have hid : l'.assignmentId = l.assignmentId := congrArg (·.assignmentId) he
    rcases h₁.leases l' hl' with hold | hnew
    · exact Or.inl (he ▸ hold)
    · exact Or.inr (hid ▸ hnew.extends h₂.toExtends (d'.ok.leases.assignment l' hl'))
  · exact Or.inr hnew

/-! ## What grants -/

/-- The tables staleness and the issue of leases look at. -/
def grantTables : List Table := [.run, .policies, .maxPolicyLag, .fixedGroups, .fixedAssignments, .fixedLeases]

theorem GrantsFresh.of_rows (h : ∀ k ∈ grantTables, d'.rows k = d.rows k) : GrantsFresh d d' := by
  have hg : d'.groups.map GroupRow.fixed = d.groups.map GroupRow.fixed := h .fixedGroups (by decide)
  have ha : d'.assignments.map AssignmentRow.fixed = d.assignments.map AssignmentRow.fixed :=
    h .fixedAssignments (by decide)
  exact .of_leases ⟨h .run (by decide), h .policies (by decide), h .maxPolicyLag (by decide), hg ▸ List.prefix_rfl,
    ha ▸ List.prefix_rfl⟩ (h .fixedLeases (by decide))

theorem Reaped.grantsFresh (h : Reaped now d d') : GrantsFresh d d' :=
  .of_rows fun k hk => h.frame k (by revert k; decide)

theorem Created.grantsFresh {g : GroupRow} {rows : List AssignmentRow} (h : Created d.toTables d'.toTables g rows)
    (hw : ∀ k ∈ [Table.run, .policies, .maxPolicyLag], d'.rows k = d.rows k) : GrantsFresh d d' := by
  have hl : d'.leases = d.leases := h.others .leases (by decide) (by decide)
  refine .of_leases ⟨hw .run (by decide), hw .policies (by decide), hw .maxPolicyLag (by decide), ?_, ?_⟩ (by rw [hl])
  · rw [h.groups, List.map_append]
    exact List.prefix_append _ _
  · rw [h.assignments, List.map_append]
    exact List.prefix_append _ _

/-- **A grant to an assignment that is not stale.** -/
theorem GrantsFresh.grant {a : AssignmentRow} {l : LeaseRow} (ha : a ∈ d.assignments) (hw : a.state.waiting = true)
    (hno : ∀ lag ∈ d.scheduler.maxPolicyLag, NoStaleWork d.toTables lag)
    (hrows : ∀ k ∈ [Table.run, .policies, .maxPolicyLag, .fixedGroups, .fixedAssignments], d'.rows k = d.rows k)
    (hid : l.assignmentId = a.assignmentId) (hl : d'.leases = d.leases ++ [l]) : GrantsFresh d d' := by
  have hg : d'.groups.map GroupRow.fixed = d.groups.map GroupRow.fixed := hrows .fixedGroups (by decide)
  have hfix : d'.assignments.map AssignmentRow.fixed = d.assignments.map AssignmentRow.fixed :=
    hrows .fixedAssignments (by decide)
  have he : Extends d.toTables d'.toTables := ⟨hrows .run (by decide), hrows .policies (by decide),
    hrows .maxPolicyLag (by decide), hg ▸ List.prefix_rfl, hfix ▸ List.prefix_rfl⟩
  refine ⟨he, fun m hm => ?_⟩
  rw [hl, List.mem_append, List.mem_singleton] at hm
  rcases hm with hm | rfl
  · exact Or.inl (List.mem_map_of_mem hm)
  · rw [hid]
    refine Or.inr (FreshAssignment.extends he ⟨a, ha, rfl⟩ fun b hb hbid lag hlag => ?_)
    rw [Rows.eq_of_key _ d.ok.assignments.key hb ha hbid]
    exact (hno lag hlag).fresh ha hw

theorem leaseNextBody_grantsFresh {env : Env} {request : LeaseRequest} {duration : Time}
    {leaseId : OpaqueId} {answer : LeaseAnswer} (hs : Sound now d.toTables)
    (h : Returns (leaseNextBody env request duration leaseId now) d answer d') : GrantsFresh d d' := by
  cases returns_leaseNextBody hs h with
  | recorded => exact .refl _
  | refused => exact .refl _
  | nothing row hr hst _ h₁ => exact h₁.grantsFresh
  | granted row hr hst d₁ d₂ _ h₁ a ha h₂ h₃ =>
    obtain ⟨hm, hl⟩ := leaseCandidates_leasable ha
    obtain ⟨lag, hlag, hno⟩ := h₁.fresh
    have hw₂ := writes_grantLease (S := [.assignments, .leases, .fixedLeases]) a leaseId request.workerId
      request.workerSessionId now _ (by decide) (by decide) (by decide) _ _ _ h₂
    have hw₃ := writes_completeRequest (S := [.requests]) _ _ _ _ (by decide) _ _ _ h₃
    refine h₁.grantsFresh.trans (.grant hm (leasable_iff hl).1 ?_ ?_ rfl (granted_sound h₁.sound ha h₂ h₃).2)
    · intro lag' hlag'
      rw [Option.mem_unique hlag' hlag]
      exact hno
    · intro k hk
      exact (hw₃ k (by revert k; decide)).trans (hw₂ k (by revert k; decide))

theorem createNextGroupBody_grantsFresh {env : Env} {kind : Option Kind} {ids : Nat → OpaqueId} {artifacts : Artifacts}
    {t : Time} {r : Option CreatedGroup} (h : Returns (createNextGroupBody env kind ids artifacts t) d r d') :
    GrantsFresh d d' := by
  have hw := writes_createNextGroupBody (S := .sources :: .scheduler :: groupTables) env kind ids artifacts t (by decide)
    (by decide) (by decide) _ _ _ h
  have hrows : ∀ k ∈ [Table.run, .policies, .maxPolicyLag], d'.rows k = d.rows k :=
    fun k hk => hw k (by revert k; decide)
  rcases (returns_createNextGroupBody h).created with hsame | ⟨g, rows, hc⟩
  · have hg : d'.groups = d.groups := hsame .groups (by decide)
    have ha : d'.assignments = d.assignments := hsame .assignments (by decide)
    have hl : d'.leases = d.leases := hsame .leases (by decide)
    exact .of_leases ⟨hrows .run (by decide), hrows .policies (by decide), hrows .maxPolicyLag (by decide),
      hg ▸ List.prefix_rfl, ha ▸ List.prefix_rfl⟩ (by rw [hl])
  · exact hc.grantsFresh hrows

/-- **Expiry reconciles first**, and what it expires afterwards is not stale work. -/
theorem expireBody_sound {env : Env} {n : Nat} (hs : Sound now d.toTables) (h : Returns (expireBody env now) d n d') :
    Sound now d'.toTables ∧ ∀ lag ∈ d'.scheduler.maxPolicyLag, NoStaleWork d'.toTables lag := by
  simp only [expireBody, returns_bind] at h
  obtain ⟨_, d₁, h₁, h₂⟩ := h
  obtain ⟨⟨hs₁, _⟩, hno⟩ := reconcileStaleWork_sound hs h₁
  obtain ⟨hs₂, ha₂⟩ := steady_expireLeasesBody env now _ _ _ hs₁ h₂
  obtain ⟨hfix, hrun, hpol, hsch⟩ :=
    reap_frame (writes_expireLeasesBody (S := reapTables) env now (List.Subset.refl _)) h₂
  refine ⟨hs₂, fun lag hlag => ?_⟩
  exact (hno lag (hsch ▸ hlag)).advance hs₁.wf ha₂ hfix hrun hpol

/-- **`create_lease` expires and reconciles first**, then grants what is not stale. -/
theorem createLease_grantsFresh (env : Env) (i worker session l : OpaqueId) (duration : Time) {w : World}
    (hs : w.Sound env) : Wp (createLease env i worker session l duration) (fun _ w' => GrantsFresh w.db w'.db)
      (fun _ w' => GrantsFresh w.db w'.db) w := by
  simp only [createLease, expireLeases, wp_bind, wp_raiseUnless, wp_readClock]
  refine ⟨fun _ => wp_transaction (fun _ d₁ _ h₁ => ?_) fun _ => .refl _, fun _ => .refl _⟩
  have hs₀ : Sound (env.clock w.reads) w.db.toTables := hs.mono (env.clock_mono (Nat.sub_le _ 1))
  have hg₁ : GrantsFresh w.db d₁ := .of_rows fun k hk =>
    writes_expireBody (S := reapTables) env _ (List.Subset.refl _) _ _ _ h₁ k (by revert k; decide)
  obtain ⟨hs₁, hno⟩ := expireBody_sound hs₀ h₁
  refine wp_transaction (fun r d₂ _ h₂ => ?_) fun _ => hg₁
  have hg₂ : GrantsFresh d₁ d₂ := by
    obtain ⟨a, ha, hw, hav, ⟨_, h₂⟩ | ⟨_, -, _, h₂⟩⟩ := returns_createLeaseBody h₂
    · exact .of_rows fun k hk => writes_terminalizeWithoutEnvelope (S := reapTables) _ _ _ (List.Subset.refl _)
        _ _ _ h₂ k (by revert k; decide)
    · have hl := (grantLease_sound (hs₁.mono (env.clock_mono (Nat.le_succ _))) ha hw hav (leaseExpiry_le _ duration) h₂).2
      have hw₂ := writes_grantLease (S := [.assignments, .leases, .fixedLeases]) a l worker session _ _ (by decide)
        (by decide) (by decide) _ _ _ h₂
      exact .grant (Rows.mem_of_get _ ha) hw hno (fun k hk => hw₂ k (by revert k; decide)) rfl hl
  split
  · exact hg₁.trans hg₂
  · split <;> exact hg₁.trans hg₂

/-! ## Every call -/

/-- **No call issues a lease to stale work.** -/
theorem step_grantsFresh (env : Env) (s : Step) {w : World} (hs : w.Sound env) :
    ∀ l ∈ (s.run env w).db.leases, l.leaseId ∉ w.db.leases.map (·.leaseId) →
      FreshAssignment (s.run env w).db.toTables l.assignmentId := by
  have hids : ∀ t : Tables, (t.leases.map LeaseRow.fixed).map (·.leaseId) = t.leases.map (·.leaseId) := by
    simp [LeaseRow.fixed]
  have rule : GrantsFresh w.db (s.run env w).db → ∀ l ∈ (s.run env w).db.leases,
      l.leaseId ∉ w.db.leases.map (·.leaseId) → FreshAssignment (s.run env w).db.toTables l.assignmentId := by
    intro h l hl hnew
    rcases h.leases l hl with hold | hfresh
    · rw [← hids] at hnew
      exact absurd (List.mem_map_of_mem hold) hnew
    · exact hfresh
  by_cases hc : .fixedLeases ∈ s.call.writes
  · obtain ⟨c, n, torn⟩ := s
    have run {c : Call} (hcommit : ∀ now d d', Aether.Sound now d.toTables → Commit env now d d' c → GrantsFresh d d') :
        GrantsFresh w.db ((Step.mk c n torn).run env w).db :=
      (step_holds (I := fun now d => Aether.Sound now d.toTables) (R := GrantsFresh) (fun _ _ _ hn h => h.mono hn)
        GrantsFresh.refl (fun _ _ _ => GrantsFresh.trans)
        (fun now d d' hs h => ⟨(commit_sound hs h).1, hcommit now d d' hs h⟩) hs).2
    cases c
    case leaseNextCompatible =>
      exact rule (run fun _ _ _ hs ⟨_, _, h⟩ => leaseNextBody_grantsFresh hs h)
    case leaseOrCreateNextCompatible =>
      refine rule (run fun _ _ _ hs h => ?_)
      rcases h with ⟨_, _, _, h⟩ | ⟨_, h⟩ | ⟨_, h⟩
      · exact leaseNextBody_grantsFresh hs h
      · exact .of_rows fun k _ => writes_leaseRequestCanGenerateBody (S := []) _ _ _ _ _ h k List.not_mem_nil
      · exact createNextGroupBody_grantsFresh h
    case createLease i worker session l duration =>
      have h := createLease_grantsFresh env i worker session l duration (w := { w with crashAfter := n, torn := torn }) hs
      exact rule (wp_answered.2 h).ended
    case releaseUnofferedLease =>
      exact rule (run fun _ _ _ _ ⟨_, h⟩ => returns_releaseUnofferedLeaseBody h ▸ .refl _)
    all_goals exact absurd hc (by simp only [Call.writes]; decide)
  · intro l hl hnew
    have h : True ∧ (s.run env w).db.leases.map LeaseRow.fixed = w.db.leases.map LeaseRow.fixed :=
      step_holds (I := fun _ _ => True)
        (R := fun d d' => d'.leases.map LeaseRow.fixed = d.leases.map LeaseRow.fixed) (fun _ _ _ _ _ => trivial)
        (fun _ => rfl) (fun _ _ _ h₁ h₂ => h₂.trans h₁)
        (fun _ _ _ _ hcm => ⟨trivial, commit_rows hcm .fixedLeases hc⟩) trivial
    rw [← hids, ← h.2, hids] at hnew
    exact absurd (List.mem_map_of_mem hl) hnew

/-- The calls that reconcile stale work with a new active policy or a new lag. -/
def Call.reconciles : Call → Bool
  | .recordAndActivatePolicy _ _ _ | .activatePolicy _ _ | .configureScheduler _ _ => true
  | _ => false

theorem activate_noStaleWork {i : OpaqueId} {v : Nat} {u : Unit} (hs : Sound now d.toTables)
    (h : Returns (activate i v now) d u d') : ∀ lag ∈ d'.scheduler.maxPolicyLag, NoStaleWork d'.toTables lag := by
  simp only [activate, returns_bind, returns_tables, Txn.returns_orRaise, Txn.returns_raiseIf] at h
  obtain ⟨_, _, ⟨rfl, rfl⟩, _, _, ⟨_, rfl⟩, _, _, ⟨_, rfl⟩, _, d₁, h₁, h₂⟩ := h
  have hrun : Steady now (exec (setRun fun r => { r with activePolicyId := i })) :=
    .of_writes (writes_setRun (S := [.run]) _ (by decide)) (by decide)
  exact (reconcileStaleWork_sound (hrun _ _ _ hs h₁).1 h₂).2

/-- **A call that reconciles and returns leaves no stale work.** -/
theorem reconciles_noStaleWork (env : Env) {c : Call} (hc : c.reconciles = true) {w : World} (hs : w.Sound env) :
    Wp (perform env c) (fun _ w' => ∀ lag ∈ w'.db.scheduler.maxPolicyLag, NoStaleWork w'.db.toTables lag)
      (fun _ _ => True) w := by
  have hs₀ : Sound (env.clock w.reads) w.db.toTables := hs.mono (env.clock_mono (Nat.sub_le _ 1))
  cases c <;> cases hc
  case recordAndActivatePolicy m path onDisk =>
    simp only [perform, wp_answered, recordAndActivatePolicy]
    split
    · trivial
    · rename_i verified _
      simp only [wp_bind, wp_readClock, wp_pure]
      refine wp_transaction (fun _ d n h => ?_) fun _ => trivial
      simp only [recordAndActivateBody, returns_bind] at h
      obtain ⟨_, d₁, h₁, h₂⟩ := h
      have hrec : Steady (env.clock w.reads) (recordPolicyInTransaction env verified path) :=
        .of_writes (writes_recordPolicyInTransaction (S := [.policies]) _ _ _ (by decide)) (by decide)
      exact activate_noStaleWork (hrec _ _ _ hs₀ h₁).1 h₂
  case activatePolicy i artifacts =>
    simp only [perform, wp_answered, activatePolicy, wp_bind, wp_readClock]
    refine wp_transaction (fun _ d n h => ?_) fun _ => trivial
    simp only [activatePolicyBody, returns_bind, returns_tables, returns_pure, Txn.returns_orRaise, verifyPolicyRow,
      Txn.returns_raiseIf] at h
    obtain ⟨_, _, ⟨rfl, rfl⟩, _, _, ⟨_, rfl⟩, _, _, ⟨_, rfl⟩, _, d₁, h₁, _, rfl⟩ := h
    exact activate_noStaleWork hs₀ h₁
  case configureScheduler lag preference =>
    simp only [perform, configureScheduler, wp_bind, wp_raiseUnless, wp_readClock]
    refine ⟨fun _ => wp_transaction (fun _ d n h => ?_) fun _ => trivial, fun _ => trivial⟩
    simp only [configureSchedulerBody, returns_bind] at h
    obtain ⟨_, d₁, h₁, h₂⟩ := h
    have hset := writes_setScheduler_lag (S := [.scheduler, .maxPolicyLag]) _ (by decide) (by decide) _ _ _ h₁
    exact (reconcileStaleWork_sound (hs₀.of_rows fun k hk => hset k (by revert k; decide)).1 h₂).2

/-! ## Cancelled assignments -/

/-- **A cancelled assignment is over, or held under the lease that is cancelled**, and the flag says which. -/
theorem cancelled_settled (hs : Sound now d.toTables) {c : CancellationRow} (hc : c ∈ d.cancellations) :
    ∃ a ∈ d.assignments, a.assignmentId = c.assignmentId ∧ (c.terminal = true ↔ a.state.terminal = true) ∧
      (a.state.terminal = true ∨ a.state = .leased ∧ ∃ m ∈ d.leaseCancellations,
        m.assignmentId = a.assignmentId ∧ a.currentLeaseId = some m.leaseId) := by
  obtain ⟨a, ha, hid⟩ := d.ok.cancellations.assignment c hc
  have hx := life?_of_mem d.ok ha
  have hw := hs.wf _ _ hx
  have hcx : c ∈ (d.lifeOf a).cancellations := (mem_life_cancellations hx).2 ⟨hc, hid.symm⟩
  refine ⟨a, ha, hid, ?_⟩
  by_cases ht : a.state.terminal = true
  · have hct := (hw.over ht).terminal c hcx
    exact ⟨⟨fun _ => ht, fun _ => hct⟩, Or.inl ht⟩
  by_cases hl : a.state = .leased
  · obtain ⟨i, hi⟩ := hw.held hl
    rcases hi.marked with ⟨hnil, _⟩ | ⟨c', hcs, hf, m, hm, hmi⟩
    · rw [hnil] at hcx
      exact absurd hcx List.not_mem_nil
    · rw [hcs, List.mem_singleton] at hcx
      have hcur : a.currentLeaseId = some i := hi.current
      obtain ⟨hm, hma⟩ := (mem_life_marks hx).1 hm
      refine ⟨?_, Or.inr ⟨hl, m, hm, hma, hmi ▸ hcur⟩⟩
      rw [hcx, hf]
      simp [ht]
  · have hwait : a.state.waiting = true := by
      cases hst : a.state <;> rw [hst] at ht hl <;> first | rfl | exact absurd rfl ht | exact absurd rfl hl
    have hnil : (d.lifeOf a).cancellations = [] := (hw.waiting hwait).cancellations
    rw [hnil] at hcx
    exact absurd hcx List.not_mem_nil

/-- **What is cancelled is never leased again, and never waits again.** -/
theorem Grows.cancelled {c : CancellationRow} (h : Grows d.toTables d'.toTables) (hc : c ∈ d.cancellations)
    {a : AssignmentRow} (ha : a ∈ d.assignments) (hid : a.assignmentId = c.assignmentId) :
    ∃ a' ∈ d'.assignments, a'.assignmentId = a.assignmentId ∧ (a' = a ∨ a'.state.terminal = true) := by
  have hx := life?_of_mem d.ok ha
  obtain ⟨y, hy, hle⟩ := h.lives _ _ hx
  have hcx : c ∈ (d.lifeOf a).cancellations := (mem_life_cancellations hx).2 ⟨hc, hid.symm⟩
  obtain ⟨_, hr⟩ := hle.cancelled (List.ne_nil_of_mem hcx)
  exact ⟨y.row, Rows.mem_of_get _ (life_row hy).1, congrArg (·.assignmentId) hle.row, hr⟩

/-! ## Every reached state -/

/-- **Policy lag and cancellation**: from every reached state no call issues a lease to an assignment that is stale for
the configured lag, and a call that activates a policy or sets the lag and returns leaves none that is stale waiting; an
assignment with a cancellation is over or held under the lease whose cancellation is recorded, as the flag says, and
every continuation of the run leaves its row as it is until it is over. -/
theorem no_lease_for_stale_work (env : Env) (steps : List Step) :
    let w := reached env steps
    (∀ (s : Step), ∀ l ∈ (s.run env w).db.leases, l.leaseId ∉ w.db.leases.map (·.leaseId) →
      FreshAssignment (s.run env w).db.toTables l.assignmentId) ∧
    (∀ s : Step, s.call.reconciles = true → s.Returned env w →
      ∀ a ∈ (s.run env w).db.assignments, a.state = .pending ∨ a.state = .retryWait →
        ∀ lag ∈ (s.run env w).db.scheduler.maxPolicyLag, ¬ StaleAssignment (s.run env w).db.toTables lag a) ∧
    (∀ c ∈ w.db.cancellations, ∃ a ∈ w.db.assignments, a.assignmentId = c.assignmentId ∧
      (c.terminal = true ↔ a.state = .succeeded ∨ a.state = .failed) ∧
      ((a.state = .succeeded ∨ a.state = .failed) ∨ a.state = .leased ∧ ∃ m ∈ w.db.leaseCancellations,
        m.assignmentId = a.assignmentId ∧ a.currentLeaseId = some m.leaseId) ∧
      ∀ more : List Step, ∃ a' ∈ (runFrom env w more).db.assignments, a'.assignmentId = a.assignmentId ∧
        (a' = a ∨ a'.state = .succeeded ∨ a'.state = .failed)) := by
  intro w
  have hs := reached_sound env steps
  have hterminal : ∀ s : AssignmentState, s = .succeeded ∨ s = .failed ↔ s.terminal = true := fun s => by
    cases s <;> simp [AssignmentState.terminal]
  refine ⟨fun s => step_grantsFresh env s hs, fun s hc hok a ha hst lag hlag => ?_, fun c hc => ?_⟩
  · have hno := (reconciles_noStaleWork env hc (w := { w with crashAfter := s.crashAfter, torn := s.torn }) hs).returned hok
    refine (hno lag hlag).fresh ha ?_
    rcases hst with hst | hst <;> rw [hst] <;> rfl
  · obtain ⟨a, ha, hid, hflag, hst⟩ := cancelled_settled hs hc
    simp only [hterminal]
    exact ⟨a, ha, hid, hflag, hst, fun more => (runFrom_sound env more hs).2.cancelled hc ha hid⟩

end Aether
