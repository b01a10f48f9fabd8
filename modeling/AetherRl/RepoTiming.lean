import AetherRl.RepoErrors
import AetherRl.RepoReplay
/-!
# RepoTiming — when a lease was issued and when it runs out

Every stored lease was issued no earlier than its assignment was created, runs out after it was issued and no later
than the assignment's deadline; no operation moves an expiry back.  So the `AssignmentLease` of a new, a renewed or a
replayed lease passes its time-order validation, wherever one is built.
-/
namespace Aether

open Txn
open Tables Repo
open Life (Moves Move)

variable {now : Time} {d d' : Db} {env : Env} {w : World}

/-! ## The order of a stored lease's times -/

/-- The times of a lease and its assignment are in order. -/
def InOrder (l : LeaseRow) (a : AssignmentRow) : Prop :=
  a.assignment.createdAt ≤ l.issuedAt ∧ l.issuedAt < l.expiresAt ∧ ∀ t ∈ a.assignment.deadlineAt, l.expiresAt ≤ t

theorem Sound.inOrder (hs : Sound now d.toTables) {l : LeaseRow} (hl : l ∈ d.leases) {a : AssignmentRow}
    (ha : d.assignment? l.assignmentId = some a) : InOrder l a := by
  have hx := life?_of_assignment ha
  have ht := (hs.wf _ _ hx).timed
  have hm := (mem_life_leases hx).2 ⟨hl, rfl⟩
  exact ⟨(ht.issued l hm).1, (ht.expires l hm).1, fun t h => (ht.expires l hm).2 t (ht.deadline ▸ h)⟩

/-- **A message whose times are in order is built.** -/
theorem buildLease_builds {i k s : OpaqueId} {n : Nat} {issued expires : Time} {a : RolloutAssignment}
    (hc : a.createdAt ≤ issued) (hi : issued < expires) (hd : ∀ t ∈ a.deadlineAt, expires ≤ t) :
    buildLease i n k s issued expires a = .ok ⟨i, n, k, s, issued, expires, a, hi, hc, hd⟩ := by
  unfold buildLease
  rw [dif_pos ⟨hi, hc, hd⟩]

/-! ## Expiries only move on -/

/-- No lease is lost, and none runs out earlier than it did. -/
def Later (t t' : Tables) : Prop := ∀ l ∈ t.leases, ∃ l' ∈ t'.leases, l'.fixed = l.fixed ∧ l.expiresAt ≤ l'.expiresAt

theorem Later.refl (t : Tables) : Later t t := fun l hl => ⟨l, hl, rfl, le_rfl⟩

theorem Later.trans {t t' t'' : Tables} (h₁ : Later t t') (h₂ : Later t' t'') : Later t t'' := by
  intro l hl
  obtain ⟨l₁, hl₁, hf₁, he₁⟩ := h₁ l hl
  obtain ⟨l₂, hl₂, hf₂, he₂⟩ := h₂ l₁ hl₁
  exact ⟨l₂, hl₂, hf₂.trans hf₁, he₁.trans he₂⟩

/-- **No move takes a lease back or moves its expiry back.** -/
theorem Life.Move.expiry {x y : Life} (m : Move now x y) {l : LeaseRow} (hl : l ∈ x.leases) :
    ∃ l' ∈ y.leases, l'.fixed = l.fixed ∧ l.expiresAt ≤ l'.expiresAt := by
  have hclose : ∀ i s, ∃ l' ∈ (x.close i s).leases, l'.fixed = l.fixed ∧ l.expiresAt ≤ l'.expiresAt := by
    intro i s
    by_cases hi : l.leaseId = i
    · exact ⟨_, (Rows.mem_set _).2 (Or.inl ⟨l, hl, hi, rfl⟩), rfl, le_rfl⟩
    · exact ⟨l, (Rows.mem_set _).2 (Or.inr ⟨hl, hi⟩), rfl, le_rfl⟩
  cases m with
  | grant g _ => exact ⟨l, List.mem_append_left _ hl, rfl, le_rfl⟩
  | renew i e s hr =>
    by_cases hi : l.leaseId = i
    · exact ⟨_, (Rows.mem_set _).2 (Or.inl ⟨l, hl, hi, rfl⟩), rfl, (hr l hl hi).2.1⟩
    · exact ⟨l, (Rows.mem_set _).2 (Or.inr ⟨hl, hi⟩), rfl, le_rfl⟩
  | retry i s => exact hclose i s
  | fail i s => exact hclose i s
  | succeed i => exact hclose i .succeeded
  | drop | dropStale | mark | deliver | process => exact ⟨l, hl, rfl, le_rfl⟩

theorem Life.Moves.expiry {x y : Life} (m : Moves now x y) {l : LeaseRow} (hl : l ∈ x.leases) :
    ∃ l' ∈ y.leases, l'.fixed = l.fixed ∧ l.expiresAt ≤ l'.expiresAt := by
  induction m with
  | refl => exact ⟨l, hl, rfl, le_rfl⟩
  | tail _ m ih =>
    obtain ⟨l₁, hl₁, hf₁, he₁⟩ := ih
    obtain ⟨l₂, hl₂, hf₂, he₂⟩ := m.expiry hl₁
    exact ⟨l₂, hl₂, hf₂.trans hf₁, he₁.trans he₂⟩

/-- **Every commit leaves every lease its time.** -/
theorem AdvancesOrCreates.later (h : AdvancesOrCreates now d d') : Later d.toTables d'.toTables := by
  rcases h with ⟨_, ha, _⟩ | ⟨g, rows, hc⟩
  · intro l hl
    obtain ⟨x, hx, hlx⟩ := life?_of_lease d.ok hl
    obtain ⟨y, hy, hm, _⟩ := ha.moved _ x hx
    obtain ⟨l', hl', hf, he⟩ := hm.expiry hlx
    exact ⟨l', ((mem_life_leases hy).1 hl').1, hf, he⟩
  · have hl : d'.leases = d.leases := hc.others .leases (by decide) (by decide)
    intro l hm
    exact ⟨l, hl ▸ hm, rfl, le_rfl⟩

theorem runFrom_later (env : Env) (steps : List Step) {w : World} (hs : w.Sound env) :
    Later w.db.toTables (runFrom env w steps).db.toTables :=
  (runFrom_holds (I := fun now d => Sound now d.toTables) (R := fun d d' => Later d.toTables d'.toTables)
    (fun _ _ _ hn h => h.mono hn) (fun _ => Later.refl _) (fun _ _ _ => Later.trans) steps w
    (fun _ _ _ _ _ hs hc => ⟨(commit_sound hs hc).1, (commit_cases hs hc).later⟩) hs).2

/-! ## Messages -/

section
variable {e : Error} (he : e.Computed)
include he

/-- **A stored lease is read back.** -/
theorem spares_leaseRequestDisposition (hs : Sound now d.toTables) (row : RequestRow) :
    Spares e (leaseRequestDisposition row) d := by
  unfold leaseRequestDisposition
  split
  · simp only [assignmentLease, spares_bind, spares_orRaise, spares_tables, spares_orThrow, spares_pure,
      returns_orRaise, returns_tables, true_and, implies_true, and_true]
    refine ⟨fun _ => he.ne .type not_false, ?_⟩
    rintro i _ ⟨_, rfl⟩ _ _ ⟨rfl, rfl⟩
    refine ⟨fun _ => he.ne (.invalidState _) not_false, ?_⟩
    rintro l _ ⟨hl, rfl⟩ _ _ ⟨rfl, rfl⟩
    refine ⟨fun _ => he.ne (.invalidState _) not_false, ?_⟩
    rintro a _ ⟨ha, rfl⟩ hb
    obtain ⟨hc, hi, hd⟩ := hs.inOrder (Rows.mem_of_get _ hl) ha
    rw [buildLease_builds hc hi hd] at hb
    cases hb
  · exact spares_pure _

theorem spares_validateLeaseRequestBody (hs : Sound now d.toTables) (q : LeaseRequest) (digest : Digest) (t : Time) :
    Spares e (validateLeaseRequestBody q digest t) d := by
  simp only [validateLeaseRequestBody, spares_bind, spares_tables, returns_tables, true_and]
  rintro _ _ ⟨rfl, rfl⟩
  split
  · simp only [spares_bind, spares_raiseIf, returns_raiseIf]
    refine ⟨fun _ => he.ne (.conflict _) not_false, ?_⟩
    rintro _ _ ⟨_, rfl⟩
    exact spares_leaseRequestDisposition he hs _
  · simp [spares_compatibleSession he, spares_validatePolicyIds he, spares_exec he, he.ne (.conflict _) not_false,
      he.ne (.capacity _) not_false]

theorem spares_markLeaseRequestNoWorkBody (hs : Sound now d.toTables) (i : OpaqueId) (t : Time) :
    Spares e (markLeaseRequestNoWorkBody i t) d := by
  have hraise : unvalidated ≠ e := he.ne unvalidated not_false
  simp only [markLeaseRequestNoWorkBody, spares_bind, spares_tables, spares_orRaise, returns_tables, returns_orRaise,
    true_and]
  rintro _ _ ⟨rfl, rfl⟩
  refine ⟨fun _ => hraise, ?_⟩
  rintro row _ ⟨_, rfl⟩
  split
  · simp only [completeRequest, spares_bind, spares_tables, spares_orRaise, returns_tables, returns_orRaise, true_and]
    refine ⟨spares_exec he _, ?_⟩
    rintro _ s h _ _ ⟨rfl, rfl⟩
    refine ⟨fun _ => hraise, ?_⟩
    rintro row' _ ⟨_, rfl⟩
    refine spares_leaseRequestDisposition he ((steady_completeRequest i .noWork none t _ _ _ hs h).1) _
  · exact spares_leaseRequestDisposition he hs _

theorem spares_associateBody (hs : Sound now d.toTables) (q : LeaseRequest) (first : AssignmentLease)
    (offered : List (AssignmentLease × Time)) (t : Time) : Spares e (associateBody q first offered t) d := by
  simp only [associateBody, spares_bind, spares_tables, spares_orRaise, returns_tables, returns_orRaise, true_and]
  rintro _ _ ⟨rfl, rfl⟩
  refine ⟨fun _ => he.ne unvalidated not_false, ?_⟩
  rintro row _ ⟨_, rfl⟩
  refine ⟨spares_leaseRequestDisposition he hs _, fun x s _ => ?_⟩
  split
  · simp [he.ne (.conflict _) not_false]
  · have hoffered : ∀ (x : AssignmentLease × Time) (s : Db), Spares e (validateOfferedLease q x.1 x.2) s := by
      intro x s
      simp [validateOfferedLease, spares_assignment he, he.ne (.conflict _) not_false]
    simp [completeRequest, spares_exec he, spares_forEach _ _ fun x _ s => hoffered x s, he.ne (.conflict _) not_false]

/-- **A request is answered without a computed error**, as long as no lease expires on one. -/
theorem spares_leaseNextBody (hs : Sound now d.toTables) (q : LeaseRequest) (duration : Time) (i : OpaqueId)
    (hd : ∀ x ∈ expiredLeases d.toTables now, retryDelay env x.assignment.attemptCount ≠ .error e) :
    Spares e (leaseNextBody env q duration i now) d := by
  simp only [leaseNextBody, spares_bind, spares_tables, spares_orRaise, returns_tables, returns_orRaise, true_and]
  rintro _ _ ⟨rfl, rfl⟩
  refine ⟨fun _ => he.ne unvalidated not_false, ?_⟩
  rintro row _ ⟨_, rfl⟩
  refine ⟨spares_leaseRequestDisposition he hs _, fun x s h => ?_⟩
  obtain ⟨rfl, _⟩ := returns_leaseRequestDisposition h
  split
  · exact spares_pure _
  · exact spares_pure _
  · have hset : Error.invalidState "scheduler settings have not been configured" ≠ e :=
      he.ne (.invalidState _) not_false
    simp only [spares_bind, spares_tables, spares_orRaise, true_and]
    refine ⟨spares_expireLeasesBody he env hd, fun _ s _ => ⟨spares_compatibleSession he _ _, fun _ s _ => ?_⟩⟩
    refine ⟨spares_validatePolicyIds he _, fun _ s _ _ s _ => ⟨fun _ => hset, fun _ s _ _ s _ => ⟨fun _ => hset, ?_⟩⟩⟩
    refine fun _ s _ => ⟨spares_cancelStaleTrainGroups he _, fun _ s _ _ s _ => ?_⟩
    split
    · exact spares_pure _
    · exact spares_grantToRequest he _ _ _ _

theorem spares_createLeaseBody (i worker session lease : OpaqueId) (duration : Time) :
    Spares e (createLeaseBody i worker session lease duration now) d := by
  have hinvalid : ∀ m, Error.invalidState m ≠ e := fun m => he.ne (.invalidState m) not_false
  simp only [createLeaseBody, spares_bind, spares_raiseIf, deadlinePassed]
  refine ⟨spares_assignment he _, fun a s _ => ⟨fun _ => hinvalid _, fun _ s _ => ⟨fun _ => hinvalid _, ?_⟩⟩⟩
  refine fun _ s _ => ⟨spares_compatibleSession he _ _, fun _ s _ => ⟨fun _ => hinvalid _, fun _ s _ => ?_⟩⟩
  split
  · simp [spares_terminalizeWithoutEnvelope he]
  · simp [grantLease, spares_exec he, he.ne (.capacity _) not_false]

theorem spares_renewBody (r : RenewalArgs) : Spares e (renewBody r now) d := by
  have hinvalid : ∀ m, Error.invalidState m ≠ e := fun m => he.ne (.invalidState m) not_false
  have hconflict : ∀ m, Error.conflict m ≠ e := fun m => he.ne (.conflict m) not_false
  simp only [renewBody, spares_bind, spares_tables, spares_raiseIf, spares_orRaise, true_and]
  refine ⟨spares_reconcileStaleWork he, fun _ s _ _ s _ => ⟨fun _ => hconflict _, fun _ s _ => ?_⟩⟩
  refine ⟨fun _ => hinvalid _, fun l s _ => ⟨fun _ => hinvalid _, fun _ s _ => ⟨fun _ => hconflict _, fun _ s _ => ?_⟩⟩⟩
  intro _ s _
  split
  · simp [deliverCancellation, spares_exec he, hinvalid]
  · simp [spares_assignment he, spares_exec he, deadlinePassed, hinvalid, hconflict]

end

/-- No delay of an expiring lease is a validator's error. -/
theorem retryDelay_ne_validation (env : Env) (n : Nat) : retryDelay env n ≠ .error .validation := fun h => by
  cases retryDelay_error h

/-- **A waiting assignment's new lease is built.** -/
theorem buildLease_grant (hs : Sound now d.toTables) {a : AssignmentRow} (ha : d.assignment? a.assignmentId = some a)
    (hav : a.availableAt ≤ now) {duration : Time} (he : now < leaseExpiry now duration a.deadlineAt) (i k s : OpaqueId)
    (n : Nat) :
    ∃ lease, buildLease i n k s now (leaseExpiry now duration a.deadlineAt) a.assignment = .ok lease := by
  have ht := (hs.wf _ _ (life?_of_assignment ha)).timed
  exact ⟨_, buildLease_builds (ht.available.trans hav) he fun t h => leaseExpiry_le now duration t (ht.deadline.symm ▸ h)⟩

theorem next_timed (hs : w.Sound env) (q : LeaseRequest) (duration : Time) (i : OpaqueId) :
    Wp (leaseNextCompatible env q duration i) (fun _ w' => w'.Sound env) (fun e _ => e ≠ .validation) w := by
  simp only [leaseNextCompatible, wp_bind, wp_raiseUnless, wp_readClock]
  refine ⟨fun _ => wp_transaction_spares (fun answer d n h => ?_) ?_ (by decide), fun _ => by simp⟩
  · have hs' : Sound (env.clock w.reads) d.toTables := (steady_leaseNextBody env q duration i _ _ _ (sound_clock hs) h).1
    cases returns_leaseNextBody (sound_clock hs) h with
    | recorded | refused | nothing => exact hs'
    | granted row hr hst d₁ d₂ _ h₁ a ha h₂ =>
      obtain ⟨hm, hl⟩ := leaseCandidates_leasable ha
      obtain ⟨_, hav, -⟩ := leasable_iff hl
      obtain ⟨lease, hb⟩ := buildLease_grant h₁.sound (Rows.get_of_mem _ d₁.ok.assignments.key hm) hav
        (grantLease_expires h₂) i q.workerId q.workerSessionId (a.attemptCount + 1)
      dsimp only
      rw [hb]
      exact hs'
  · exact spares_leaseNextBody computed_validation (sound_clock hs) q duration i fun x _ => retryDelay_ne_validation env _

theorem createLease_timed (hs : w.Sound env) (i worker session lease : OpaqueId) (duration : Time) :
    Wp (createLease env i worker session lease duration) (fun _ _ => True) (fun e _ => e ≠ .validation) w := by
  simp only [createLease, expireLeases, wp_bind, wp_raiseUnless, wp_readClock]
  refine ⟨fun _ => wp_transaction_spares (fun _ d₁ n h₁ => ?_) ?_ (by decide), fun _ => by simp⟩
  · have hs₁ : Sound (env.clock w.reads) d₁.toTables := (steady_expireBody env _ _ _ (sound_clock hs) h₁).1
    have hs₁ : Sound (env.clock (w.reads + 1)) d₁.toTables := hs₁.mono (env.clock_mono (Nat.le_succ _))
    refine wp_transaction_spares (fun answer d n h => ?_) (spares_createLeaseBody computed_validation _ _ _ _ _) (by decide)
    obtain ⟨a, ha, _, hav, ⟨rfl, _⟩ | ⟨rfl, -, -, hgrant⟩⟩ := returns_createLeaseBody h
    · simp [deadlinePassed]
    · obtain ⟨l, hb⟩ := buildLease_grant hs₁ ha hav (grantLease_expires hgrant) lease worker session (a.attemptCount + 1)
      dsimp only at hb ⊢
      rw [hb]
      trivial
  · simp only [expireBody, spares_bind]
    refine ⟨spares_reconcileStaleWork computed_validation, fun _ s _ => ?_⟩
    exact spares_expireLeasesBody computed_validation env fun x _ => retryDelay_ne_validation env _

/-- **What a renewal that returns found and wrote.** -/
structure Renewed (r : RenewalArgs) (now : Time) (d : Db) (l : LeaseRow) (a : AssignmentRow) (expiresAt : Time) :
    Prop where
  lease : d.lease? r.leaseId = some l
  active : l.state = .active
  unexpired : now < l.expiresAt
  owner : l.workerId = r.workerId ∧ l.workerSessionId = r.workerSessionId
  uncancelled : d.leaseCancellation? r.leaseId = none
  assignment : d.assignment? l.assignmentId = some a
  deadline : due a.deadlineAt now = false
  expiry : expiresAt = renewedExpiry l a.deadlineAt now r.duration

theorem returns_renewBody {r : RenewalArgs} {l : LeaseRow} {a : AssignmentRow} {t : Time}
    (h : Returns (renewBody r now) d (.inr (l, a, t)) d') :
    ∃ d₁, Returns (reconcileStaleWork now) d () d₁ ∧ Renewed r now d₁ l a t := by
  simp only [renewBody, returns_bind, returns_tables, returns_raiseIf, returns_orRaise] at h
  obtain ⟨_, d₁, h₁, _, _, ⟨rfl, rfl⟩, _, _, ⟨_, rfl⟩, l₀, _, ⟨hl, rfl⟩, _, _, ⟨hact, rfl⟩, _, _, ⟨hown, rfl⟩, _, d₀,
    ⟨rfl, rfl⟩, h⟩ := h
  rw [not_or, not_not, not_le] at hact
  rw [not_or, not_not, not_not] at hown
  split at h
  · simp only [returns_bind, returns_pure, reduceCtorEq, false_and, and_false, exists_false] at h
  · rename_i hc
    simp only [returns_bind, returns_raiseIf, returns_pure, Sum.inr.injEq, Prod.mk.injEq] at h
    obtain ⟨_, _, ⟨_, rfl⟩, a₀, _, ha, _, _, ⟨hdl, rfl⟩, _, d₂, h₂, ⟨rfl, rfl, rfl⟩, rfl⟩ := h
    obtain ⟨ha, rfl⟩ := returns_assignment ha
    rw [Bool.not_eq_true] at hdl
    exact ⟨_, h₁, hl, hact.1, hact.2, hown, hc, ha, hdl, rfl⟩

/-- **A renewed lease is built.** -/
theorem Renewed.builds {r : RenewalArgs} {l : LeaseRow} {a : AssignmentRow} {t : Time} (h : Renewed r now d l a t)
    (hs : Sound now d.toTables) :
    ∃ lease, buildLease r.leaseId l.attempt r.workerId r.workerSessionId l.issuedAt t a.assignment = .ok lease := by
  have hm := Rows.mem_of_get _ h.lease
  obtain ⟨hc, hi, _⟩ := hs.inOrder hm h.assignment
  have ht := (hs.wf _ _ (life?_of_assignment h.assignment)).timed
  obtain ⟨hle, hd⟩ := renewedExpiry_bounds now r.duration (hs.expires_le hm h.assignment)
  rw [h.expiry]
  exact ⟨_, buildLease_builds hc (hi.trans_le hle) fun t' h' => hd t' (ht.deadline.symm ▸ h')⟩

theorem renewLease_timed (hs : w.Sound env) (r : RenewalArgs) :
    Wp (renewLease env r) (fun _ _ => True) (fun e _ => e ≠ .validation) w := by
  simp only [renewLease, wp_bind, wp_raiseUnless, wp_readClock]
  refine ⟨fun _ => wp_transaction_spares (fun answer d n h => ?_) (spares_renewBody computed_validation r) (by decide),
    fun _ => by simp⟩
  cases answer with
  | inl reason => trivial
  | inr x =>
    obtain ⟨l, a, t⟩ := x
    obtain ⟨d₁, h₁, hr⟩ := returns_renewBody h
    obtain ⟨lease, hb⟩ := hr.builds (reconcileStaleWork_sound (sound_clock hs) h₁).1.1
    dsimp only
    rw [hb]
    trivial

/-! ### Creating on demand -/

/-- A source's deadline lies ahead, so each of its new assignments passes its validator. -/
theorem sourceAssignments_build {d : Db} {source : SourceRow} (hm : source ∈ d.sources) (policy : PolicyManifest)
    (task : JsonText) (t : Time) (g : OpaqueId) (ids : Nat → OpaqueId) :
    (List.range source.groupSize).mapM (sourceAssignment source policy task t
      (source.assignmentTimeoutSeconds.map (t + ·)) g ids) ≠ .error .validation := by
  obtain ⟨as, has⟩ := mapM_exists (l := List.range source.groupSize) (f := sourceAssignment source policy task t
      (source.assignmentTimeoutSeconds.map (t + ·)) g ids) fun k hk => by
    have hdl : ∀ x ∈ source.assignmentTimeoutSeconds.map (t + ·), t < x := by
      intro x hx
      obtain ⟨timeout, ht, rfl⟩ := Option.mem_map.1 hx
      exact lt_add_of_pos_right t (d.ok.sources.timeout source hm timeout ht)
    exact ⟨_, dif_pos ⟨List.mem_range.1 hk, hdl⟩⟩
  rw [has]
  simp

theorem spares_createNextGroupBody (env : Env) (kind : Option Kind) (ids : Nat → OpaqueId) (artifacts : Artifacts)
    (t : Time) : Spares .validation (createNextGroupBody env kind ids artifacts t) d := by
  have hexec : ∀ (f : Tables → Tables) (s : Db), Spares .validation (exec f) s := fun f s =>
    spares_exec computed_validation f
  simp only [createNextGroupBody, spares_bind, spares_tables, returns_tables, true_and]
  rintro _ _ ⟨rfl, rfl⟩
  split
  · exact spares_pure _
  · rename_i source hs
    have hm := List.mem_of_mem_head? hs
    rw [servedSources, Rows.mem_orderBy] at hm
    have hm := List.mem_of_mem_filter hm
    simp only [verifyPolicyRow, spares_bind, spares_tables, spares_orRaise, spares_raiseIf, returns_tables,
      returns_orRaise, returns_raiseIf, true_and]
    rintro _ _ ⟨rfl, rfl⟩
    refine ⟨fun _ => by simp, ?_⟩
    rintro policy _ ⟨_, rfl⟩
    refine ⟨fun _ => by simp, ?_⟩
    rintro _ _ ⟨_, rfl⟩
    refine ⟨fun _ => by simp, ?_⟩
    rintro task _ ⟨_, rfl⟩ _ _ ⟨rfl, rfl⟩
    split
    · simp [existingGroup, hexec]
    · simp only [newGroup, allocateGroupSequence, insertAssignment, spares_map, spares_bind, spares_tables,
        spares_orThrow, spares_pure, true_and]
      refine ⟨fun _ s _ => ⟨hexec _ _, fun _ _ _ => trivial⟩, fun _ s _ => ⟨sourceAssignments_build hm _ _ _ _ _, ?_⟩⟩
      exact fun _ s _ => ⟨hexec _ _, fun _ s _ => ⟨spares_forEach _ _ fun _ _ _ => hexec _ _, fun _ s _ =>
        ⟨hexec _ _, fun _ _ _ => trivial⟩⟩⟩

theorem nextOrCreate_timed (hs : w.Sound env) (q : LeaseRequest) (duration : Time) (draws : Draws)
    (artifacts : Artifacts) :
    Wp (leaseOrCreateNextCompatible env q duration draws artifacts) (fun _ _ => True) (fun e _ => e ≠ .validation) w := by
  simp only [leaseOrCreateNextCompatible, wp_bind]
  refine (next_timed hs q duration draws.firstLease).imp (fun lease w₁ hs₁ => ?_) fun _ _ h => h
  split
  · trivial
  · simp only [leaseRequestCanGenerate, createNextGroup, wp_bind, wp_readClock]
    refine wp_transaction_spares (fun can d₂ n₂ h₂ => ?_) ?_ (by decide)
    · have hs₂ : Sound (env.clock w₁.reads) d₂.toTables :=
        ((sound_clock hs₁).of_rows fun k _ =>
          writes_leaseRequestCanGenerateBody (S := []) _ _ _ _ _ h₂ k List.not_mem_nil).1
      split
      · simp only [wp_bind, wp_readClock]
        refine wp_transaction_spares (fun made d₃ n₃ h₃ => ?_) (spares_createNextGroupBody _ _ _ _ _) (by decide)
        have hs₃ : Sound (env.clock (w₁.reads + 1)) d₃.toTables :=
          (createNextGroupBody_sound (hs₂.mono (env.clock_mono (Nat.le_succ _))) ⟨_, h₃⟩).1
        split
        · trivial
        · exact (next_timed (by exact hs₃) q duration draws.secondLease).imp (fun _ _ _ => trivial) fun _ _ h => h
      · trivial
    · simp only [leaseRequestCanGenerateBody, spares_bind, spares_tables, true_and]
      intro t s _
      split <;> exact spares_pure _

/-! ### Offers -/

theorem wp_readClocks (env : Env) {E : Error → World → Prop} : ∀ (n : Nat) (w : World),
    Wp (readClocks env n) (fun _ w' => w'.db = w.db) E w
  | 0, _ => rfl
  | n + 1, w => by
    simp only [readClocks, wp_bind, wp_readClock]
    exact wp_readClocks env n { w with reads := w.reads + 1 }

theorem associate_timed (hs : w.Sound env) (q : LeaseRequest) (lease : AssignmentLease) :
    Wp (associateOfferedLease env q lease) (fun _ _ => True) (fun e _ => e ≠ .validation) w := by
  simp only [associateOfferedLease, wp_bind, wp_readClock]
  exact wp_transaction_spares (fun _ _ _ _ => trivial) (spares_associateBody computed_validation hs q lease _ _) (by decide)

theorem associateAll_timed (hs : w.Sound env) (q : LeaseRequest) (leases : List AssignmentLease) :
    Wp (associateOfferedLeases env q leases) (fun _ _ => True) (fun e _ => e ≠ .validation) w := by
  unfold associateOfferedLeases
  cases leases with
  | nil => simp
  | cons first rest =>
    simp only [wp_bind, wp_readClock]
    refine (wp_readClocks env _ w).imp (fun nows w' hdb => ?_) fun _ _ h => h
    refine wp_transaction_spares (fun _ _ _ _ => trivial) ?_ (by decide)
    exact spares_associateBody computed_validation (by simp only [hdb]; exact hs) q first _ _

/-! ## Every run -/

/-- **A stored lease is read back with its times.** -/
theorem assignmentLease_reads (hs : Sound now d.toTables) {l : LeaseRow} (hl : l ∈ d.leases) {a : AssignmentRow}
    (ha : d.assignment? l.assignmentId = some a) : ∃ lease, assignmentLease l.leaseId d = .ok (lease, d) ∧
      lease.issuedAt = l.issuedAt ∧ lease.expiresAt = l.expiresAt := by
  obtain ⟨hc, hi, hd⟩ := hs.inOrder hl ha
  have hget : d.lease? l.leaseId = some l := Rows.get_of_mem _ d.ok.leases.key hl
  refine ⟨⟨l.leaseId, l.attempt, l.workerId, l.workerSessionId, l.issuedAt, l.expiresAt, a.assignment, hi, hc, hd⟩, ?_,
    rfl, rfl⟩
  show Returns _ _ _ _
  simp only [assignmentLease, returns_bind, returns_tables, returns_orRaise, returns_orThrow]
  exact ⟨_, _, ⟨rfl, rfl⟩, l, _, ⟨hget, rfl⟩, _, _, ⟨rfl, rfl⟩, a, _, ⟨ha, rfl⟩, buildLease_builds hc hi hd, rfl⟩

/-- No call that builds a message for a new, a renewed or a replayed lease fails its validation. -/
structure BuildsLeases (env : Env) (w : World) : Prop where
  next : ∀ q duration i, (leaseNextCompatible env q duration i w).1 ≠ .error .validation
  nextOrCreate : ∀ q duration draws artifacts,
    (leaseOrCreateNextCompatible env q duration draws artifacts w).1 ≠ .error .validation
  create : ∀ i worker session lease duration, (createLease env i worker session lease duration w).1 ≠ .error .validation
  renew : ∀ r, (renewLease env r w).1 ≠ .error .validation
  validate : ∀ q, (validateLeaseRequest env q w).1 ≠ .error .validation
  noWork : ∀ i, (markLeaseRequestNoWork env i w).1 ≠ .error .validation
  associate : ∀ q lease, (associateOfferedLease env q lease w).1 ≠ .error .validation
  associateAll : ∀ q leases, (associateOfferedLeases env q leases w).1 ≠ .error .validation

theorem World.Sound.buildsLeases (hs : w.Sound env) : BuildsLeases env w := by
  have hbody : ∀ {α : Type} (body : Time → Body α), (∀ t, Spares .validation (body t) w.db) →
      Wp (do let now ← readClock env; transaction (body now)) (fun _ _ => True) (fun e _ => e ≠ .validation) w :=
    fun body hb => wp_transaction_spares (fun _ _ _ _ => trivial) (hb _) (by decide)
  exact {
    next := fun q duration i => (next_timed hs q duration i).spared
    nextOrCreate := fun q duration draws artifacts => (nextOrCreate_timed hs q duration draws artifacts).spared
    create := fun i worker session lease duration => (createLease_timed hs i worker session lease duration).spared
    renew := fun r => (renewLease_timed hs r).spared
    validate := fun q => (hbody _ fun t => spares_validateLeaseRequestBody computed_validation hs q _ t).spared
    noWork := fun i => (hbody _ fun t => spares_markLeaseRequestNoWorkBody computed_validation hs i t).spared
    associate := fun q lease => (associate_timed hs q lease).spared
    associateAll := fun q leases => (associateAll_timed hs q leases).spared }

/-- **The timing of leases**: in every state a run reaches the times of a stored lease are in order and its message can
be read back; whatever follows, no lease is lost and none runs out earlier; and there no lease message fails its
validation. -/
theorem lease_timing (env : Env) (steps : List Step) :
    (∀ l ∈ (reached env steps).db.leases, ∃ a ∈ (reached env steps).db.assignments, a.assignmentId = l.assignmentId ∧
      InOrder l a ∧ ∃ lease, assignmentLease l.leaseId (reached env steps).db = .ok (lease, (reached env steps).db) ∧
        lease.issuedAt = l.issuedAt ∧ lease.expiresAt = l.expiresAt) ∧
    (∀ more, Later (reached env steps).db.toTables (reached env (steps ++ more)).db.toTables) ∧
    ∀ crashAfter torn, BuildsLeases env { reached env steps with crashAfter := crashAfter, torn := torn } := by
  have hs := reached_sound env steps
  refine ⟨fun l hl => ?_, fun more => ?_, fun crashAfter torn => World.Sound.buildsLeases hs⟩
  · obtain ⟨a, ha, hid⟩ := (reached env steps).db.ok.leases.assignment l hl
    have hget : (reached env steps).db.assignment? l.assignmentId = some a :=
      hid ▸ Rows.get_of_mem _ (reached env steps).db.ok.assignments.key ha
    exact ⟨a, ha, hid, hs.inOrder hl hget, assignmentLease_reads hs hl hget⟩
  · rw [reached, reached, runFrom_append]
    exact runFrom_later env more hs

end Aether
