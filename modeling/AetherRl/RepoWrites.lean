import AetherRl.Footprint
import AetherRl.RepoCommit
/-!
# RepoWrites — the tables each call writes

`Table` names the tables, `Tables.rows` reads one, and every statement and body gets its footprint: the list of tables
outside which nothing changes.  The columns of a group, an assignment and a result that no `UPDATE` touches count as
tables of their own, so that a change of state is told from a change of identity.  `Call.writes` is the summary for the
public calls and `commit_rows` the theorem that it is right.
-/
namespace Aether

open Txn (Returns Writes)
open Tables Repo

/-! ## Columns that never change -/

def AssignmentRow.fixed (a : AssignmentRow) : AssignmentRow :=
  { a with state := .pending, attemptCount := 0, availableAt := 0, currentLeaseId := none }

def LeaseRow.fixed (l : LeaseRow) : LeaseRow := { l with expiresAt := 0, state := .active, lastRenewSentAt := none }

def ResultRow.fixed (r : ResultRow) : ResultRow := { r with processingState := .pending }

def GroupRow.fixed (g : GroupRow) : GroupRow := { g with state := .collecting }

attribute [grind =] GroupRow.fixed AssignmentRow.fixed LeaseRow.fixed ResultRow.fixed markFailed

inductive Table
  | run | policies | workers | sessions | groups | assignments | leases | results | failures | outcomes | scheduler
  | sources | cancellations | leaseCancellations | requests | batches | processedGroups | processedRollouts
  | fixedGroups | fixedAssignments | fixedLeases | fixedResults | maxPolicyLag
deriving DecidableEq

def Table.Rows : Table → Type
  | .run => Option RunRow
  | .policies => List PolicyRow
  | .workers => List WorkerRow
  | .sessions => List SessionRow
  | .groups => List GroupRow
  | .assignments => List AssignmentRow
  | .leases => List LeaseRow
  | .results => List ResultRow
  | .failures => List FailureRow
  | .outcomes => List OutcomeRow
  | .scheduler => SchedulerRow
  | .sources => List SourceRow
  | .cancellations => List CancellationRow
  | .leaseCancellations => List LeaseCancellationRow
  | .requests => List RequestRow
  | .batches => List BatchRow
  | .processedGroups => List ProcessedGroupRow
  | .processedRollouts => List ProcessedRolloutRow
  | .fixedGroups => List GroupRow
  | .fixedAssignments => List AssignmentRow
  | .fixedLeases => List LeaseRow
  | .fixedResults => List ResultRow
  | .maxPolicyLag => Option Int

def Tables.rows (t : Tables) : (k : Table) → k.Rows
  | .run => t.run
  | .policies => t.policies
  | .workers => t.workers
  | .sessions => t.sessions
  | .groups => t.groups
  | .assignments => t.assignments
  | .leases => t.leases
  | .results => t.results
  | .failures => t.failures
  | .outcomes => t.outcomes
  | .scheduler => t.scheduler
  | .sources => t.sources
  | .cancellations => t.cancellations
  | .leaseCancellations => t.leaseCancellations
  | .requests => t.requests
  | .batches => t.batches
  | .processedGroups => t.processedGroups
  | .processedRollouts => t.processedRollouts
  | .fixedGroups => t.groups.map GroupRow.fixed
  | .fixedAssignments => t.assignments.map AssignmentRow.fixed
  | .fixedLeases => t.leases.map LeaseRow.fixed
  | .fixedResults => t.results.map ResultRow.fixed
  | .maxPolicyLag => t.scheduler.maxPolicyLag

def Db.rows (d : Db) : (k : Table) → k.Rows := d.toTables.rows

variable {α : Type} {S : List Table}

/-! ## Statements -/

@[grind .] theorem writes_tables : Writes Db.rows S tables := by
  intro d a d' h k _
  rw [returns_tables] at h
  rw [h.2]

theorem writes_exec {f : Tables → Tables} (K : List Table) (hK : K ⊆ S) (h : ∀ t j, j ∉ K → (f t).rows j = t.rows j) :
    Writes Db.rows S (exec f) := by
  intro d b d' hd j hj
  rw [returns_exec] at hd
  show d'.toTables.rows j = _
  rw [hd]
  exact h _ j (fun e => hj (hK e))

@[grind .] theorem writes_setRun (f : RunRow → RunRow) (h : .run ∈ S) : Writes Db.rows S (exec (setRun f)) :=
  writes_exec [.run] (by simpa using h) fun _ j hj => by cases j <;> first | rfl | exact absurd (by decide) hj

@[grind .] theorem writes_setScheduler (f : SchedulerRow → SchedulerRow) (h : .scheduler ∈ S)
    (hf : ∀ s, (f s).maxPolicyLag = s.maxPolicyLag) : Writes Db.rows S (exec (setScheduler f)) :=
  writes_exec [.scheduler] (by simpa using h) fun _ j hj => by
    cases j <;> first | rfl | exact hf _ | exact absurd (by decide) hj

@[grind .] theorem writes_setScheduler_lag (f : SchedulerRow → SchedulerRow) (h : .scheduler ∈ S)
    (hl : .maxPolicyLag ∈ S) : Writes Db.rows S (exec (setScheduler f)) :=
  writes_exec [.scheduler, .maxPolicyLag] (by simp [h, hl]) fun _ j hj => by
    cases j <;> first | rfl | exact absurd (by decide) hj

@[grind .] theorem writes_setSession (i : OpaqueId) (f : SessionRow → SessionRow) (h : .sessions ∈ S) :
    Writes Db.rows S (exec (setSession i f)) :=
  writes_exec [.sessions] (by simpa using h) fun _ j hj => by cases j <;> first | rfl | exact absurd (by decide) hj

@[grind .] theorem writes_setGroup (i : OpaqueId) (f : GroupRow → GroupRow) (h : .groups ∈ S)
    (hf : ∀ g, (f g).fixed = g.fixed) : Writes Db.rows S (exec (setGroup i f)) :=
  writes_exec [.groups] (by simpa using h) fun t j hj => by
    cases j <;> first | rfl | exact Rows.map_set _ _ i f t.groups (fun g _ _ => hf g) | exact absurd (by decide) hj

@[grind .] theorem writes_setAssignment (i : OpaqueId) (f : AssignmentRow → AssignmentRow) (h : .assignments ∈ S)
    (hf : ∀ a, (f a).fixed = a.fixed) : Writes Db.rows S (exec (setAssignment i f)) :=
  writes_exec [.assignments] (by simpa using h) fun t j hj => by
    cases j <;> first | rfl | exact Rows.map_set _ _ i f t.assignments (fun a _ _ => hf a) | exact absurd (by decide) hj

@[grind .] theorem writes_setLease (i : OpaqueId) (f : LeaseRow → LeaseRow) (h : .leases ∈ S)
    (hf : ∀ l, (f l).fixed = l.fixed) : Writes Db.rows S (exec (setLease i f)) :=
  writes_exec [.leases] (by simpa using h) fun t j hj => by
    cases j <;> first | rfl | exact Rows.map_set _ _ i f t.leases (fun l _ _ => hf l) | exact absurd (by decide) hj

@[grind .] theorem writes_setResults (f : ResultRow → ResultRow) (h : .results ∈ S) (hf : ∀ r, (f r).fixed = r.fixed) :
    Writes Db.rows S (exec (setResults f)) :=
  writes_exec [.results] (by simpa using h) fun t j hj => by
    have hm : (t.results.map f).map ResultRow.fixed = t.results.map ResultRow.fixed := by
      rw [List.map_map]
      exact List.map_congr_left (fun r _ => hf r)
    cases j <;> first | rfl | exact hm | exact absurd (by decide) hj

@[grind .] theorem writes_setSource (i : OpaqueId) (f : SourceRow → SourceRow) (h : .sources ∈ S) :
    Writes Db.rows S (exec (setSource i f)) :=
  writes_exec [.sources] (by simpa using h) fun _ j hj => by cases j <;> first | rfl | exact absurd (by decide) hj

@[grind .] theorem writes_setCancellation (i : OpaqueId) (f : CancellationRow → CancellationRow)
    (h : .cancellations ∈ S) : Writes Db.rows S (exec (setCancellation i f)) :=
  writes_exec [.cancellations] (by simpa using h) fun _ j hj => by cases j <;> first | rfl | exact absurd (by decide) hj

@[grind .] theorem writes_setLeaseCancellation (i : OpaqueId) (f : LeaseCancellationRow → LeaseCancellationRow)
    (h : .leaseCancellations ∈ S) : Writes Db.rows S (exec (setLeaseCancellation i f)) :=
  writes_exec [.leaseCancellations] (by simpa using h) fun _ j hj => by cases j <;> first | rfl | exact absurd (by decide) hj

@[grind .] theorem writes_setRequest (i : OpaqueId) (f : RequestRow → RequestRow) (h : .requests ∈ S) :
    Writes Db.rows S (exec (setRequest i f)) :=
  writes_exec [.requests] (by simpa using h) fun _ j hj => by cases j <;> first | rfl | exact absurd (by decide) hj

@[grind .] theorem writes_setProcessedRollouts (f : ProcessedRolloutRow → ProcessedRolloutRow)
    (h : .processedRollouts ∈ S) : Writes Db.rows S (exec (setProcessedRollouts f)) :=
  writes_exec [.processedRollouts] (by simpa using h) fun _ j hj => by cases j <;> first | rfl | exact absurd (by decide) hj

@[grind .] theorem writes_deleteLease (i : OpaqueId) (h : .leases ∈ S) (hf : .fixedLeases ∈ S) :
    Writes Db.rows S (exec (deleteLease i)) :=
  writes_exec [.leases, .fixedLeases] (by simp [h, hf]) fun _ j hj => by
    cases j <;> first | rfl | exact absurd (by decide) hj

@[grind .] theorem writes_insertRun (r : RunRow) (h : .run ∈ S) : Writes Db.rows S (exec (insertRun r)) :=
  writes_exec [.run] (by simpa using h) fun _ j hj => by cases j <;> first | rfl | exact absurd (by decide) hj

@[grind .] theorem writes_insertPolicy (r : PolicyRow) (h : .policies ∈ S) : Writes Db.rows S (exec (insertPolicy r)) :=
  writes_exec [.policies] (by simpa using h) fun _ j hj => by cases j <;> first | rfl | exact absurd (by decide) hj

@[grind .] theorem writes_insertSession (r : SessionRow) (h : .sessions ∈ S) :
    Writes Db.rows S (exec (insertSession r)) :=
  writes_exec [.sessions] (by simpa using h) fun _ j hj => by cases j <;> first | rfl | exact absurd (by decide) hj

@[grind .] theorem writes_insertGroup (r : GroupRow) (h : .groups ∈ S) (hf : .fixedGroups ∈ S) :
    Writes Db.rows S (exec (insertGroup r)) :=
  writes_exec [.groups, .fixedGroups] (by simp [h, hf]) fun _ j hj => by
    cases j <;> first | rfl | exact absurd (by decide) hj

@[grind .] theorem writes_insertLease (r : LeaseRow) (h : .leases ∈ S) (hf : .fixedLeases ∈ S) :
    Writes Db.rows S (exec (insertLease r)) :=
  writes_exec [.leases, .fixedLeases] (by simp [h, hf]) fun _ j hj => by
    cases j <;> first | rfl | exact absurd (by decide) hj

@[grind .] theorem writes_insertResult (r : ResultRow) (h : .results ∈ S) (hf : .fixedResults ∈ S) :
    Writes Db.rows S (exec (insertResult r)) :=
  writes_exec [.results, .fixedResults] (by simp [h, hf]) fun _ j hj => by
    cases j <;> first | rfl | exact absurd (by decide) hj

@[grind .] theorem writes_insertFailure (r : FailureRow) (h : .failures ∈ S) :
    Writes Db.rows S (exec (insertFailure r)) :=
  writes_exec [.failures] (by simpa using h) fun _ j hj => by cases j <;> first | rfl | exact absurd (by decide) hj

@[grind .] theorem writes_insertOutcome (r : OutcomeRow) (h : .outcomes ∈ S) :
    Writes Db.rows S (exec (insertOutcome r)) :=
  writes_exec [.outcomes] (by simpa using h) fun _ j hj => by cases j <;> first | rfl | exact absurd (by decide) hj

theorem writes_insertSource (f : Tables → SourceRow) (h : .sources ∈ S) :
    Writes Db.rows S (exec fun t => insertSource (f t) t) :=
  writes_exec [.sources] (by simpa using h) fun _ j hj => by cases j <;> first | rfl | exact absurd (by decide) hj

@[grind .] theorem writes_insertRequest (r : RequestRow) (h : .requests ∈ S) :
    Writes Db.rows S (exec (insertRequest r)) :=
  writes_exec [.requests] (by simpa using h) fun _ j hj => by cases j <;> first | rfl | exact absurd (by decide) hj

@[grind .] theorem writes_insertBatch (r : BatchRow) (h : .batches ∈ S) : Writes Db.rows S (exec (insertBatch r)) :=
  writes_exec [.batches] (by simpa using h) fun _ j hj => by cases j <;> first | rfl | exact absurd (by decide) hj

@[grind .] theorem writes_insertAssignmentRow (r : AssignmentRow) (h : .assignments ∈ S) (hf : .fixedAssignments ∈ S) :
    Writes Db.rows S (exec (insertAssignmentRow r)) :=
  writes_exec [.assignments, .fixedAssignments] (by simp [h, hf]) fun _ j hj => by
    cases j <;> first | rfl | exact absurd (by decide) hj

@[grind .] theorem writes_insertProcessedGroup (r : ProcessedGroupRow) (h : .processedGroups ∈ S) :
    Writes Db.rows S (exec (insertProcessedGroup r)) :=
  writes_exec [.processedGroups] (by simpa using h) fun _ j hj => by cases j <;> first | rfl | exact absurd (by decide) hj

@[grind .] theorem writes_insertProcessedRollouts (rs : List ProcessedRolloutRow) (h : .processedRollouts ∈ S) :
    Writes Db.rows S (exec (insertProcessedRollouts rs)) :=
  writes_exec [.processedRollouts] (by simpa using h) fun _ j hj => by cases j <;> first | rfl | exact absurd (by decide) hj

@[grind .] theorem writes_insertWorkerOrIgnore (r : WorkerRow) (h : .workers ∈ S) :
    Writes Db.rows S (exec (insertWorkerOrIgnore r)) :=
  writes_exec [.workers] (by simpa using h) fun _ j hj => by cases j <;> first | rfl | exact absurd (by decide) hj

@[grind .] theorem writes_insertOutcomeOrIgnore (r : OutcomeRow) (h : .outcomes ∈ S) :
    Writes Db.rows S (exec (insertOutcomeOrIgnore r)) :=
  writes_exec [.outcomes] (by simpa using h) fun _ j hj => by cases j <;> first | rfl | exact absurd (by decide) hj

@[grind .] theorem writes_insertCancellationOrIgnore (r : CancellationRow) (h : .cancellations ∈ S) :
    Writes Db.rows S (exec (insertCancellationOrIgnore r)) :=
  writes_exec [.cancellations] (by simpa using h) fun _ j hj => by cases j <;> first | rfl | exact absurd (by decide) hj

@[grind .] theorem writes_insertLeaseCancellationOrIgnore (r : LeaseCancellationRow) (h : .leaseCancellations ∈ S) :
    Writes Db.rows S (exec (insertLeaseCancellationOrIgnore r)) :=
  writes_exec [.leaseCancellations] (by simpa using h) fun _ j hj => by cases j <;> first | rfl | exact absurd (by decide) hj

/-! ## Bodies -/

@[grind .] theorem writes_assignment (i : OpaqueId) : Writes Db.rows S (assignment i) := by
  unfold assignment
  grind

@[grind .] theorem writes_run : Writes Db.rows S Repo.run := by
  unfold Repo.run
  grind

@[grind .] theorem writes_recomputeGroup (i : OpaqueId) (h : .groups ∈ S) : Writes Db.rows S (recomputeGroup i) := by
  unfold recomputeGroup
  grind

@[grind .] theorem writes_recomputeGroups (h : .groups ∈ S) : Writes Db.rows S recomputeGroups := by
  unfold recomputeGroups
  grind

@[grind .] theorem writes_retryOrTerminal (env : Env) (a : AssignmentRow) (now : Time) (e : Option FailureEnvelope)
    (digest : Option Digest) (i : OpaqueId) (ha : .assignments ∈ S) (ho : .outcomes ∈ S) :
    Writes Db.rows S (retryOrTerminal env a now e digest i) := by
  unfold retryOrTerminal
  grind

/-- What `_expire_leases` and `_cancel_stale_train_groups` may write. -/
def reapTables : List Table := [.assignments, .leases, .outcomes, .cancellations, .leaseCancellations, .groups]

@[grind →] theorem reapTables_subset (h : reapTables ⊆ S) :
    .assignments ∈ S ∧ .leases ∈ S ∧ .outcomes ∈ S ∧ .cancellations ∈ S ∧ .leaseCancellations ∈ S ∧ .groups ∈ S :=
  ⟨h (by decide), h (by decide), h (by decide), h (by decide), h (by decide), h (by decide)⟩

@[grind .] theorem writes_terminalizeWithoutEnvelope (a : AssignmentRow) (o : Outcome) (now : Time)
    (h : reapTables ⊆ S) : Writes Db.rows S (terminalizeWithoutEnvelope a o now) := by
  unfold terminalizeWithoutEnvelope
  grind

@[grind .] theorem writes_expireLeasesBody (env : Env) (now : Time) (h : reapTables ⊆ S) :
    Writes Db.rows S (expireLeasesBody env now) := by
  have hx : ∀ x, Writes Db.rows S (expireOne env now x) := fun x => by
    unfold expireOne
    grind
  unfold expireLeasesBody
  grind

@[grind .] theorem writes_cancelStaleAssignment (now : Time) (a : AssignmentRow) (ha : .assignments ∈ S)
    (ho : .outcomes ∈ S) (hc : .cancellations ∈ S) (hl : .leaseCancellations ∈ S) :
    Writes Db.rows S (cancelStaleAssignment now a) := by
  unfold cancelStaleAssignment
  grind

@[grind .] theorem writes_cancelStaleGroup (now : Time) (g : GroupRow) (h : reapTables ⊆ S) :
    Writes Db.rows S (cancelStaleGroup now g) := by
  unfold cancelStaleGroup
  grind

@[grind .] theorem writes_cancelStaleTrainGroups (lag : Int) (now : Time) (h : reapTables ⊆ S) :
    Writes Db.rows S (cancelStaleTrainGroups lag now) := by
  unfold cancelStaleTrainGroups
  grind

@[grind .] theorem writes_reconcileStaleWork (now : Time) (h : reapTables ⊆ S) :
    Writes Db.rows S (reconcileStaleWork now) := by
  unfold reconcileStaleWork
  grind

@[grind .] theorem writes_verifyPolicyRow (env : Env) (artifacts : Artifacts) (p : PolicyRow) :
    Writes Db.rows S (verifyPolicyRow env artifacts p) := by
  unfold verifyPolicyRow
  grind

@[grind .] theorem writes_recordPolicyInTransaction (env : Env) (p : PolicyManifest) (path : String)
    (h : .policies ∈ S) : Writes Db.rows S (recordPolicyInTransaction env p path) := by
  unfold recordPolicyInTransaction
  grind

@[grind .] theorem writes_activate (i : OpaqueId) (v : Nat) (now : Time) (h : .run ∈ S) (hr : reapTables ⊆ S) :
    Writes Db.rows S (activate i v now) := by
  unfold activate
  grind

@[grind .] theorem writes_allocateGroupSequence (h : .scheduler ∈ S) : Writes Db.rows S allocateGroupSequence := by
  unfold allocateGroupSequence
  exact Writes.bind writes_tables fun _ => Writes.bind (writes_setScheduler _ h fun _ => rfl) fun _ => Writes.pure _

/-- What the creation of a group may write. -/
def groupTables : List Table := [.groups, .fixedGroups, .assignments, .fixedAssignments]

@[grind →] theorem groupTables_subset (h : groupTables ⊆ S) :
    .groups ∈ S ∧ .fixedGroups ∈ S ∧ .assignments ∈ S ∧ .fixedAssignments ∈ S :=
  ⟨h (by decide), h (by decide), h (by decide), h (by decide)⟩

@[grind .] theorem writes_insertAssignment (env : Env) (a : RolloutAssignment) (n : Nat) (h : groupTables ⊆ S) :
    Writes Db.rows S (insertAssignment env a n) := by
  unfold insertAssignment
  grind

@[grind .] theorem writes_existingGroup (s : SourceRow) (key : String) (g : GroupRow) (h : .sources ∈ S) :
    Writes Db.rows S (existingGroup s key g) := by
  unfold existingGroup
  grind

@[grind .] theorem writes_newGroup (env : Env) (s : SourceRow) (p : PolicyManifest) (task : JsonText) (key : String)
    (now : Time) (ids : Nat → OpaqueId) (hs : .sources ∈ S) (hc : .scheduler ∈ S) (hg : groupTables ⊆ S) :
    Writes Db.rows S (newGroup env s p task key now ids) := by
  unfold newGroup
  refine Writes.bind (writes_allocateGroupSequence hc) fun _ => Writes.bind (Writes.orThrow _) fun _ => ?_
  grind

@[grind .] theorem writes_assignmentLease (i : OpaqueId) : Writes Db.rows S (assignmentLease i) := by
  unfold assignmentLease
  grind

@[grind .] theorem writes_leaseRequestDisposition (r : RequestRow) : Writes Db.rows S (leaseRequestDisposition r) := by
  unfold leaseRequestDisposition
  grind

@[grind .] theorem writes_validatePolicyIds (is : List OpaqueId) : Writes Db.rows S (validatePolicyIds is) := by
  unfold validatePolicyIds
  grind

@[grind .] theorem writes_compatibleSession (i j : OpaqueId) : Writes Db.rows S (compatibleSession i j) := by
  unfold compatibleSession
  grind

@[grind .] theorem writes_completeRequest (i : OpaqueId) (s : RequestState) (l : Option OpaqueId) (now : Time)
    (h : .requests ∈ S) : Writes Db.rows S (completeRequest i s l now) := by
  unfold completeRequest
  grind

@[grind .] theorem writes_validateOfferedLease (r : LeaseRequest) (l : AssignmentLease) (now : Time) :
    Writes Db.rows S (validateOfferedLease r l now) := by
  unfold validateOfferedLease
  grind

@[grind .] theorem writes_associateBody (r : LeaseRequest) (l : AssignmentLease) (ls : List (AssignmentLease × Time))
    (now : Time) (h : .requests ∈ S) : Writes Db.rows S (associateBody r l ls now) := by
  unfold associateBody
  refine Writes.bind writes_tables fun _ => Writes.bind (Writes.orRaise _ _) fun _ => ?_
  refine Writes.bind (writes_leaseRequestDisposition _) fun _ => ?_
  grind

@[grind .] theorem writes_releaseLease (i j : OpaqueId) (now : Time) (hl : .leases ∈ S) (hf : .fixedLeases ∈ S)
    (ha : .assignments ∈ S) : Writes Db.rows S (releaseLease i j now) := by
  unfold releaseLease
  grind

@[grind .] theorem writes_grantLease (a : AssignmentRow) (i j k : OpaqueId) (now e : Time) (hl : .leases ∈ S)
    (hf : .fixedLeases ∈ S) (ha : .assignments ∈ S) : Writes Db.rows S (grantLease a i j k now e) := by
  unfold grantLease
  grind

@[grind .] theorem writes_grantToRequest (r : LeaseRequest) (d : Time) (i : OpaqueId) (p now : Time)
    (hl : .leases ∈ S) (hf : .fixedLeases ∈ S) (ha : .assignments ∈ S) (hr : .requests ∈ S) :
    Writes Db.rows S (grantToRequest r d i p now) := by
  unfold grantToRequest
  grind

@[grind .] theorem writes_leaseNextBody (env : Env) (r : LeaseRequest) (d : Time) (i : OpaqueId) (now : Time)
    (h : reapTables ⊆ S) (hf : .fixedLeases ∈ S) (hr : .requests ∈ S) : Writes Db.rows S (leaseNextBody env r d i now) := by
  unfold leaseNextBody
  refine Writes.bind writes_tables fun _ => Writes.bind (Writes.orRaise _ _) fun _ => ?_
  refine Writes.bind (writes_leaseRequestDisposition _) fun _ => ?_
  split
  any_goals grind
  refine Writes.bind (writes_expireLeasesBody env now h) fun _ => Writes.bind (writes_compatibleSession _ _) fun _ => ?_
  refine Writes.bind (writes_validatePolicyIds _) fun _ => Writes.bind writes_tables fun _ => ?_
  grind

@[grind .] theorem writes_createLeaseBody (i j k l : OpaqueId) (d now : Time) (h : reapTables ⊆ S)
    (hf : .fixedLeases ∈ S) : Writes Db.rows S (createLeaseBody i j k l d now) := by
  unfold createLeaseBody
  refine Writes.bind (writes_assignment _) fun _ => Writes.bind (Writes.raiseIf _ _) fun _ => ?_
  refine Writes.bind (Writes.raiseIf _ _) fun _ => Writes.bind (writes_compatibleSession _ _) fun _ => ?_
  grind

@[grind .] theorem writes_deliverCancellation (i : OpaqueId) (now : Time) (h : .leaseCancellations ∈ S) :
    Writes Db.rows S (deliverCancellation i now) := by
  unfold deliverCancellation
  grind

@[grind .] theorem writes_deliverWhen (c : Bool) (i : OpaqueId) (now : Time) (h : .leaseCancellations ∈ S) :
    Writes Db.rows S (deliverWhen c i now) := by
  unfold deliverWhen
  grind

@[grind .] theorem writes_renewBody (r : RenewalArgs) (now : Time) (h : reapTables ⊆ S) :
    Writes Db.rows S (renewBody r now) := by
  unfold renewBody
  refine Writes.bind (writes_reconcileStaleWork now h) fun _ => Writes.bind writes_tables fun _ => ?_
  refine Writes.bind (Writes.raiseIf _ _) fun _ => Writes.bind (Writes.orRaise _ _) fun _ => ?_
  refine Writes.bind (Writes.raiseIf _ _) fun _ => Writes.bind (Writes.raiseIf _ _) fun _ => ?_
  refine Writes.bind writes_tables fun _ => ?_
  split
  · grind
  · refine Writes.bind (Writes.raiseIf _ _) fun _ => Writes.bind (writes_assignment _) fun _ => ?_
    refine Writes.bind (Writes.raiseIf _ _) fun _ => ?_
    exact Writes.bind (writes_setLease _ _ (h (by decide)) fun _ => rfl) fun _ => Writes.pure _

@[grind .] theorem writes_heartbeatLease (t : Tables) (now d : Time) (i : OpaqueId) (h : reapTables ⊆ S) :
    Writes Db.rows S (heartbeatLease t now d i) := by
  unfold heartbeatLease
  grind

@[grind .] theorem writes_heartbeatLeases (t : Tables) (now d : Time) (h : reapTables ⊆ S) :
    ∀ is, Writes Db.rows S (heartbeatLeases t now d is)
  | [] => Writes.pure ([], [])
  | i :: is => by
    have ih := writes_heartbeatLeases t now d h is
    unfold heartbeatLeases
    grind

@[grind .] theorem writes_heartbeatBody (b : WorkerHeartbeat) (d now : Time) (h : reapTables ⊆ S)
    (hs : .sessions ∈ S) : Writes Db.rows S (heartbeatBody b d now) := by
  unfold heartbeatBody
  refine Writes.bind (writes_reconcileStaleWork now h) fun _ => Writes.bind (writes_compatibleSession _ _) fun _ => ?_
  refine Writes.bind (Writes.raiseIf _ _) fun _ => Writes.bind (writes_validatePolicyIds _) fun _ => ?_
  grind

@[grind .] theorem writes_validateActiveEnvelope (e : EnvelopeKey) (now : Time) :
    Writes Db.rows S (validateActiveEnvelope e now) := by
  unfold validateActiveEnvelope
  grind

@[grind .] theorem writes_existingTerminal (i j : OpaqueId) (d : Digest) :
    Writes Db.rows S (existingTerminal i j d) := by
  unfold existingTerminal
  grind

@[grind .] theorem writes_validateResult (e : ResultEnvelope) (now : Time) :
    Writes Db.rows S (validateResult e now) := by
  unfold validateResult
  grind

@[grind .] theorem writes_acceptResultBody (e : ResultEnvelope) (d : Digest) (path : String) (n : Nat) (now : Time)
    (h : reapTables ⊆ S) (hr : .results ∈ S) (hf : .fixedResults ∈ S) :
    Writes Db.rows S (acceptResultBody e d path n now) := by
  unfold acceptResultBody
  refine Writes.bind (writes_existingTerminal _ _ _) fun found => ?_
  cases found with
  | some _ => exact Writes.pure _
  | none =>
    refine Writes.bind (writes_validateResult _ _) fun _ => Writes.bind (writes_insertResult _ hr hf) fun _ => ?_
    grind

@[grind .] theorem writes_existingFailure (e : FailureEnvelope) (d : Digest) :
    Writes Db.rows S (existingFailure e d) := by
  unfold existingFailure
  grind

@[grind .] theorem writes_failLease (env : Env) (e : FailureEnvelope) (d : Digest) (a : AssignmentRow) (now : Time)
    (h : reapTables ⊆ S) : Writes Db.rows S (failLease env e d a now) := by
  unfold failLease
  grind

@[grind .] theorem writes_acceptFailureBody (env : Env) (e : FailureEnvelope) (d : Digest) (now : Time)
    (h : reapTables ⊆ S) (hf : .failures ∈ S) : Writes Db.rows S (acceptFailureBody env e d now) := by
  unfold acceptFailureBody
  grind

@[grind .] theorem writes_recordProcessedGroupBody (p : ProcessedGroupArgs) (now : Time) (hg : .processedGroups ∈ S)
    (hr : .processedRollouts ∈ S) (hs : .results ∈ S) : Writes Db.rows S (recordProcessedGroupBody p now) := by
  unfold recordProcessedGroupBody
  refine Writes.bind writes_tables fun _ => ?_
  split
  · grind
  refine Writes.bind writes_tables fun _ => Writes.bind (Writes.raiseIf _ _) fun _ => ?_
  grind

@[grind .] theorem writes_discardEach (h : .processedRollouts ∈ S) :
    ∀ ms : List (OpaqueId × Int), Writes Db.rows S (discardEach ms)
  | [] => Writes.pure 0
  | m :: ms => by
    have ih := writes_discardEach h ms
    unfold discardEach discardOne
    grind

@[grind .] theorem writes_placeMember (step : Int) (x : (OpaqueId × Int) × Nat) (h : .processedRollouts ∈ S) :
    Writes Db.rows S (placeMember step x) := by
  unfold placeMember
  grind

@[grind .] theorem writes_recordTrainingBatchBody (b : TrainingBatchArgs) (now : Time) (hb : .batches ∈ S)
    (hr : .processedRollouts ∈ S) : Writes Db.rows S (recordTrainingBatchBody b now) := by
  unfold recordTrainingBatchBody
  refine Writes.bind writes_tables fun _ => ?_
  split
  · grind
  refine Writes.bind writes_tables fun _ => Writes.bind (Writes.raiseIf _ _) fun _ => ?_
  grind

@[grind .] theorem writes_initializeRunBody (p : PolicyManifest) (d : Digest) (hp : .policies ∈ S) (hr : .run ∈ S) :
    Writes Db.rows S (initializeRunBody p d) := by
  unfold initializeRunBody
  grind

@[grind .] theorem writes_recordAndActivateBody (env : Env) (p : PolicyManifest) (path : String) (now : Time)
    (hp : .policies ∈ S) (hr : .run ∈ S) (h : reapTables ⊆ S) :
    Writes Db.rows S (recordAndActivateBody env p path now) := by
  unfold recordAndActivateBody
  exact Writes.bind (writes_recordPolicyInTransaction env p path hp) fun _ => writes_activate _ _ _ hr h

@[grind .] theorem writes_activatePolicyBody (env : Env) (i : OpaqueId) (artifacts : Artifacts) (now : Time)
    (hr : .run ∈ S) (h : reapTables ⊆ S) : Writes Db.rows S (activatePolicyBody env i artifacts now) := by
  unfold activatePolicyBody
  grind

@[grind .] theorem writes_configureSchedulerBody (lag : Int) (p now : Time) (hs : .scheduler ∈ S)
    (hl : .maxPolicyLag ∈ S) (h : reapTables ⊆ S) : Writes Db.rows S (configureSchedulerBody lag p now) := by
  unfold configureSchedulerBody
  grind

@[grind .] theorem writes_registerWorkerBody (r : WorkerRegistration) (now : Time) (hw : .workers ∈ S)
    (hs : .sessions ∈ S) : Writes Db.rows S (registerWorkerBody r now) := by
  unfold registerWorkerBody
  refine Writes.bind writes_run fun _ => ?_
  grind

@[grind .] theorem writes_registerSchedulerSourceBody (spec : EnvironmentSourceSpec) (h : .sources ∈ S) :
    Writes Db.rows S (registerSchedulerSourceBody spec) := by
  have hi := writes_insertSource (fun t => spec.row (minVirtualFinish t) 0) h
  unfold registerSchedulerSourceBody
  grind

@[grind .] theorem writes_createNextGroupBody (env : Env) (kind : Option Kind) (ids : Nat → OpaqueId)
    (artifacts : Artifacts) (now : Time) (hs : .sources ∈ S) (hc : .scheduler ∈ S) (hg : groupTables ⊆ S) :
    Writes Db.rows S (createNextGroupBody env kind ids artifacts now) := by
  unfold createNextGroupBody
  refine Writes.bind writes_tables fun _ => ?_
  split
  · exact Writes.pure _
  refine Writes.bind writes_tables fun _ => Writes.bind (Writes.orRaise _ _) fun _ => ?_
  refine Writes.bind (writes_verifyPolicyRow _ _ _) fun _ => Writes.bind (Writes.orRaise _ _) fun _ => ?_
  grind

@[grind .] theorem writes_createGroupBody (env : Env) (first : RolloutAssignment) (as : List RolloutAssignment) (n : Nat)
    (hc : .scheduler ∈ S) (hg : groupTables ⊆ S) : Writes Db.rows S (createGroupBody env first as n) := by
  unfold createGroupBody
  grind

@[grind .] theorem writes_validateLeaseRequestBody (r : LeaseRequest) (d : Digest) (now : Time) (hr : .requests ∈ S)
    (hs : .sessions ∈ S) : Writes Db.rows S (validateLeaseRequestBody r d now) := by
  unfold validateLeaseRequestBody
  refine Writes.bind writes_tables fun _ => ?_
  split
  · grind
  refine Writes.bind (writes_compatibleSession _ _) fun _ => Writes.bind (Writes.raiseIf _ _) fun _ => ?_
  grind

@[grind .] theorem writes_markLeaseRequestNoWorkBody (i : OpaqueId) (now : Time) (hr : .requests ∈ S) :
    Writes Db.rows S (markLeaseRequestNoWorkBody i now) := by
  unfold markLeaseRequestNoWorkBody
  refine Writes.bind writes_tables fun _ => ?_
  grind

@[grind .] theorem writes_releaseUnofferedLeaseBody (i : OpaqueId) (now : Time) (hl : .leases ∈ S)
    (hf : .fixedLeases ∈ S) (ha : .assignments ∈ S) : Writes Db.rows S (releaseUnofferedLeaseBody i now) := by
  unfold releaseUnofferedLeaseBody
  grind

@[grind .] theorem writes_leaseRequestCanGenerateBody (r : LeaseRequest) (now : Time) :
    Writes Db.rows S (leaseRequestCanGenerateBody r now) := by
  unfold leaseRequestCanGenerateBody
  grind

@[grind .] theorem writes_expireBody (env : Env) (now : Time) (h : reapTables ⊆ S) :
    Writes Db.rows S (expireBody env now) := by
  unfold expireBody
  grind

@[grind .] theorem writes_claimPendingResultsBody (n : Nat) (hr : .results ∈ S) :
    Writes Db.rows S (claimPendingResultsBody n) := by
  unfold claimPendingResultsBody
  grind

@[grind .] theorem writes_markResultProcessedBody (i : OpaqueId) (hr : .results ∈ S) :
    Writes Db.rows S (markResultProcessedBody i) := by
  unfold markResultProcessedBody
  grind

@[grind .] theorem fixed_unclaim (r : ResultRow) : (unclaim r).fixed = r.fixed := by
  unfold unclaim
  split <;> rfl

@[grind .] theorem writes_discardBody (ms : List (OpaqueId × Int)) (hr : .processedRollouts ∈ S) :
    Writes Db.rows S (discardBody ms) := by
  unfold discardBody
  grind

/-! ## Calls -/

/-- The tables a call may write. -/
def Call.writes : Call → List Table
  | .initializeRun _ => [.run, .policies]
  | .recordPolicy _ _ _ => [.policies]
  | .recordAndActivatePolicy _ _ _ => .run :: .policies :: reapTables
  | .activatePolicy _ _ => .run :: reapTables
  | .configureScheduler _ _ => .scheduler :: .maxPolicyLag :: reapTables
  | .registerWorker _ => [.workers, .sessions]
  | .recordHeartbeat _ _ => .sessions :: reapTables
  | .validateLeaseRequest _ => [.requests, .sessions]
  | .markLeaseRequestNoWork _ | .associateOfferedLease _ _ | .associateOfferedLeases _ _ => [.requests]
  | .releaseUnofferedLease _ => [.leases, .fixedLeases, .assignments]
  | .registerSchedulerSource _ => [.sources]
  | .createNextGroup _ _ _ => .sources :: .scheduler :: groupTables
  | .createGroup _ _ => .scheduler :: groupTables
  | .leaseNextCompatible _ _ _ => .requests :: .fixedLeases :: reapTables
  | .leaseOrCreateNextCompatible _ _ _ _ =>
    .requests :: .fixedLeases :: .sources :: .scheduler :: (groupTables ++ reapTables)
  | .createLease _ _ _ _ _ => .fixedLeases :: reapTables
  | .renewLease _ | .expireLeases => reapTables
  | .acceptResult _ _ => .results :: .fixedResults :: reapTables
  | .recover _ => .results :: reapTables
  | .acceptFailure _ => .failures :: reapTables
  | .claimPendingResults _ | .markResultProcessed _ => [.results]
  | .recordProcessedGroup _ => [.processedGroups, .processedRollouts, .results]
  | .discardProcessedRollouts _ => [.processedRollouts]
  | .recordTrainingBatch _ => [.batches, .processedRollouts]

/-- **A commit leaves every table its call does not list alone.** -/
theorem commit_rows {env : Env} {c : Call} {now : Time} {d d' : Db} (h : Commit env now d d' c) (k : Table)
    (hk : k ∉ c.writes) : d'.rows k = d.rows k := by
  have rule : ∀ {α : Type} {m : Body α} {S : List Table}, Commits m d d' → Writes Db.rows S m → k ∉ S →
      d'.rows k = d.rows k := fun ⟨a, h⟩ hw hk => hw d a d' h k hk
  cases c <;> simp only [Call.writes] at hk <;> simp only [Commit] at h
  case initializeRun => exact rule h.2 (writes_initializeRunBody _ _ (by decide) (by decide)) hk
  case recordPolicy =>
    obtain ⟨_, _, h⟩ := h
    exact rule h (writes_recordPolicyInTransaction _ _ _ (by decide)) hk
  case recordAndActivatePolicy =>
    obtain ⟨_, _, h⟩ := h
    exact rule h (writes_recordAndActivateBody _ _ _ _ (by decide) (by decide) (by decide)) hk
  case activatePolicy => exact rule h (writes_activatePolicyBody _ _ _ _ (by decide) (by decide)) hk
  case configureScheduler => exact rule h (writes_configureSchedulerBody _ _ _ (by decide) (by decide) (by decide)) hk
  case registerWorker => exact rule h (writes_registerWorkerBody _ _ (by decide) (by decide)) hk
  case recordHeartbeat => exact rule h (writes_heartbeatBody _ _ _ (by decide) (by decide)) hk
  case validateLeaseRequest => exact rule h (writes_validateLeaseRequestBody _ _ _ (by decide) (by decide)) hk
  case markLeaseRequestNoWork => exact rule h (writes_markLeaseRequestNoWorkBody _ _ (by decide)) hk
  case associateOfferedLease =>
    obtain ⟨_, h⟩ := h
    exact rule h (writes_associateBody _ _ _ _ (by decide)) hk
  case associateOfferedLeases =>
    obtain ⟨_, _, _, _, h⟩ := h
    exact rule h (writes_associateBody _ _ _ _ (by decide)) hk
  case releaseUnofferedLease => exact rule h (writes_releaseUnofferedLeaseBody _ _ (by decide) (by decide) (by decide)) hk
  case registerSchedulerSource => exact rule h (writes_registerSchedulerSourceBody _ (by decide)) hk
  case createNextGroup => exact rule h (writes_createNextGroupBody _ _ _ _ _ (by decide) (by decide) (by decide)) hk
  case createGroup =>
    obtain ⟨_, _, _, _, _, h⟩ := h
    exact rule h (writes_createGroupBody _ _ _ _ (by decide) (by decide)) hk
  case leaseNextCompatible => exact rule h.2 (writes_leaseNextBody _ _ _ _ _ (by decide) (by decide) (by decide)) hk
  case leaseOrCreateNextCompatible =>
    rcases h with ⟨_, _, h⟩ | h | h
    · exact rule h (writes_leaseNextBody _ _ _ _ _ (by decide) (by decide) (by decide)) hk
    · exact rule h (writes_leaseRequestCanGenerateBody _ _) hk
    · exact rule h (writes_createNextGroupBody _ _ _ _ _ (by decide) (by decide) (by decide)) hk
  case createLease =>
    rcases h with h | h
    · exact rule h (writes_expireBody _ _ (by decide)) hk
    · exact rule h.2 (writes_createLeaseBody _ _ _ _ _ _ (by decide) (by decide)) hk
  case renewLease => exact rule h (writes_renewBody _ _ (by decide)) hk
  case expireLeases => exact rule h (writes_expireBody _ _ (by decide)) hk
  case acceptResult =>
    obtain ⟨_, _, _, h⟩ := h
    exact rule h (writes_acceptResultBody _ _ _ _ _ (by decide) (by decide) (by decide)) hk
  case acceptFailure => exact rule h (writes_acceptFailureBody _ _ _ _ (by decide) (by decide)) hk
  case claimPendingResults => exact rule h (writes_claimPendingResultsBody _ (by decide)) hk
  case markResultProcessed => exact rule h (writes_markResultProcessedBody _ (by decide)) hk
  case recordProcessedGroup =>
    exact rule h (writes_recordProcessedGroupBody _ _ (by decide) (by decide) (by decide)) hk
  case discardProcessedRollouts => exact rule h (writes_discardBody _ (by decide)) hk
  case recordTrainingBatch => exact rule h (writes_recordTrainingBatchBody _ _ (by decide) (by decide)) hk
  case recover =>
    rcases h with h | h | h
    · exact rule h (writes_setResults _ (by decide) fixed_unclaim) hk
    · exact rule h (writes_expireBody _ _ (by decide)) hk
    · exact rule h (writes_recomputeGroups (by decide)) hk

end Aether
