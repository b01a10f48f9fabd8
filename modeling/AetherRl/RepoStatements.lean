import Mathlib.Tactic.Simps.Basic
import AetherRl.Rows
import AetherRl.RepoState
/-!
# RepoStatements — the `INSERT`s and `UPDATE`s the repository runs

One function on tables per statement shape.  Each touches one table, which `simps` states once for every column a proof
may read; `INSERT OR IGNORE` leaves the tables alone when its primary key is taken.
-/
namespace Aether

namespace Tables

def policy? (t : Tables) (i : OpaqueId) : Option PolicyRow := Rows.get (·.policyId) i t.policies
def session? (t : Tables) (i : OpaqueId) : Option SessionRow := Rows.get (·.workerSessionId) i t.sessions
def group? (t : Tables) (i : OpaqueId) : Option GroupRow := Rows.get (·.groupId) i t.groups
def assignment? (t : Tables) (i : OpaqueId) : Option AssignmentRow := Rows.get (·.assignmentId) i t.assignments
def lease? (t : Tables) (i : OpaqueId) : Option LeaseRow := Rows.get (·.leaseId) i t.leases
def result? (t : Tables) (i : OpaqueId) : Option ResultRow := Rows.get (·.assignmentId) i t.results
def failure? (t : Tables) (i : OpaqueId) : Option FailureRow := Rows.get (·.leaseId) i t.failures
def outcome? (t : Tables) (i : OpaqueId) : Option OutcomeRow := Rows.get (·.assignmentId) i t.outcomes
def source? (t : Tables) (i : OpaqueId) : Option SourceRow := Rows.get (·.sourceId) i t.sources
def request? (t : Tables) (i : OpaqueId) : Option RequestRow := Rows.get (·.requestId) i t.requests
def cancellation? (t : Tables) (i : OpaqueId) : Option CancellationRow :=
  Rows.get (·.assignmentId) i t.cancellations
def leaseCancellation? (t : Tables) (i : OpaqueId) : Option LeaseCancellationRow :=
  Rows.get (·.leaseId) i t.leaseCancellations

/-- `runs r JOIN policies p ON p.policy_id = r.active_policy_id`. -/
def activePolicy? (t : Tables) : Option PolicyRow := t.run.bind (fun r => t.policy? r.activePolicyId)

/-! ## Updates -/

@[simps] def setRun (f : RunRow → RunRow) (t : Tables) : Tables := { t with run := t.run.map f }

@[simps] def setScheduler (f : SchedulerRow → SchedulerRow) (t : Tables) : Tables :=
  { t with scheduler := f t.scheduler }

@[simps] def setSession (i : OpaqueId) (f : SessionRow → SessionRow) (t : Tables) : Tables :=
  { t with sessions := Rows.set (·.workerSessionId) i f t.sessions }

@[simps] def setGroup (i : OpaqueId) (f : GroupRow → GroupRow) (t : Tables) : Tables :=
  { t with groups := Rows.set (·.groupId) i f t.groups }

@[simps] def setAssignment (i : OpaqueId) (f : AssignmentRow → AssignmentRow) (t : Tables) : Tables :=
  { t with assignments := Rows.set (·.assignmentId) i f t.assignments }

@[simps] def setLease (i : OpaqueId) (f : LeaseRow → LeaseRow) (t : Tables) : Tables :=
  { t with leases := Rows.set (·.leaseId) i f t.leases }

@[simps] def setResults (f : ResultRow → ResultRow) (t : Tables) : Tables :=
  { t with results := t.results.map f }

@[simps] def setSource (i : OpaqueId) (f : SourceRow → SourceRow) (t : Tables) : Tables :=
  { t with sources := Rows.set (·.sourceId) i f t.sources }

@[simps] def setCancellation (i : OpaqueId) (f : CancellationRow → CancellationRow) (t : Tables) : Tables :=
  { t with cancellations := Rows.set (·.assignmentId) i f t.cancellations }

@[simps] def setLeaseCancellation (i : OpaqueId) (f : LeaseCancellationRow → LeaseCancellationRow) (t : Tables) :
    Tables := { t with leaseCancellations := Rows.set (·.leaseId) i f t.leaseCancellations }

@[simps] def setRequest (i : OpaqueId) (f : RequestRow → RequestRow) (t : Tables) : Tables :=
  { t with requests := Rows.set (·.requestId) i f t.requests }

@[simps] def setProcessedRollouts (f : ProcessedRolloutRow → ProcessedRolloutRow) (t : Tables) : Tables :=
  { t with processedRollouts := t.processedRollouts.map f }

@[simps] def deleteLease (i : OpaqueId) (t : Tables) : Tables :=
  { t with leases := t.leases.filter (fun l => decide (l.leaseId ≠ i)) }

/-! ## Inserts -/

@[simps] def insertRun (r : RunRow) (t : Tables) : Tables := { t with run := some r }
@[simps] def insertPolicy (p : PolicyRow) (t : Tables) : Tables := { t with policies := t.policies ++ [p] }
@[simps] def insertSession (s : SessionRow) (t : Tables) : Tables := { t with sessions := t.sessions ++ [s] }
@[simps] def insertGroup (g : GroupRow) (t : Tables) : Tables := { t with groups := t.groups ++ [g] }
@[simps] def insertLease (l : LeaseRow) (t : Tables) : Tables := { t with leases := t.leases ++ [l] }
@[simps] def insertResult (r : ResultRow) (t : Tables) : Tables := { t with results := t.results ++ [r] }
@[simps] def insertFailure (f : FailureRow) (t : Tables) : Tables := { t with failures := t.failures ++ [f] }
@[simps] def insertOutcome (o : OutcomeRow) (t : Tables) : Tables := { t with outcomes := t.outcomes ++ [o] }
@[simps] def insertSource (s : SourceRow) (t : Tables) : Tables := { t with sources := t.sources ++ [s] }
@[simps] def insertRequest (r : RequestRow) (t : Tables) : Tables := { t with requests := t.requests ++ [r] }
@[simps] def insertBatch (b : BatchRow) (t : Tables) : Tables := { t with batches := t.batches ++ [b] }

@[simps] def insertAssignmentRow (a : AssignmentRow) (t : Tables) : Tables :=
  { t with assignments := t.assignments ++ [a] }

@[simps] def insertProcessedGroup (p : ProcessedGroupRow) (t : Tables) : Tables :=
  { t with processedGroups := t.processedGroups ++ [p] }

@[simps] def insertProcessedRollouts (rs : List ProcessedRolloutRow) (t : Tables) : Tables :=
  { t with processedRollouts := t.processedRollouts ++ rs }

/-! ## Inserts that ignore a taken key -/

@[simps] def insertWorkerOrIgnore (w : WorkerRow) (t : Tables) : Tables :=
  { t with workers := if w.workerId ∈ t.workers.map (·.workerId) then t.workers else t.workers ++ [w] }

@[simps] def insertOutcomeOrIgnore (o : OutcomeRow) (t : Tables) : Tables :=
  { t with outcomes := if (t.outcome? o.assignmentId).isSome then t.outcomes else t.outcomes ++ [o] }

@[simps] def insertCancellationOrIgnore (c : CancellationRow) (t : Tables) : Tables :=
  { t with
    cancellations := if (t.cancellation? c.assignmentId).isSome then t.cancellations else t.cancellations ++ [c] }

@[simps] def insertLeaseCancellationOrIgnore (c : LeaseCancellationRow) (t : Tables) : Tables :=
  { t with
    leaseCancellations :=
      if (t.leaseCancellation? c.leaseId).isSome then t.leaseCancellations else t.leaseCancellations ++ [c] }

end Tables

end Aether
