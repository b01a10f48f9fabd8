import AetherRl.RepoStatements
/-!
# RepoReap — retries, expiry, cancellation of stale work and group readiness

`_retry_or_terminal`, `_expire_leases`, `_cancel_stale_train_groups`, `_terminalize_without_envelope` and
`_recompute_group(s)` of `database.py`, each as the body it is inside its caller's transaction, and `expire_leases`.  A
row the source reads before a loop and uses inside it is read before the loop here too.
-/
namespace Aether
namespace Repo

open Txn (raiseIf orRaise orThrow forEach)
open Tables

/-! ## Reading rows that must exist -/

def assignment (i : OpaqueId) : Body AssignmentRow := do
  orRaise ((← tables).assignment? i) (.notFound "assignment not found")

def run : Body RunRow := do
  orRaise (← tables).run (.invalidState "run has not been initialized")

/-! ## Group readiness -/

def openAssignments (t : Tables) (groupId : OpaqueId) : List AssignmentRow :=
  t.assignments.filter (fun a => decide (a.groupId = groupId) && !a.state.terminal)

def recomputeGroup (groupId : OpaqueId) : Body Unit := do
  let count := (openAssignments (← tables) groupId).length
  exec (setGroup groupId fun g => { g with state := if count = 0 then .ready else .collecting })

def recomputeGroups : Body Unit := do
  forEach (Rows.orderBy id ((← tables).groups.map (·.groupId))) recomputeGroup

/-! ## Retry or terminal -/

/-- The largest finite double: an int above it does not convert to a float. -/
def maxFloat : Nat := 2 ^ 1024 - 2 ^ 971

/-- `min(retry_max_seconds, retry_base_seconds * 2 ** (attempt_count - 1))`.  The base is a float, as it is annotated; the
power is an int, and `float * int` converts it first; only `2 ** -1` is a float. -/
def retryDelay (env : Env) (attemptCount : Nat) : Except Error Time :=
  match attemptCount with
  | 0 => .ok (min env.retryMaxSeconds (env.retryBaseSeconds * (1 / 2)))
  | n + 1 =>
    if maxFloat < 2 ^ n then .error .overflow
    else .ok (min env.retryMaxSeconds (env.retryBaseSeconds * ((2 ^ n : Nat) : Time)))

def canRetry (a : AssignmentRow) (now delay : Time) (envelope : Option FailureEnvelope) : Bool :=
  envelope.all (·.retryable) && decide (a.attemptCount < a.maxAttempts) &&
    a.deadlineAt.all (fun d => decide (now + delay < d))

def terminalOutcome (a : AssignmentRow) (now delay : Time) (envelope : Option FailureEnvelope) : Outcome :=
  if a.maxAttempts ≤ a.attemptCount then .attemptsExhausted
  else if envelope.any (fun e => !e.retryable) then .failure
  else if a.deadlineAt.any (fun d => decide (d ≤ now + delay)) then .deadlineExceeded
  else .attemptsExhausted

def markFailed (a : AssignmentRow) : AssignmentRow := { a with state := .failed, currentLeaseId := none }

def retryOrTerminal (env : Env) (a : AssignmentRow) (now : Time) (envelope : Option FailureEnvelope)
    (digest : Option Digest) (leaseId : OpaqueId) : Body Bool := do
  let delay ← orThrow (retryDelay env a.attemptCount)
  if canRetry a now delay envelope then do
    exec (setAssignment a.assignmentId fun a =>
      { a with state := .retryWait, availableAt := now + delay, currentLeaseId := none })
    pure false
  else do
    exec (setAssignment a.assignmentId markFailed)
    exec (insertOutcome ⟨a.assignmentId, terminalOutcome a now delay envelope,
      some ((envelope.map (·.leaseId)).getD leaseId), digest, now⟩)
    pure true

def terminalizeWithoutEnvelope (a : AssignmentRow) (outcome : Outcome) (now : Time) : Body Unit := do
  exec (setAssignment a.assignmentId markFailed)
  exec (insertOutcome ⟨a.assignmentId, outcome, none, none, now⟩)
  recomputeGroup a.groupId

/-! ## Expiry -/

/-- `x IS NOT NULL AND x <= now`. -/
def due (x : Option Time) (now : Time) : Bool := x.any (fun d => decide (d ≤ now))

structure ExpiredLease where
  assignment : AssignmentRow
  leaseId : OpaqueId
  expiresAt : Time
  cancelled : Bool
deriving DecidableEq

/-- The active leases past their expiry or their assignment's deadline, joined with the assignment. -/
def expiredLeases (t : Tables) (now : Time) : List ExpiredLease :=
  Rows.orderBy (fun x => toLex (x.expiresAt, x.assignment.assignmentId)) <|
    t.leases.filterMap fun l => (t.assignment? l.assignmentId).bind fun a =>
      if l.state = .active ∧ (l.expiresAt ≤ now ∨ due a.deadlineAt now) then
        some ⟨a, l.leaseId, l.expiresAt, (t.leaseCancellation? l.leaseId).isSome⟩
      else none

def expireOne (env : Env) (now : Time) (x : ExpiredLease) : Body Unit := do
  exec (setLease x.leaseId fun l => { l with state := .expired })
  if x.cancelled then do
    exec (setAssignment x.assignment.assignmentId markFailed)
    exec (setCancellation x.assignment.assignmentId fun c => { c with terminal := true })
    exec (insertOutcomeOrIgnore ⟨x.assignment.assignmentId, .failure, some x.leaseId, none, now⟩)
  else do
    let _ ← retryOrTerminal env x.assignment now none none x.leaseId

def overdueAssignments (t : Tables) (now : Time) : List AssignmentRow :=
  Rows.orderBy (fun a => toLex (a.deadlineAt.getD 0, a.assignmentId)) <|
    t.assignments.filter (fun a => a.state.waiting && due a.deadlineAt now)

/-- `_expire_leases`: the leases, then the waiting assignments past their deadline, then every group. -/
def expireLeasesBody (env : Env) (now : Time) : Body Nat := do
  let leases := expiredLeases (← tables) now
  forEach leases (expireOne env now)
  let overdue := overdueAssignments (← tables) now
  forEach overdue (fun a => terminalizeWithoutEnvelope a .deadlineExceeded now)
  recomputeGroups
  pure leases.length

/-! ## Cancellation of stale work -/

/-- The train groups whose policy lags the active version by more than the configured lag. -/
def staleGroups (t : Tables) (activeVersion : Nat) (maxPolicyLag : Int) : List GroupRow :=
  Rows.orderBy (fun g => toLex (g.sequence, g.groupId)) <|
    t.groups.filter fun g => decide (g.kind = .train) &&
      (t.policy? g.policyId).any (fun p => decide (maxPolicyLag < (activeVersion : Int) - p.policyVersion))

def liveAssignments (t : Tables) (groupId : OpaqueId) : List AssignmentRow :=
  Rows.orderBy (fun a => toLex (a.groupIndex, a.assignmentId)) <|
    t.assignments.filter fun a => decide (a.groupId = groupId) && (a.state.waiting || decide (a.state = .leased))

def cancelStaleAssignment (now : Time) (a : AssignmentRow) : Body Unit := do
  let terminal := decide (a.state ≠ .leased)
  exec (insertCancellationOrIgnore ⟨a.assignmentId, .policyStale, now, terminal⟩)
  if terminal then do
    exec (setAssignment a.assignmentId markFailed)
    exec (setCancellation a.assignmentId fun c => { c with terminal := true })
    exec (insertOutcomeOrIgnore ⟨a.assignmentId, .failure, none, none, now⟩)
  else match a.currentLeaseId with
    | some i => exec (insertLeaseCancellationOrIgnore ⟨i, a.assignmentId, .policyStale, now, none⟩)
    | none => pure ()

def cancelStaleGroup (now : Time) (g : GroupRow) : Body Unit := do
  forEach (liveAssignments (← tables) g.groupId) (cancelStaleAssignment now)
  recomputeGroup g.groupId

def cancelStaleTrainGroups (maxPolicyLag : Int) (now : Time) : Body Unit := do
  let active ← orRaise (← tables).activePolicy? .type
  forEach (staleGroups (← tables) active.policyVersion maxPolicyLag) (cancelStaleGroup now)

/-- `_reconcile_stale_work`: nothing until a lag is configured. -/
def reconcileStaleWork (now : Time) : Body Unit := do
  match (← tables).scheduler.maxPolicyLag with
  | some lag => cancelStaleTrainGroups lag now
  | none => pure ()

def expireBody (env : Env) (now : Time) : Body Nat := do
  reconcileStaleWork now
  expireLeasesBody env now

def expireLeases (env : Env) : Method Nat := do
  let now ← readClock env
  transaction (expireBody env now)

end Repo
end Aether
