import AetherRl.Binary64
import AetherRl.RepoGroup
/-!
# RepoLease — lease requests, grants, renewals and heartbeats

The lease side of `database.py`: `validate_lease_request` to `release_unoffered_lease`, `lease_next_compatible`,
`lease_or_create_next_compatible`, `create_lease`, `renew_lease` and `record_heartbeat`.  A clock reading the source
takes inside a transaction is taken right before it here: nothing else reads the clock in between, so a transaction sees
the same readings in the same order.
-/
namespace Aether
namespace Repo

open Txn (raiseIf orRaise orThrow forEach)
open Tables

/-! ## Reading leases back -/

/-- `AssignmentLease(...)`, which its validator may refuse. -/
def buildLease (leaseId : OpaqueId) (attempt : Nat) (workerId workerSessionId : OpaqueId) (issuedAt expiresAt : Time)
    (assignment : RolloutAssignment) : Except Error AssignmentLease :=
  if h : issuedAt < expiresAt ∧ assignment.createdAt ≤ issuedAt ∧ ∀ d ∈ assignment.deadlineAt, expiresAt ≤ d then
    .ok ⟨leaseId, attempt, workerId, workerSessionId, issuedAt, expiresAt, assignment, h.1, h.2.1, h.2.2⟩
  else .error .validation

def assignmentLease (leaseId : OpaqueId) : Body AssignmentLease := do
  let missing := Error.invalidState "persisted lease request references a missing lease"
  let l ← orRaise ((← tables).lease? leaseId) missing
  let a ← orRaise ((← tables).assignment? l.assignmentId) missing
  orThrow (buildLease l.leaseId l.attempt l.workerId l.workerSessionId l.issuedAt l.expiresAt a.assignment)

structure LeaseRequestDisposition where
  state : RequestState
  lease : Option AssignmentLease
deriving DecidableEq

def leaseRequestDisposition (row : RequestRow) : Body LeaseRequestDisposition := do
  match row.state with
  | .leased => do
    let leaseId ← orRaise row.leaseId .type
    let lease ← assignmentLease leaseId
    pure ⟨.leased, some lease⟩
  | state => pure ⟨state, none⟩

/-! ## Sessions and their slots -/

def validatePolicyIds (policyIds : List OpaqueId) : Body Unit := do
  let known := (← tables).policies.map (·.policyId)
  raiseIf (¬ ∀ i ∈ policyIds, i ∈ known) (.incompatibleWorker "worker reported an unknown policy ID")

def compatibleSession (workerId workerSessionId : OpaqueId) : Body SessionRow := do
  let unregistered := Error.incompatibleWorker "worker session is not registered for this worker"
  let session ← orRaise ((← tables).session? workerSessionId) unregistered
  raiseIf (session.workerId ≠ workerId) unregistered
  pure session

/-- A lease that takes one of its session's slots: active, unexpired, before its assignment's deadline, and without a
cancellation the worker has been told of. -/
def holdsSlot (t : Tables) (now : Time) (l : LeaseRow) : Bool :=
  decide (l.state = .active) && decide (now < l.expiresAt) &&
    (t.assignment? l.assignmentId).any (fun a => a.deadlineAt.all (fun d => decide (now < d))) &&
    (t.leaseCancellation? l.leaseId).all (fun c => c.deliveredAt.isNone)

def activeCount (t : Tables) (workerId workerSessionId : OpaqueId) (now : Time) : Nat :=
  (t.leases.filter fun l =>
    decide (l.workerId = workerId) && decide (l.workerSessionId = workerSessionId) && holdsSlot t now l).length

/-! ## Lease requests -/

def validateLeaseRequestBody (request : LeaseRequest) (requestDigest : Digest) (now : Time) :
    Body LeaseRequestDisposition := do
  match (← tables).request? request.requestId with
  | some existing => do
    raiseIf (existing.requestDigest ≠ requestDigest) (.conflict "lease request ID already has different contents")
    leaseRequestDisposition existing
  | none => do
    let session ← compatibleSession request.workerId request.workerSessionId
    raiseIf (∃ s ∈ session.lastLeaseRequestSentAt, request.sentAt ≤ s)
      (.conflict "lease request sent_at must increase within a worker session")
    validatePolicyIds request.loadedPolicyIds
    let active := activeCount (← tables) request.workerId request.workerSessionId now
    raiseIf (session.capabilities.inferenceSlots < request.availableSlots + active)
      (.capacity "requested slots exceed worker session capacity")
    exec (insertRequest ⟨request.requestId, request.workerSessionId, requestDigest, .pending, none, now, none⟩)
    exec (setSession request.workerSessionId fun s => { s with lastLeaseRequestSentAt := some request.sentAt })
    pure ⟨.pending, none⟩

def validateLeaseRequest (env : Env) (request : LeaseRequest) : Method LeaseRequestDisposition := do
  let requestDigest := env.codec.requestDigest request
  let now ← readClock env
  transaction (validateLeaseRequestBody request requestDigest now)

def unvalidated : Error := .invalidState "lease request has not been validated"

/-- `UPDATE lease_requests SET state = s, lease_id = l, completed_at = ? WHERE request_id = ? AND state = 'pending'`. -/
def completeRequest (requestId : OpaqueId) (state : RequestState) (leaseId : Option OpaqueId) (now : Time) : Body Unit :=
  exec (setRequest requestId fun r =>
    if r.state = .pending then { r with state := state, leaseId := leaseId, completedAt := some now } else r)

def markLeaseRequestNoWorkBody (requestId : OpaqueId) (now : Time) : Body LeaseRequestDisposition := do
  let row ← orRaise ((← tables).request? requestId) unvalidated
  match row.state with
  | .pending => do
    completeRequest requestId .noWork none now
    let row ← orRaise ((← tables).request? requestId) unvalidated
    leaseRequestDisposition row
  | _ => leaseRequestDisposition row

def markLeaseRequestNoWork (env : Env) (requestId : OpaqueId) : Method LeaseRequestDisposition := do
  let now ← readClock env
  transaction (markLeaseRequestNoWorkBody requestId now)

def validateOfferedLease (request : LeaseRequest) (offered : AssignmentLease) (now : Time) : Body Unit := do
  raiseIf (offered.workerId ≠ request.workerId ∨ offered.workerSessionId ≠ request.workerSessionId)
    (.conflict "offered lease does not belong to the requesting worker session")
  let mismatch := Error.conflict "offered lease does not match durable coordinator state"
  let a ← assignment offered.assignment.assignmentId
  let l ← orRaise ((← tables).lease? offered.leaseId) mismatch
  raiseIf (l.assignmentId ≠ offered.assignment.assignmentId ∨ l.attempt ≠ offered.attempt ∨
      l.workerId ≠ offered.workerId ∨ l.workerSessionId ≠ offered.workerSessionId ∨ l.state ≠ .active ∨
      l.expiresAt ≤ now ∨ l.issuedAt ≠ offered.issuedAt ∨ l.expiresAt ≠ offered.expiresAt ∨ a.state ≠ .leased ∨
      due a.deadlineAt now ∨ a.currentLeaseId ≠ some offered.leaseId ∨ offered.assignment ≠ a.assignment) mismatch

/-- `associate_offered_leases`: the whole batch is checked, each lease at its own reading of the clock, and the first
lease answers the request. -/
def associateBody (request : LeaseRequest) (first : AssignmentLease) (offered : List (AssignmentLease × Time))
    (completedAt : Time) : Body LeaseRequestDisposition := do
  let row ← orRaise ((← tables).request? request.requestId) unvalidated
  let disposition ← leaseRequestDisposition row
  if disposition.state ≠ .pending then do
    raiseIf (disposition.lease ≠ some first) (.conflict "lease request already has a different disposition")
    pure disposition
  else do
    forEach offered (fun x => validateOfferedLease request x.1 x.2)
    let taken := (← tables).requests.any fun r =>
      r.leaseId.any (fun i => decide (i ∈ offered.map (·.1.leaseId))) && decide (r.requestId ≠ request.requestId)
    raiseIf (taken = true) (.conflict "lease is already associated with a different request")
    completeRequest request.requestId .leased (some first.leaseId) completedAt
    pure ⟨.leased, some first⟩

def associateOfferedLease (env : Env) (request : LeaseRequest) (offered : AssignmentLease) :
    Method LeaseRequestDisposition := do
  let now ← readClock env
  let completedAt ← readClock env
  transaction (associateBody request offered [(offered, now)] completedAt)

def associateOfferedLeases (env : Env) (request : LeaseRequest) (offered : List AssignmentLease) : Method Unit := do
  match offered with
  | [] => throw (.value "offered lease batch must not be empty")
  | first :: _ => do
    let nows ← readClocks env offered.length
    let completedAt ← readClock env
    let _ ← transaction (associateBody request first (offered.zip nows) completedAt)

/-- The statements of `release_unoffered_lease` once it has found its lease. -/
def releaseLease (leaseId assignmentId : OpaqueId) (now : Time) : Body Unit := do
  exec (deleteLease leaseId)
  exec (setAssignment assignmentId fun a =>
    { a with state := .retryWait, attemptCount := a.attemptCount - 1, currentLeaseId := none, availableAt := now })

def releaseUnofferedLeaseBody (leaseId : OpaqueId) (now : Time) : Body Unit := do
  match (← tables).lease? leaseId with
  | none => pure ()
  | some l =>
    if l.state = .active then do
      let a ← assignment l.assignmentId
      if a.currentLeaseId = some leaseId then releaseLease leaseId l.assignmentId now
      else pure ()
    else pure ()

def releaseUnofferedLease (env : Env) (leaseId : OpaqueId) : Method Unit := do
  let now ← readClock env
  transaction (releaseUnofferedLeaseBody leaseId now)

/-! ## Grants -/

def leasable (t : Tables) (now : Time) (a : AssignmentRow) : Bool :=
  a.state.waiting && decide (a.availableAt ≤ now) && a.deadlineAt.all (fun d => decide (now < d)) &&
    (t.cancellation? a.assignmentId).isNone

/-- The leasable assignments, in group sequence and index order. -/
def leaseCandidates (t : Tables) (now : Time) : List AssignmentRow :=
  (Rows.orderBy (fun x => toLex (x.1, toLex (x.2.groupIndex, x.2.assignmentId))) <|
    t.assignments.filterMap fun a => (t.group? a.groupId).bind fun g =>
      if leasable t now a then some (g.sequence, a) else none).map (·.2)

/-- The oldest candidate, or, while it has waited less than the preference, the first whose policy is loaded. -/
def chooseCandidate (candidates : List AssignmentRow) (oldest : AssignmentRow) (loaded : List OpaqueId)
    (preference now : Time) : AssignmentRow :=
  if now - oldest.availableAt < preference then
    (candidates.find? (fun c => decide (c.policyId ∈ loaded))).getD oldest
  else oldest

/-- The sum is the float's: a duration below half the last place of the reading leaves it where it is. -/
def leaseExpiry (now duration : Time) (deadline : Option Time) : Time :=
  match deadline with
  | some d => min (Binary64.add now duration) d
  | none => Binary64.add now duration

/-- A grant: the attempt's row, and its assignment leased under it. -/
def grantLease (a : AssignmentRow) (leaseId workerId workerSessionId : OpaqueId) (now expiresAt : Time) : Body Unit := do
  exec (insertLease ⟨leaseId, a.assignmentId, a.attemptCount + 1, workerId, workerSessionId, now, expiresAt, .active,
    none⟩)
  exec (setAssignment a.assignmentId fun b =>
    { b with state := .leased, attemptCount := a.attemptCount + 1, currentLeaseId := some leaseId })

/-- What `lease_next_compatible` decides in its transaction: the answer it had, none, or a grant to answer with. -/
inductive LeaseAnswer
  | recorded (lease : Option AssignmentLease)
  | nothing
  | granted (a : AssignmentRow) (expiresAt : Time)

def grantToRequest (request : LeaseRequest) (duration : Time) (leaseId : OpaqueId) (preference now : Time) :
    Body LeaseAnswer := do
  let candidates := leaseCandidates (← tables) now
  match candidates.head? with
  | none => pure .nothing
  | some oldest => do
    let chosen := chooseCandidate candidates oldest request.loadedPolicyIds preference now
    let expiresAt := leaseExpiry now duration chosen.deadlineAt
    grantLease chosen leaseId request.workerId request.workerSessionId now expiresAt
    completeRequest request.requestId .leased (some leaseId) now
    pure (.granted chosen expiresAt)

def leaseNextBody (env : Env) (request : LeaseRequest) (duration : Time) (leaseId : OpaqueId) (now : Time) :
    Body LeaseAnswer := do
  let row ← orRaise ((← tables).request? request.requestId) unvalidated
  let disposition ← leaseRequestDisposition row
  match disposition.state with
  | .leased => pure (.recorded disposition.lease)
  | .noWork => pure .nothing
  | .pending => do
    let _ ← expireLeasesBody env now
    let session ← compatibleSession request.workerId request.workerSessionId
    validatePolicyIds request.loadedPolicyIds
    let unconfigured := Error.invalidState "scheduler settings have not been configured"
    let lag ← orRaise (← tables).scheduler.maxPolicyLag unconfigured
    let preference ← orRaise (← tables).scheduler.loadedPolicyPreferenceSeconds unconfigured
    cancelStaleTrainGroups lag now
    let active := activeCount (← tables) request.workerId request.workerSessionId now
    if session.capabilities.inferenceSlots < active + 1 then pure .nothing
    else grantToRequest request duration leaseId preference now

def leaseNextCompatible (env : Env) (request : LeaseRequest) (duration : Time) (leaseId : OpaqueId) :
    Method (Option AssignmentLease) := do
  raiseUnless (0 < duration) (.value "lease duration must be positive")
  let now ← readClock env
  match ← transaction (leaseNextBody env request duration leaseId now) with
  | .recorded lease => pure lease
  | .nothing => pure none
  | .granted a expiresAt =>
    match buildLease leaseId (a.attemptCount + 1) request.workerId request.workerSessionId now expiresAt a.assignment with
    | .ok lease => pure (some lease)
    | .error e => throw e

def leaseRequestCanGenerateBody (request : LeaseRequest) (now : Time) : Body Bool := do
  let t ← tables
  match t.request? request.requestId, t.session? request.workerSessionId with
  | some row, some session =>
    pure (decide (row.state = .pending) && decide (session.workerId = request.workerId) &&
      decide (activeCount t request.workerId request.workerSessionId now < session.capabilities.inferenceSlots) &&
      (leaseCandidates t now).isEmpty)
  | _, _ => pure false

def leaseRequestCanGenerate (env : Env) (request : LeaseRequest) : Method Bool := do
  let now ← readClock env
  transaction (leaseRequestCanGenerateBody request now)

/-- The ids a creating call draws: a lease id before and after the creation, and the group's ids. -/
structure Draws where
  firstLease : OpaqueId
  group : Nat → OpaqueId
  secondLease : OpaqueId

def leaseOrCreateNextCompatible (env : Env) (request : LeaseRequest) (duration : Time) (draws : Draws)
    (artifacts : Artifacts) : Method (Option AssignmentLease) := do
  match ← leaseNextCompatible env request duration draws.firstLease with
  | some lease => pure (some lease)
  | none =>
    if ← leaseRequestCanGenerate env request then
      match ← createNextGroup env none draws.group artifacts with
      | none => pure none
      | some _ => leaseNextCompatible env request duration draws.secondLease
    else pure none

def deadlinePassed : Error := .invalidState "assignment deadline has passed"

/-- `create_lease`'s transaction: the grant's row and expiry, or none when the deadline had passed. -/
def createLeaseBody (assignmentId workerId workerSessionId leaseId : OpaqueId) (duration now : Time) :
    Body (Option (AssignmentRow × Time)) := do
  let a ← assignment assignmentId
  raiseIf (a.state = .failed ∧ due a.deadlineAt now = true) deadlinePassed
  raiseIf (a.state.waiting = false ∨ now < a.availableAt) (.invalidState "assignment is not due for leasing")
  let session ← compatibleSession workerId workerSessionId
  raiseIf (a.maxAttempts ≤ a.attemptCount) (.invalidState "assignment has exhausted its attempts")
  if due a.deadlineAt now then do
    terminalizeWithoutEnvelope a .deadlineExceeded now
    pure none
  else do
    let active := ((← tables).leases.filter fun l => decide (l.workerId = workerId) &&
      decide (l.workerSessionId = workerSessionId) && decide (l.state = .active)).length
    raiseIf (session.capabilities.inferenceSlots ≤ active) (.capacity "worker session has no free assignment capacity")
    let expiresAt := leaseExpiry now duration a.deadlineAt
    grantLease a leaseId workerId workerSessionId now expiresAt
    pure (some (a, expiresAt))

def createLease (env : Env) (assignmentId workerId workerSessionId leaseId : OpaqueId) (duration : Time) :
    Method AssignmentLease := do
  raiseUnless (0 < duration) (.value "lease duration must be positive")
  let _ ← expireLeases env
  let now ← readClock env
  match ← transaction (createLeaseBody assignmentId workerId workerSessionId leaseId duration now) with
  | none => throw deadlinePassed
  | some (a, expiresAt) =>
    match buildLease leaseId (a.attemptCount + 1) workerId workerSessionId now expiresAt a.assignment with
    | .ok lease => pure lease
    | .error e => throw e

/-! ## Renewals and heartbeats -/

/-- `UPDATE lease_cancellations SET delivered_at = COALESCE(delivered_at, ?)`. -/
def deliverCancellation (leaseId : OpaqueId) (now : Time) : Body Unit :=
  exec (setLeaseCancellation leaseId fun c => { c with deliveredAt := c.deliveredAt.or (some now) })

def deliverWhen (cancelled : Bool) (leaseId : OpaqueId) (now : Time) : Body Unit :=
  if cancelled then deliverCancellation leaseId now else pure ()

def renewedExpiry (l : LeaseRow) (deadline : Option Time) (now duration : Time) : Time :=
  match deadline with
  | some d => min (max l.expiresAt (Binary64.add now duration)) d
  | none => max l.expiresAt (Binary64.add now duration)

structure RenewalArgs where
  leaseId : OpaqueId
  workerId : OpaqueId
  workerSessionId : OpaqueId
  duration : Time
  expectedAssignmentId : Option OpaqueId
  sentAt : Option Time
  acknowledgeCancellation : Bool

def renewBody (r : RenewalArgs) (now : Time) : Body (CancelReason ⊕ (LeaseRow × AssignmentRow × Time)) := do
  reconcileStaleWork now
  let found := (← tables).lease? r.leaseId
  raiseIf (∃ l ∈ found, ∃ i ∈ r.expectedAssignmentId, l.assignmentId ≠ i)
    (.conflict "lease does not belong to the assignment path")
  let inactive := Error.invalidState "lease is not active and unexpired"
  let l ← orRaise found inactive
  raiseIf (l.state ≠ .active ∨ l.expiresAt ≤ now) inactive
  raiseIf (l.workerId ≠ r.workerId ∨ l.workerSessionId ≠ r.workerSessionId)
    (.conflict "lease worker session does not match")
  match (← tables).leaseCancellation? r.leaseId with
  | some cancellation => do
    raiseIf (r.acknowledgeCancellation = false) (.invalidState "lease has been cancelled")
    deliverCancellation r.leaseId now
    pure (.inl cancellation.reason)
  | none => do
    raiseIf (∃ s ∈ r.sentAt, ∃ s₀ ∈ l.lastRenewSentAt, s ≤ s₀) (.conflict "renewal sent_at must increase for a lease")
    let a ← assignment l.assignmentId
    raiseIf (due a.deadlineAt now = true) deadlinePassed
    let expiresAt := renewedExpiry l a.deadlineAt now r.duration
    exec (setLease r.leaseId fun l => { l with expiresAt := expiresAt, lastRenewSentAt := r.sentAt.or l.lastRenewSentAt })
    pure (.inr (l, a, expiresAt))

def renewLease (env : Env) (r : RenewalArgs) : Method (CancelReason ⊕ AssignmentLease) := do
  raiseUnless (0 < r.duration) (.value "lease duration must be positive")
  let now ← readClock env
  match ← transaction (renewBody r now) with
  | .inl reason => pure (.inl reason)
  | .inr (l, a, expiresAt) =>
    match buildLease r.leaseId l.attempt r.workerId r.workerSessionId l.issuedAt expiresAt a.assignment with
    | .ok lease => pure (.inr lease)
    | .error e => throw e

/-- One lease of a heartbeat: renewed, or to be stopped.  The rows are those read before the first lease. -/
def heartbeatLease (t : Tables) (now duration : Time) (leaseId : OpaqueId) : Body (LeaseRenewal ⊕ OpaqueId) := do
  let cancelled := (t.leaseCancellation? leaseId).isSome
  deliverWhen cancelled leaseId now
  match (t.lease? leaseId).bind (fun l => (t.assignment? l.assignmentId).map (fun a => (l, a))) with
  | none => pure (.inr leaseId)
  | some (l, a) =>
    if cancelled ∨ l.state ≠ .active ∨ a.state ≠ .leased ∨ l.expiresAt ≤ now ∨ due a.deadlineAt now then
      pure (.inr leaseId)
    else do
      let expiresAt := renewedExpiry l a.deadlineAt now duration
      exec (setLease leaseId fun l => { l with expiresAt := expiresAt })
      pure (.inl ⟨l.assignmentId, leaseId, expiresAt⟩)

def heartbeatLeases (t : Tables) (now duration : Time) : List OpaqueId → Body (List LeaseRenewal × List OpaqueId)
  | [] => pure ([], [])
  | i :: is => do
    let answer ← heartbeatLease t now duration i
    let (renewals, stops) ← heartbeatLeases t now duration is
    match answer with
    | .inl renewal => pure (renewal :: renewals, stops)
    | .inr stop => pure (renewals, stop :: stops)

def heartbeatBody (heartbeat : WorkerHeartbeat) (duration now : Time) : Body (List LeaseRenewal × List OpaqueId) := do
  reconcileStaleWork now
  let session ← compatibleSession heartbeat.workerId heartbeat.workerSessionId
  raiseIf (∃ s ∈ session.lastHeartbeatSentAt, heartbeat.sentAt ≤ s)
    (.conflict "heartbeat sent_at must increase within a worker session")
  validatePolicyIds heartbeat.loadedPolicyIds
  let t ← tables
  raiseIf (∃ i ∈ heartbeat.activeLeaseIds, ∃ l ∈ t.lease? i,
      l.workerId ≠ heartbeat.workerId ∨ l.workerSessionId ≠ heartbeat.workerSessionId)
    (.conflict "heartbeat includes a lease owned by another worker session")
  let answer ← heartbeatLeases t now duration heartbeat.activeLeaseIds
  exec (setSession heartbeat.workerSessionId fun s =>
    { s with lastSeenAt := now, lastHeartbeatSentAt := some heartbeat.sentAt })
  pure answer

def recordHeartbeat (env : Env) (heartbeat : WorkerHeartbeat) (duration : Time) :
    Method (List LeaseRenewal × List OpaqueId) := do
  raiseUnless (0 < duration) (.value "lease duration must be positive")
  let now ← readClock env
  transaction (heartbeatBody heartbeat duration now)

end Repo
end Aether
