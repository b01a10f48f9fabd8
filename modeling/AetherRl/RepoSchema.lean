import Mathlib.Tactic.MkIffOfInductiveProp
import Mathlib.Data.List.Nodup
import AetherRl.Protocol
/-!
# RepoSchema — the coordinator's tables and their constraints

One structure per table of `migrations.py` at schema version 5, a row list each in insertion order, and one structure
of constraints per table: primary keys, `UNIQUE`, foreign keys (a null column refers to nothing) and `CHECK`s.
`SchemaOk` is what SQLite keeps with `PRAGMA foreign_keys = ON`: every foreign key is immediate, so it holds after every
statement, and a `Db` is tables that satisfy it.  Columns no statement leaves null (`creation_key`, `sequence`) are not
optional here.
-/
namespace Aether

/-! ## Rows -/

inductive AssignmentState | pending | retryWait | leased | succeeded | failed
deriving DecidableEq, Repr

/-- `state IN ('succeeded', 'failed')`. -/
def AssignmentState.terminal : AssignmentState → Bool
  | .succeeded | .failed => true
  | _ => false

/-- `state IN ('pending', 'retry_wait')`. -/
def AssignmentState.waiting : AssignmentState → Bool
  | .pending | .retryWait => true
  | _ => false

inductive LeaseState | active | succeeded | failed | expired
deriving DecidableEq, Repr

inductive GroupState | collecting | ready
deriving DecidableEq, Repr

inductive ProcessingState | pending | processing | processed
deriving DecidableEq, Repr

inductive Outcome | result | failure | attemptsExhausted | deadlineExceeded
deriving DecidableEq, Repr

inductive CancelReason | policyStale | cancelled
deriving DecidableEq, Repr

inductive RequestState | pending | noWork | leased
deriving DecidableEq, Repr

structure RunRow where
  runId : OpaqueId
  baseModel : JsonText
  basePolicyId : OpaqueId
  activePolicyId : OpaqueId
  createdAt : Time
deriving DecidableEq

structure PolicyRow where
  policyId : OpaqueId
  policyVersion : Nat
  manifestDigest : Digest
  manifest : PolicyManifest
  artifactPath : Option String
  createdAt : Time
deriving DecidableEq

structure WorkerRow where
  workerId : OpaqueId
  firstRegisteredAt : Time
deriving DecidableEq

structure SessionRow where
  workerSessionId : OpaqueId
  workerId : OpaqueId
  capabilities : WorkerCapabilities
  registeredAt : Time
  lastSeenAt : Time
  lastHeartbeatSentAt : Option Time
  lastLeaseRequestSentAt : Option Time
deriving DecidableEq

structure GroupRow where
  groupId : OpaqueId
  policyId : OpaqueId
  kind : Kind
  environmentId : OpaqueId
  environmentRevision : String
  task : JsonText
  sampling : JsonText
  groupSize : Nat
  state : GroupState
  createdAt : Time
  creationKey : String
  sequence : Nat
  sourceId : Option OpaqueId
deriving DecidableEq

structure AssignmentRow where
  assignmentId : OpaqueId
  groupId : OpaqueId
  groupIndex : Nat
  assignment : RolloutAssignment
  policyId : OpaqueId
  policyManifestDigest : Digest
  state : AssignmentState
  maxAttempts : Nat
  attemptCount : Nat
  availableAt : Time
  deadlineAt : Option Time
  currentLeaseId : Option OpaqueId
deriving DecidableEq

structure LeaseRow where
  leaseId : OpaqueId
  assignmentId : OpaqueId
  attempt : Nat
  workerId : OpaqueId
  workerSessionId : OpaqueId
  issuedAt : Time
  expiresAt : Time
  state : LeaseState
  lastRenewSentAt : Option Time
deriving DecidableEq

structure ResultRow where
  assignmentId : OpaqueId
  leaseId : OpaqueId
  envelopeDigest : Digest
  artifactPath : String
  sizeBytes : Nat
  acceptedAt : Time
  processingState : ProcessingState
deriving DecidableEq

structure FailureRow where
  leaseId : OpaqueId
  assignmentId : OpaqueId
  envelopeDigest : Digest
  envelope : FailureEnvelope
  acceptedAt : Time
  retryable : Bool
  terminal : Bool
deriving DecidableEq

structure OutcomeRow where
  assignmentId : OpaqueId
  outcome : Outcome
  leaseId : Option OpaqueId
  envelopeDigest : Option Digest
  completedAt : Time
deriving DecidableEq

structure SchedulerRow where
  nextGroupSequence : Nat
  maxPolicyLag : Option Int
  loadedPolicyPreferenceSeconds : Option Time
deriving DecidableEq

structure SourceRow where
  sourceId : OpaqueId
  kind : Kind
  environmentId : OpaqueId
  environmentRevision : String
  weight : ℚ
  virtualFinish : ℚ
  cursor : Nat
  tasks : List JsonText
  sampling : JsonText
  groupSize : Nat
  maxAttempts : Nat
  resultSizeLimitBytes : Nat
  assignmentTimeoutSeconds : Option Time
  enabled : Bool
deriving DecidableEq

structure CancellationRow where
  assignmentId : OpaqueId
  reason : CancelReason
  requestedAt : Time
  terminal : Bool
deriving DecidableEq

structure LeaseCancellationRow where
  leaseId : OpaqueId
  assignmentId : OpaqueId
  reason : CancelReason
  requestedAt : Time
  deliveredAt : Option Time
deriving DecidableEq

structure RequestRow where
  requestId : OpaqueId
  workerSessionId : OpaqueId
  requestDigest : Digest
  state : RequestState
  leaseId : Option OpaqueId
  createdAt : Time
  completedAt : Option Time
deriving DecidableEq

structure BatchRow where
  step : Int
  artifactDigest : Digest
  artifactPath : String
  sizeBytes : Int
  sampleCount : Int
  createdAt : Time
deriving DecidableEq

structure ProcessedGroupRow where
  groupId : OpaqueId
  inputDigest : Digest
  artifactDigest : Digest
  artifactPath : String
  sizeBytes : Int
  rolloutCount : Nat
  processedAt : Time
deriving DecidableEq

structure ProcessedRolloutRow where
  groupId : OpaqueId
  ordinal : Int
  tokenCount : Int
  batchStep : Option Int
  batchOrdinal : Option Int
  discarded : Bool
deriving DecidableEq

structure Tables where
  run : Option RunRow
  policies : List PolicyRow
  workers : List WorkerRow
  sessions : List SessionRow
  groups : List GroupRow
  assignments : List AssignmentRow
  leases : List LeaseRow
  results : List ResultRow
  failures : List FailureRow
  outcomes : List OutcomeRow
  scheduler : SchedulerRow
  sources : List SourceRow
  cancellations : List CancellationRow
  leaseCancellations : List LeaseCancellationRow
  requests : List RequestRow
  batches : List BatchRow
  processedGroups : List ProcessedGroupRow
  processedRollouts : List ProcessedRolloutRow
deriving DecidableEq

/-! ## Constraints -/

/-- `length(d) = 71 AND substr(d, 1, 7) = 'sha256:'`. -/
def digestShape (d : Digest) : Bool :=
  decide (d.length = 71) && decide (d.toList.take 7 = "sha256:".toList)

@[mk_iff] structure RunOk (t : Tables) : Prop where
  basePolicy : ∀ r ∈ t.run, ∃ p ∈ t.policies, p.policyId = r.basePolicyId
  activePolicy : ∀ r ∈ t.run, ∃ p ∈ t.policies, p.policyId = r.activePolicyId

@[mk_iff] structure PoliciesOk (t : Tables) : Prop where
  key : (t.policies.map (·.policyId)).Nodup
  version : (t.policies.map (·.policyVersion)).Nodup
  digest : (t.policies.map (·.manifestDigest)).Nodup
  path : ∀ p ∈ t.policies, p.policyVersion = 0 ↔ p.artifactPath = none

@[mk_iff] structure SessionsOk (t : Tables) : Prop where
  workerKey : (t.workers.map (·.workerId)).Nodup
  key : (t.sessions.map (·.workerSessionId)).Nodup
  worker : ∀ s ∈ t.sessions, ∃ w ∈ t.workers, w.workerId = s.workerId

@[mk_iff] structure GroupsOk (t : Tables) : Prop where
  key : (t.groups.map (·.groupId)).Nodup
  creationKey : (t.groups.map (·.creationKey)).Nodup
  sequence : (t.groups.map (·.sequence)).Nodup
  policy : ∀ g ∈ t.groups, ∃ p ∈ t.policies, p.policyId = g.policyId
  source : ∀ g ∈ t.groups, ∀ i ∈ g.sourceId, ∃ s ∈ t.sources, s.sourceId = i
  size : ∀ g ∈ t.groups, 0 < g.groupSize

@[mk_iff] structure AssignmentsOk (t : Tables) : Prop where
  key : (t.assignments.map (·.assignmentId)).Nodup
  index : (t.assignments.map (fun a => (a.groupId, a.groupIndex))).Nodup
  group : ∀ a ∈ t.assignments, ∃ g ∈ t.groups, g.groupId = a.groupId ∧ g.policyId = a.policyId
  policy : ∀ a ∈ t.assignments, ∃ p ∈ t.policies, p.policyId = a.policyId ∧ p.manifestDigest = a.policyManifestDigest
  currentLease : ∀ a ∈ t.assignments, ∀ i ∈ a.currentLeaseId,
    ∃ l ∈ t.leases, l.assignmentId = a.assignmentId ∧ l.leaseId = i
  maxAttempts : ∀ a ∈ t.assignments, 0 < a.maxAttempts

@[mk_iff] structure LeasesOk (t : Tables) : Prop where
  key : (t.leases.map (·.leaseId)).Nodup
  attempt : (t.leases.map (fun l => (l.assignmentId, l.attempt))).Nodup
  assignment : ∀ l ∈ t.leases, ∃ a ∈ t.assignments, a.assignmentId = l.assignmentId
  session : ∀ l ∈ t.leases, ∃ s ∈ t.sessions, s.workerId = l.workerId ∧ s.workerSessionId = l.workerSessionId
  attemptPos : ∀ l ∈ t.leases, 0 < l.attempt
  times : ∀ l ∈ t.leases, l.issuedAt < l.expiresAt

@[mk_iff] structure ResultsOk (t : Tables) : Prop where
  key : (t.results.map (·.assignmentId)).Nodup
  lease : (t.results.map (·.leaseId)).Nodup
  digest : (t.results.map (·.envelopeDigest)).Nodup
  path : (t.results.map (·.artifactPath)).Nodup
  assignment : ∀ r ∈ t.results, ∃ a ∈ t.assignments, a.assignmentId = r.assignmentId
  attempt : ∀ r ∈ t.results, ∃ l ∈ t.leases, l.assignmentId = r.assignmentId ∧ l.leaseId = r.leaseId
  size : ∀ r ∈ t.results, 0 < r.sizeBytes

@[mk_iff] structure FailuresOk (t : Tables) : Prop where
  key : (t.failures.map (·.leaseId)).Nodup
  digest : (t.failures.map (·.envelopeDigest)).Nodup
  assignment : ∀ f ∈ t.failures, ∃ a ∈ t.assignments, a.assignmentId = f.assignmentId
  attempt : ∀ f ∈ t.failures, ∃ l ∈ t.leases, l.assignmentId = f.assignmentId ∧ l.leaseId = f.leaseId

@[mk_iff] structure OutcomesOk (t : Tables) : Prop where
  key : (t.outcomes.map (·.assignmentId)).Nodup
  assignment : ∀ o ∈ t.outcomes, ∃ a ∈ t.assignments, a.assignmentId = o.assignmentId
  attempt : ∀ o ∈ t.outcomes, ∀ i ∈ o.leaseId, ∃ l ∈ t.leases, l.assignmentId = o.assignmentId ∧ l.leaseId = i

@[mk_iff] structure SchedulerOk (t : Tables) : Prop where
  next : 0 < t.scheduler.nextGroupSequence
  lag : ∀ n ∈ t.scheduler.maxPolicyLag, 0 ≤ n
  preference : ∀ s ∈ t.scheduler.loadedPolicyPreferenceSeconds, 0 ≤ s

@[mk_iff] structure SourcesOk (t : Tables) : Prop where
  key : (t.sources.map (·.sourceId)).Nodup
  weight : ∀ s ∈ t.sources, 0 < s.weight
  groupSize : ∀ s ∈ t.sources, 0 < s.groupSize
  maxAttempts : ∀ s ∈ t.sources, 0 < s.maxAttempts
  sizeLimit : ∀ s ∈ t.sources, 0 < s.resultSizeLimitBytes
  timeout : ∀ s ∈ t.sources, ∀ x ∈ s.assignmentTimeoutSeconds, 0 < x

@[mk_iff] structure CancellationsOk (t : Tables) : Prop where
  key : (t.cancellations.map (·.assignmentId)).Nodup
  assignment : ∀ c ∈ t.cancellations, ∃ a ∈ t.assignments, a.assignmentId = c.assignmentId
  leaseKey : (t.leaseCancellations.map (·.leaseId)).Nodup
  lease : ∀ c ∈ t.leaseCancellations, ∃ l ∈ t.leases, l.assignmentId = c.assignmentId ∧ l.leaseId = c.leaseId

@[mk_iff] structure RequestsOk (t : Tables) : Prop where
  key : (t.requests.map (·.requestId)).Nodup
  session : ∀ r ∈ t.requests, ∃ s ∈ t.sessions, s.workerSessionId = r.workerSessionId
  lease : ∀ r ∈ t.requests, ∀ i ∈ r.leaseId, ∃ l ∈ t.leases, l.leaseId = i
  leaseUnique : (t.requests.filterMap (·.leaseId)).Nodup
  digest : ∀ r ∈ t.requests, digestShape r.requestDigest = true
  completed : ∀ r ∈ t.requests, ∀ c ∈ r.completedAt, r.createdAt ≤ c
  shape : ∀ r ∈ t.requests, (r.state = .pending ∧ r.leaseId = none ∧ r.completedAt = none) ∨
    (r.state = .noWork ∧ r.leaseId = none ∧ r.completedAt ≠ none) ∨
    (r.state = .leased ∧ r.leaseId ≠ none ∧ r.completedAt ≠ none)

@[mk_iff] structure BatchesOk (t : Tables) : Prop where
  key : (t.batches.map (·.step)).Nodup
  digestUnique : (t.batches.map (·.artifactDigest)).Nodup
  path : (t.batches.map (·.artifactPath)).Nodup
  step : ∀ b ∈ t.batches, 0 < b.step
  size : ∀ b ∈ t.batches, 0 < b.sizeBytes
  samples : ∀ b ∈ t.batches, 0 < b.sampleCount
  digest : ∀ b ∈ t.batches, digestShape b.artifactDigest = true

@[mk_iff] structure ProcessedOk (t : Tables) : Prop where
  groupKey : (t.processedGroups.map (·.groupId)).Nodup
  groupDigest : (t.processedGroups.map (·.artifactDigest)).Nodup
  groupPath : (t.processedGroups.map (·.artifactPath)).Nodup
  group : ∀ p ∈ t.processedGroups, ∃ g ∈ t.groups, g.groupId = p.groupId
  groupSize : ∀ p ∈ t.processedGroups, 0 < p.sizeBytes
  inputShape : ∀ p ∈ t.processedGroups, digestShape p.inputDigest = true
  artifactShape : ∀ p ∈ t.processedGroups, digestShape p.artifactDigest = true
  key : (t.processedRollouts.map (fun r => (r.groupId, r.ordinal))).Nodup
  processed : ∀ r ∈ t.processedRollouts, ∃ p ∈ t.processedGroups, p.groupId = r.groupId
  batch : ∀ r ∈ t.processedRollouts, ∀ n ∈ r.batchStep, ∃ b ∈ t.batches, b.step = n
  place : (t.processedRollouts.filterMap (fun r => r.batchStep.bind (fun n => r.batchOrdinal.map (fun o => (n, o))))).Nodup
  ordinal : ∀ r ∈ t.processedRollouts, 0 ≤ r.ordinal
  tokens : ∀ r ∈ t.processedRollouts, 0 ≤ r.tokenCount
  placed : ∀ r ∈ t.processedRollouts, (r.batchStep = none ∧ r.batchOrdinal = none) ∨
    (r.batchStep ≠ none ∧ r.batchOrdinal ≠ none ∧ ∀ o ∈ r.batchOrdinal, 0 ≤ o)
  discarded : ∀ r ∈ t.processedRollouts, r.discarded = false ∨ r.batchStep = none

/-- **Every constraint of the schema.** -/
@[mk_iff] structure SchemaOk (t : Tables) : Prop where
  run : RunOk t
  policies : PoliciesOk t
  sessions : SessionsOk t
  groups : GroupsOk t
  assignments : AssignmentsOk t
  leases : LeasesOk t
  results : ResultsOk t
  failures : FailuresOk t
  outcomes : OutcomesOk t
  scheduler : SchedulerOk t
  sources : SourcesOk t
  cancellations : CancellationsOk t
  requests : RequestsOk t
  batches : BatchesOk t
  processed : ProcessedOk t

instance (t : Tables) : Decidable (RunOk t) := decidable_of_iff' _ (runOk_iff t)
instance (t : Tables) : Decidable (PoliciesOk t) := decidable_of_iff' _ (policiesOk_iff t)
instance (t : Tables) : Decidable (SessionsOk t) := decidable_of_iff' _ (sessionsOk_iff t)
instance (t : Tables) : Decidable (GroupsOk t) := decidable_of_iff' _ (groupsOk_iff t)
instance (t : Tables) : Decidable (AssignmentsOk t) := decidable_of_iff' _ (assignmentsOk_iff t)
instance (t : Tables) : Decidable (LeasesOk t) := decidable_of_iff' _ (leasesOk_iff t)
instance (t : Tables) : Decidable (ResultsOk t) := decidable_of_iff' _ (resultsOk_iff t)
instance (t : Tables) : Decidable (FailuresOk t) := decidable_of_iff' _ (failuresOk_iff t)
instance (t : Tables) : Decidable (OutcomesOk t) := decidable_of_iff' _ (outcomesOk_iff t)
instance (t : Tables) : Decidable (SchedulerOk t) := decidable_of_iff' _ (schedulerOk_iff t)
instance (t : Tables) : Decidable (SourcesOk t) := decidable_of_iff' _ (sourcesOk_iff t)
instance (t : Tables) : Decidable (CancellationsOk t) := decidable_of_iff' _ (cancellationsOk_iff t)
instance (t : Tables) : Decidable (RequestsOk t) := decidable_of_iff' _ (requestsOk_iff t)
instance (t : Tables) : Decidable (BatchesOk t) := decidable_of_iff' _ (batchesOk_iff t)
instance (t : Tables) : Decidable (ProcessedOk t) := decidable_of_iff' _ (processedOk_iff t)
instance (t : Tables) : Decidable (SchemaOk t) := decidable_of_iff' _ (schemaOk_iff t)

/-- Tables that satisfy their schema: what a connection with foreign keys on can hold. -/
structure Db extends Tables where
  ok : SchemaOk toTables

theorem Db.ext_tables {d d' : Db} (h : d.toTables = d'.toTables) : d = d' := by
  cases d; cases d'; cases h; rfl

/-- What `_migrate` leaves: every table empty, one scheduler row. -/
def Tables.empty : Tables where
  run := none
  policies := []
  workers := []
  sessions := []
  groups := []
  assignments := []
  leases := []
  results := []
  failures := []
  outcomes := []
  scheduler := ⟨1, none, none⟩
  sources := []
  cancellations := []
  leaseCancellations := []
  requests := []
  batches := []
  processedGroups := []
  processedRollouts := []

def Db.empty : Db := ⟨Tables.empty, by decide⟩

end Aether
