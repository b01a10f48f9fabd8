import Mathlib.Data.Rat.Defs
import Mathlib.Algebra.Order.Ring.Rat
/-!
# Protocol — the messages the coordinator exchanges and stores

The fields of `protocol.py`'s models that the coordinator reads.  Times are rationals, canonical JSON documents nothing
looks into (a base model identity, a task, sampling settings) are their text, and a model whose validator relates its
fields carries what the validator checked.
-/
namespace Aether

abbrev OpaqueId := String
abbrev Digest := String
abbrev Time := ℚ
abbrev JsonText := String
abbrev Bytes := List UInt8

inductive Kind | train | eval
deriving DecidableEq, Repr

structure AdapterManifest where
  digest : Digest
deriving DecidableEq, Repr

structure PolicyManifest where
  runId : OpaqueId
  policyVersion : Nat
  baseModel : JsonText
  adapter : Option AdapterManifest
  createdAt : Time
  policyId : OpaqueId
deriving DecidableEq, Repr

/-- What `_policy_identity_digest` hashes: everything of a manifest but when it was created. -/
structure PolicyIdentity where
  runId : OpaqueId
  policyVersion : Nat
  baseModel : JsonText
  adapterDigest : Option Digest
deriving DecidableEq, Repr

def PolicyManifest.identity (m : PolicyManifest) : PolicyIdentity :=
  ⟨m.runId, m.policyVersion, m.baseModel, m.adapter.map (·.digest)⟩

structure WorkerCapabilities where
  baseModel : JsonText
  runtime : JsonText
  inferenceSlots : Nat
  gpuCount : Nat
  tensorParallelSize : Nat
  labels : JsonText
deriving DecidableEq, Repr

structure WorkerRegistration where
  workerId : OpaqueId
  workerSessionId : OpaqueId
  capabilities : WorkerCapabilities
deriving DecidableEq, Repr

structure EnvironmentIdentity where
  id : OpaqueId
  revision : String
deriving DecidableEq, Repr

structure RolloutAssignment where
  assignmentId : OpaqueId
  sourceId : OpaqueId
  groupId : OpaqueId
  groupIndex : Nat
  groupSize : Nat
  kind : Kind
  environment : EnvironmentIdentity
  taskData : JsonText
  sampling : JsonText
  policy : PolicyManifest
  createdAt : Time
  deadlineAt : Option Time
  resultSizeLimitBytes : Nat
  index_lt : groupIndex < groupSize
  created_lt : ∀ d ∈ deadlineAt, createdAt < d
deriving DecidableEq, Repr

structure AssignmentLease where
  leaseId : OpaqueId
  attempt : Nat
  workerId : OpaqueId
  workerSessionId : OpaqueId
  issuedAt : Time
  expiresAt : Time
  assignment : RolloutAssignment
  issued_lt : issuedAt < expiresAt
  created_le : assignment.createdAt ≤ issuedAt
  expires_le : ∀ d ∈ assignment.deadlineAt, expiresAt ≤ d
deriving DecidableEq, Repr

structure WorkerHeartbeat where
  workerId : OpaqueId
  workerSessionId : OpaqueId
  sentAt : Time
  activeLeaseIds : List OpaqueId
  loadedPolicyIds : List OpaqueId
  active_sorted : activeLeaseIds.Pairwise (· < ·)
  loaded_sorted : loadedPolicyIds.Pairwise (· < ·)
deriving DecidableEq, Repr

structure LeaseRequest where
  requestId : OpaqueId
  workerId : OpaqueId
  workerSessionId : OpaqueId
  sentAt : Time
  loadedPolicyIds : List OpaqueId
  availableSlots : Nat
  waitSeconds : Time
  loaded_sorted : loadedPolicyIds.Pairwise (· < ·)
  slots_pos : 0 < availableSlots
  wait_bounds : 0 ≤ waitSeconds ∧ waitSeconds ≤ 60
deriving DecidableEq, Repr

structure LeaseRenewal where
  assignmentId : OpaqueId
  leaseId : OpaqueId
  expiresAt : Time
deriving DecidableEq, Repr

structure ResultEnvelope where
  assignmentId : OpaqueId
  attempt : Nat
  leaseId : OpaqueId
  workerId : OpaqueId
  workerSessionId : OpaqueId
  requestedPolicyId : OpaqueId
  requestedPolicyDigest : Digest
  completedAt : Time
  episode : JsonText
deriving DecidableEq, Repr

structure FailureEnvelope where
  assignmentId : OpaqueId
  attempt : Nat
  leaseId : OpaqueId
  workerId : OpaqueId
  workerSessionId : OpaqueId
  failedAt : Time
  code : OpaqueId
  message : String
  retryable : Bool
  details : JsonText
deriving DecidableEq, Repr

end Aether
