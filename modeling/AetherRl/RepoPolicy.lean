import AetherRl.RepoReap
/-!
# RepoPolicy — the run, its policies, the scheduler's settings and the worker sessions

`initialize_run`, `record_policy`, `record_and_activate_policy`, `activate_policy`, `configure_scheduler` and
`register_worker` of `database.py`.  What the file system says of a policy's artifact directory is an argument of the
call that asks: `Artifacts` for a recorded row, an optional manifest for a directory about to be recorded.
-/
namespace Aether
namespace Repo

open Txn (raiseIf orRaise orThrow forEach)
open Tables

/-- Whether the artifact directory of a trained policy's row still verifies. -/
abbrev Artifacts := PolicyRow → Bool

/-- `_verify_policy_row`. -/
def verifyPolicyRow (env : Env) (artifacts : Artifacts) (row : PolicyRow) : Body Unit :=
  raiseIf (row.manifest.policyId ≠ row.policyId ∨ row.manifest.policyVersion ≠ row.policyVersion ∨
      env.codec.policyManifestDigest row.manifest ≠ row.manifestDigest ∨
      (row.policyVersion ≠ 0 ∧ artifacts row = false))
    (.artifactCorruption ("published policy artifact is corrupt: " ++ row.policyId))

def initializeRunBody (basePolicy : PolicyManifest) (manifestDigest : Digest) : Body Unit := do
  match (← tables).run with
  | some existing => do
    let policy ← orRaise ((← tables).policy? existing.basePolicyId) .type
    raiseIf (¬ (existing.runId = basePolicy.runId ∧ policy.manifestDigest = manifestDigest))
      (.conflict "coordinator database is already initialized for a different run")
  | none => do
    exec (insertPolicy ⟨basePolicy.policyId, 0, manifestDigest, basePolicy, none, basePolicy.createdAt⟩)
    exec (insertRun ⟨basePolicy.runId, basePolicy.baseModel, basePolicy.policyId, basePolicy.policyId,
      basePolicy.createdAt⟩)

def initializeRun (env : Env) (basePolicy : PolicyManifest) : Method Unit := do
  raiseUnless (basePolicy.policyVersion = 0) (.value "a run must be initialized from policy version 0")
  let manifestDigest := env.codec.policyManifestDigest basePolicy
  transaction (initializeRunBody basePolicy manifestDigest)

/-! ## Recording and activating policies -/

/-- `verify_lora_policy(path, expected=manifest)` on a directory whose manifest file reads `onDisk`. -/
def prepareTrainedPolicyRecord (env : Env) (manifest : PolicyManifest) (onDisk : Option PolicyManifest) :
    Except Error PolicyManifest :=
  if manifest.policyVersion = 0 then .error (.value "record_policy only records trained policies")
  else match onDisk with
    | none => .error (.value "policy artifact must contain regular files")
    | some verified =>
      if verified.adapter = none then .error (.value "published policy must contain an adapter")
      else if env.codec.policyManifestDigest verified ≠ env.codec.policyManifestDigest manifest then
        .error (.value "existing policy does not match the requested policy")
      else .ok verified

def recordPolicyInTransaction (env : Env) (verified : PolicyManifest) (relativePath : String) : Body Unit := do
  let digest := env.codec.policyManifestDigest verified
  let run ← run
  raiseIf (verified.runId ≠ run.runId ∨ verified.baseModel ≠ run.baseModel)
    (.conflict "policy does not belong to this run and base model")
  match (← tables).policies.find? (fun p =>
    decide (p.policyId = verified.policyId) || decide (p.policyVersion = verified.policyVersion)) with
  | some existing =>
    raiseIf (¬ (existing.manifestDigest = digest ∧ existing.artifactPath = some relativePath))
      (.conflict "policy version or ID already has different immutable contents")
  | none =>
    exec (insertPolicy ⟨verified.policyId, verified.policyVersion, digest, verified, some relativePath,
      verified.createdAt⟩)

def recordPolicy (env : Env) (manifest : PolicyManifest) (path : String) (onDisk : Option PolicyManifest) :
    Method Unit := do
  match prepareTrainedPolicyRecord env manifest onDisk with
  | .error e => throw e
  | .ok verified => transaction (recordPolicyInTransaction env verified path)

/-- The monotone switch of the active policy that both activations end with. -/
def activate (policyId : OpaqueId) (policyVersion : Nat) (now : Time) : Body Unit := do
  let active ← orRaise (← tables).activePolicy? (.invalidState "run has not been initialized")
  raiseIf (policyVersion < active.policyVersion) (.invalidState "policy activation must be monotonic")
  exec (setRun fun r => { r with activePolicyId := policyId })
  reconcileStaleWork now

def recordAndActivateBody (env : Env) (verified : PolicyManifest) (path : String) (now : Time) : Body Unit := do
  recordPolicyInTransaction env verified path
  activate verified.policyId verified.policyVersion now

/-- The clock is read only when the activation gets as far as reconciling stale work; reading it first changes nothing
but the number of readings. -/
def recordAndActivatePolicy (env : Env) (manifest : PolicyManifest) (path : String) (onDisk : Option PolicyManifest) :
    Method PolicyManifest := do
  match prepareTrainedPolicyRecord env manifest onDisk with
  | .error e => throw e
  | .ok verified => do
    let now ← readClock env
    transaction (recordAndActivateBody env verified path now)
    pure verified

def activatePolicyBody (env : Env) (policyId : OpaqueId) (artifacts : Artifacts) (now : Time) : Body PolicyManifest := do
  let target ← orRaise ((← tables).policy? policyId) (.invalidState "cannot activate an unpublished policy")
  verifyPolicyRow env artifacts target
  activate policyId target.policyVersion now
  pure target.manifest

def activatePolicy (env : Env) (policyId : OpaqueId) (artifacts : Artifacts) : Method PolicyManifest := do
  let now ← readClock env
  transaction (activatePolicyBody env policyId artifacts now)

def configureSchedulerBody (maxPolicyLag : Int) (loadedPolicyPreferenceSeconds now : Time) : Body Unit := do
  exec (setScheduler fun s => { s with
    maxPolicyLag := some maxPolicyLag
    loadedPolicyPreferenceSeconds := some loadedPolicyPreferenceSeconds })
  reconcileStaleWork now

def configureScheduler (env : Env) (maxPolicyLag : Int) (loadedPolicyPreferenceSeconds : Time) : Method Unit := do
  raiseUnless (0 ≤ maxPolicyLag ∧ 0 ≤ loadedPolicyPreferenceSeconds)
    (.value "scheduler preference and policy lag must be non-negative")
  let now ← readClock env
  transaction (configureSchedulerBody maxPolicyLag loadedPolicyPreferenceSeconds now)

/-! ## Worker sessions -/

structure RegistrationRecord where
  workerId : OpaqueId
  workerSessionId : OpaqueId
  created : Bool
deriving DecidableEq

def registerWorkerBody (registration : WorkerRegistration) (receivedAt : Time) : Body RegistrationRecord := do
  let run ← run
  raiseIf (registration.capabilities.baseModel ≠ run.baseModel)
    (.incompatibleWorker "worker base model does not match the run")
  match (← tables).session? registration.workerSessionId with
  | some existing => do
    raiseIf (existing.workerId ≠ registration.workerId ∨ existing.capabilities ≠ registration.capabilities)
      (.conflict "worker session identity or capabilities conflict")
    pure ⟨registration.workerId, registration.workerSessionId, false⟩
  | none => do
    exec (insertWorkerOrIgnore ⟨registration.workerId, receivedAt⟩)
    exec (insertSession ⟨registration.workerSessionId, registration.workerId, registration.capabilities, receivedAt,
      receivedAt, none, none⟩)
    pure ⟨registration.workerId, registration.workerSessionId, true⟩

def registerWorker (env : Env) (registration : WorkerRegistration) : Method RegistrationRecord := do
  let receivedAt ← readClock env
  transaction (registerWorkerBody registration receivedAt)

end Repo
end Aether
