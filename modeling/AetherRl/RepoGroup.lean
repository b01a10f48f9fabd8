import AetherRl.RepoPolicy
/-!
# RepoGroup — scheduler sources and the groups created from them

`register_scheduler_source`, `create_next_group` and `create_group` of `database.py`, with `EnvironmentSourceSpec` of
`environments.py`.  `id_factory` is the sequence of ids it hands out: the group's first, then one for each assignment.
-/
namespace Aether
namespace Repo

open Txn (raiseIf orRaise orThrow forEach)
open Tables

structure EnvironmentSourceSpec where
  sourceId : OpaqueId
  kind : Kind
  environment : EnvironmentIdentity
  tasks : List JsonText
  sampling : JsonText
  groupSize : Nat
  maxAttempts : Nat
  resultSizeLimitBytes : Nat
  assignmentTimeoutSeconds : Option Time
  weight : ℚ
  enabled : Bool
  tasks_ne : tasks ≠ []
  groupSize_pos : 0 < groupSize
  maxAttempts_pos : 0 < maxAttempts
  sizeLimit_pos : 0 < resultSizeLimitBytes
  timeout_pos : ∀ x ∈ assignmentTimeoutSeconds, 0 < x
  weight_pos : 0 < weight

/-- The row a source is registered as; its settings never change after. -/
def EnvironmentSourceSpec.row (spec : EnvironmentSourceSpec) (virtualFinish : ℚ) (cursor : Nat) : SourceRow :=
  ⟨spec.sourceId, spec.kind, spec.environment.id, spec.environment.revision, spec.weight, virtualFinish, cursor,
    spec.tasks, spec.sampling, spec.groupSize, spec.maxAttempts, spec.resultSizeLimitBytes,
    spec.assignmentTimeoutSeconds, spec.enabled⟩

/-- `COALESCE((SELECT MIN(virtual_finish) FROM scheduler_sources WHERE enabled = 1), 0)`. -/
def minVirtualFinish (t : Tables) : ℚ :=
  (((t.sources.filter (·.enabled)).map (·.virtualFinish)).min?).getD 0

def registerSchedulerSourceBody (spec : EnvironmentSourceSpec) : Body Unit := do
  match (← tables).source? spec.sourceId with
  | some existing =>
    raiseIf (existing ≠ spec.row existing.virtualFinish existing.cursor)
      (.conflict "scheduler source already has different immutable contents or settings")
  | none =>
    exec (fun t => insertSource (spec.row (minVirtualFinish t) 0) t)

def registerSchedulerSource (spec : EnvironmentSourceSpec) : Method Unit :=
  transaction (registerSchedulerSourceBody spec)

/-! ## Groups -/

structure CreatedGroup where
  groupId : OpaqueId
  creationKey : String
  sequence : Nat
  sourceId : OpaqueId
  sourceCursor : Nat
  assignments : List RolloutAssignment
deriving DecidableEq

def creationKey (sourceId : OpaqueId) (cursor : Nat) : String :=
  "source:" ++ sourceId ++ ":occurrence:" ++ toString cursor

def allocateGroupSequence : Body Nat := do
  let sequence := (← tables).scheduler.nextGroupSequence
  exec (setScheduler fun s => { s with nextGroupSequence := sequence + 1 })
  pure sequence

def insertAssignment (env : Env) (a : RolloutAssignment) (maxAttempts : Nat) : Body Unit :=
  exec (insertAssignmentRow ⟨a.assignmentId, a.groupId, a.groupIndex, a, a.policy.policyId,
    env.codec.policyManifestDigest a.policy, .pending, maxAttempts, 0, a.createdAt, a.deadlineAt, none⟩)

/-- The sources a kind may be created from, in the order the scheduler serves them. -/
def servedSources (t : Tables) (kind : Option Kind) : List SourceRow :=
  Rows.orderBy (fun s => toLex (s.virtualFinish, s.sourceId)) <|
    t.sources.filter (fun s => s.enabled && kind.all (fun k => decide (s.kind = k)))

/-- The assignment of one index of a new group, which its own validator must admit. -/
def sourceAssignment (source : SourceRow) (policy : PolicyManifest) (task : JsonText) (now : Time)
    (deadline : Option Time) (groupId : OpaqueId) (ids : Nat → OpaqueId) (index : Nat) :
    Except Error RolloutAssignment :=
  if h : index < source.groupSize ∧ ∀ d ∈ deadline, now < d then
    .ok ⟨ids (index + 1), source.sourceId, groupId, index, source.groupSize, source.kind,
      ⟨source.environmentId, source.environmentRevision⟩, task, source.sampling, policy, now, deadline,
      source.resultSizeLimitBytes, h.1, h.2⟩
  else .error .validation

/-- The group already created for this occurrence: the source moves on and the group is returned again. -/
def existingGroup (source : SourceRow) (key : String) (existing : GroupRow) : Body CreatedGroup := do
  let rows := Rows.orderBy (·.groupIndex) ((← tables).assignments.filter (fun a => decide (a.groupId = existing.groupId)))
  raiseIf (rows.length ≠ source.groupSize) (.conflict "existing scheduler group is incomplete")
  exec (setSource source.sourceId fun s =>
    if s.cursor = source.cursor then
      { s with cursor := s.cursor + 1, virtualFinish := s.virtualFinish + s.groupSize / s.weight }
    else s)
  pure ⟨existing.groupId, key, existing.sequence, source.sourceId, source.cursor, rows.map (·.assignment)⟩

def newGroup (env : Env) (source : SourceRow) (policy : PolicyManifest) (task : JsonText) (key : String) (now : Time)
    (ids : Nat → OpaqueId) : Body CreatedGroup := do
  let sequence ← allocateGroupSequence
  let groupId := ids 0
  let deadline := source.assignmentTimeoutSeconds.map (now + ·)
  let assignments ← orThrow ((List.range source.groupSize).mapM
    (sourceAssignment source policy task now deadline groupId ids))
  exec (insertGroup ⟨groupId, policy.policyId, source.kind, source.environmentId, source.environmentRevision, task,
    source.sampling, source.groupSize, .collecting, now, key, sequence, some source.sourceId⟩)
  forEach assignments (fun a => insertAssignment env a source.maxAttempts)
  exec (setSource source.sourceId fun s =>
    { s with cursor := s.cursor + 1, virtualFinish := s.virtualFinish + s.groupSize / s.weight })
  pure ⟨groupId, key, sequence, source.sourceId, source.cursor, assignments⟩

def createNextGroupBody (env : Env) (kind : Option Kind) (ids : Nat → OpaqueId) (artifacts : Artifacts) (now : Time) :
    Body (Option CreatedGroup) := do
  match (servedSources (← tables) kind).head? with
  | none => pure none
  | some source => do
    let policyRow ← orRaise (← tables).activePolicy? (.invalidState "run has not been initialized")
    verifyPolicyRow env artifacts policyRow
    let task ← orRaise source.tasks[source.cursor % source.tasks.length]? .type
    let key := creationKey source.sourceId source.cursor
    match (← tables).groups.find? (fun g => decide (g.creationKey = key)) with
    | some existing => some <$> existingGroup source key existing
    | none => some <$> newGroup env source policyRow.manifest task key now ids

def createNextGroup (env : Env) (kind : Option Kind) (ids : Nat → OpaqueId) (artifacts : Artifacts) :
    Method (Option CreatedGroup) := do
  let now ← readClock env
  transaction (createNextGroupBody env kind ids artifacts now)

/-- The inputs every assignment of a group must share. -/
structure GroupInputs where
  sourceId : OpaqueId
  groupId : OpaqueId
  groupSize : Nat
  kind : Kind
  environment : EnvironmentIdentity
  taskData : JsonText
  sampling : JsonText
  policyId : OpaqueId
  policyManifestDigest : Digest
  createdAt : Time
  deadlineAt : Option Time
  resultSizeLimitBytes : Nat
deriving DecidableEq

def groupInputs (env : Env) (a : RolloutAssignment) : GroupInputs :=
  ⟨a.sourceId, a.groupId, a.groupSize, a.kind, a.environment, a.taskData, a.sampling, a.policy.policyId,
    env.codec.policyManifestDigest a.policy, a.createdAt, a.deadlineAt, a.resultSizeLimitBytes⟩

def manualKey (groupId : OpaqueId) : String := "manual:" ++ groupId

def createGroupBody (env : Env) (first : RolloutAssignment) (assignments : List RolloutAssignment) (maxAttempts : Nat) :
    Body Unit := do
  let policy ← orRaise ((← tables).policy? first.policy.policyId)
    (.conflict "assignment policy is not the exact published policy")
  raiseIf (policy.manifestDigest ≠ env.codec.policyManifestDigest first.policy)
    (.conflict "assignment policy is not the exact published policy")
  let sequence ← allocateGroupSequence
  exec (insertGroup ⟨first.groupId, first.policy.policyId, first.kind, first.environment.id,
    first.environment.revision, first.taskData, first.sampling, first.groupSize, .collecting, first.createdAt,
    manualKey first.groupId, sequence, none⟩)
  forEach (Rows.orderBy (·.groupIndex) assignments) (fun a => insertAssignment env a maxAttempts)

def createGroup (env : Env) (assignments : List RolloutAssignment) (maxAttempts : Nat) : Method Unit := do
  raiseUnless (1 ≤ maxAttempts) (.value "max_attempts must be positive")
  match assignments with
  | [] => throw (.value "a rollout group must contain assignments")
  | first :: rest => do
    raiseUnless (Rows.orderBy id (assignments.map (·.groupIndex)) = List.range first.groupSize)
      (.value "assignments must contain each group index exactly once")
    raiseUnless (∀ a ∈ rest, groupInputs env a = groupInputs env first)
      (.value "all assignments in a group must have identical group inputs")
    raiseUnless (assignments.map (·.assignmentId)).Nodup (.value "assignment IDs must be unique")
    transaction (createGroupBody env first assignments maxAttempts)

end Repo
end Aether
