import AetherRl.RepoResult
/-!
# RepoTraining — processed groups, their rollouts and the training batches

`record_processed_group`, `pending_processed_rollouts`, `discard_processed_rollouts`, `next_training_batch_step` and
`record_training_batch` of `database.py`.  Ints a caller passes are ints here: the schema's `CHECK`s reject the
negative ones.
-/
namespace Aether

def ProcessedRolloutRow.key (r : ProcessedRolloutRow) : OpaqueId × Int := (r.groupId, r.ordinal)

/-- `batch_step IS NULL AND discarded = 0`. -/
def ProcessedRolloutRow.pending (r : ProcessedRolloutRow) : Bool := r.batchStep.isNone && !r.discarded

namespace Repo

open Txn (raiseIf orRaise orThrow forEach)
open Tables

structure ProcessedGroupArgs where
  groupId : OpaqueId
  inputDigest : Digest
  artifactDigest : Digest
  artifactPath : String
  sizeBytes : Int
  tokenCounts : List Int
deriving DecidableEq

/-- The rollouts of a group as they are first recorded: pending, numbered in order. -/
def newRollouts (groupId : OpaqueId) (tokenCounts : List Int) : List ProcessedRolloutRow :=
  tokenCounts.zipIdx.map fun x => ⟨groupId, x.2, x.1, none, none, false⟩

def recordProcessedGroupBody (p : ProcessedGroupArgs) (now : Time) : Body Unit := do
  match (← tables).processedGroups.find? (fun g => decide (g.groupId = p.groupId)) with
  | some g =>
    raiseIf (¬ (g.inputDigest = p.inputDigest ∧ g.artifactDigest = p.artifactDigest ∧
        g.artifactPath = p.artifactPath ∧ g.sizeBytes = p.sizeBytes ∧ g.rolloutCount = p.tokenCounts.length))
      (.conflict "processed group already has different output")
  | none => do
    raiseIf (¬ ((← tables).group? p.groupId).any (fun g => decide (g.state = .ready)) = true)
      (.invalidState "group is not ready for processing")
    exec (insertProcessedGroup ⟨p.groupId, p.inputDigest, p.artifactDigest, p.artifactPath, p.sizeBytes,
      p.tokenCounts.length, now⟩)
    exec (insertProcessedRollouts (newRollouts p.groupId p.tokenCounts))
    let members := ((← tables).assignments.filter (fun a => decide (a.groupId = p.groupId))).map (·.assignmentId)
    exec (setResults fun r => if r.assignmentId ∈ members then { r with processingState := .processed } else r)

def recordProcessedGroup (env : Env) (p : ProcessedGroupArgs) : Method Unit := do
  let now ← readClock env
  transaction (recordProcessedGroupBody p now)

structure PendingProcessedRollout where
  groupId : OpaqueId
  ordinal : Int
  tokenCount : Int
  artifactPath : String
  artifactDigest : Digest
  sizeBytes : Int
deriving DecidableEq

/-- The pending rollouts with their groups' artifacts, in group sequence and ordinal order. -/
def pendingProcessedRollouts (t : Tables) : List PendingProcessedRollout :=
  (Rows.orderBy (fun x => toLex (x.1, toLex (x.2.ordinal, x.2.groupId))) <|
    (t.processedRollouts.filter ProcessedRolloutRow.pending).filterMap fun r =>
      (t.processedGroups.find? (fun p => decide (p.groupId = r.groupId))).bind fun p =>
        (t.group? r.groupId).map fun g =>
          (g.sequence, (⟨r.groupId, r.ordinal, r.tokenCount, p.artifactPath, p.artifactDigest, p.sizeBytes⟩ :
            PendingProcessedRollout))).map (·.2)

/-- One `UPDATE` of the discard loop and how many rows it touched. -/
def discardOne (member : OpaqueId × Int) : Body Nat := do
  let hit := ((← tables).processedRollouts.filter fun r => decide (r.key = member) && r.pending).length
  exec (setProcessedRollouts fun r => if r.key = member ∧ r.pending then { r with discarded := true } else r)
  pure hit

def discardEach : List (OpaqueId × Int) → Body Nat
  | [] => pure 0
  | m :: ms => do
    let hit ← discardOne m
    let rest ← discardEach ms
    pure (hit + rest)

def discardBody (members : List (OpaqueId × Int)) : Body Unit := do
  let updated ← discardEach members
  raiseIf (updated ≠ members.length) (.conflict "processed rollout is no longer available for discard")

def discardProcessedRollouts (members : List (OpaqueId × Int)) : Method Unit := do
  raiseUnless (members ≠ []) (.value "discarded rollout membership must not be empty")
  transaction (discardBody members)

/-! ## Training batches -/

structure TrainingBatchArgs where
  step : Int
  artifactDigest : Digest
  artifactPath : String
  sizeBytes : Int
  sampleCount : Int
  members : List (OpaqueId × Int)
deriving DecidableEq

/-- `SELECT COALESCE(MAX(step), 0) + 1 FROM training_batches`. -/
def nextTrainingBatchStep (t : Tables) : Int := ((t.batches.map (·.step)).max?).getD 0 + 1

/-- One `UPDATE` of the placing loop. -/
def placeMember (step : Int) (x : (OpaqueId × Int) × Nat) : Body Unit :=
  exec (setProcessedRollouts fun r =>
    if r.key = x.1 ∧ r.batchStep = none then { r with batchStep := some step, batchOrdinal := some x.2 } else r)

instance lawfulBEq_member : LawfulBEq (OpaqueId × Int) := inferInstance

/-- SQLite's default for the variables one statement may bind. -/
def maxVariableNumber : Nat := 32766

def recordTrainingBatchBody (b : TrainingBatchArgs) (now : Time) : Body Unit := do
  match (← tables).batches.find? (fun x => decide (x.step = b.step)) with
  | some x =>
    raiseIf (¬ (x.artifactDigest = b.artifactDigest ∧ x.artifactPath = b.artifactPath ∧ x.sizeBytes = b.sizeBytes ∧
      x.sampleCount = b.sampleCount)) (.conflict "training batch step already has different output")
  | none => do
    raiseIf (b.step ≠ nextTrainingBatchStep (← tables)) (.invalidState "training batch step is not next in sequence")
    -- the statement that counts the available members binds two variables for each
    raiseIf (maxVariableNumber < 2 * b.members.length) .operational
    let available := ((← tables).processedRollouts.filter fun r => r.pending && decide (r.key ∈ b.members)).length
    raiseIf (available ≠ b.members.length) (.conflict "training batch members are no longer available")
    exec (insertBatch ⟨b.step, b.artifactDigest, b.artifactPath, b.sizeBytes, b.sampleCount, now⟩)
    forEach b.members.zipIdx (placeMember b.step)

def recordTrainingBatch (env : Env) (b : TrainingBatchArgs) : Method Unit := do
  raiseUnless (b.members ≠ [] ∧ 1 ≤ b.sampleCount) (.value "training batch must contain members and samples")
  let now ← readClock env
  transaction (recordTrainingBatchBody b now)

end Repo
end Aether
