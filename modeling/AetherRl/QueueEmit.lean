import AetherRl.BatchSample
import AetherRl.Checked
import AetherRl.Grouping
import AetherRl.QueueFiles
/-!
# QueueEmit — processed groups and the batches made of them

`_process_group` and `_emit_ready_batches` with its selection, of `coordinator/results.py`.  What loading the episodes of a
group and scoring them comes to is a parameter, what it raises included; so is what turns payloads and batches to bytes
and back, and so are the temporary names drawn.  An iteration of the emission loop is `emitTurn`; the loop itself runs on fuel.
-/
namespace Aether

/-- A training sample with the policy it was sampled from. -/
structure BehaviorSample (F : Type) extends TrainingSample F where
  behaviorPolicyId : Option OpaqueId
  behaviorPolicyVersion : Option Int
  behaviorPolicyDigest : Option Digest

structure ProcessedRolloutPayload (F : Type) where
  samples : List (BehaviorSample F)
  tokenCount : Int

structure ProcessedGroupPayload (F : Type) where
  groupId : OpaqueId
  sourceId : OpaqueId
  kind : Kind
  policyId : OpaqueId
  policyVersion : Int
  inputDigest : Digest
  rollouts : List (ProcessedRolloutPayload F)
  evaluationRecords : List JsonText
  policyDigest : Digest
  adapterDigest : Option Digest

/-- A source that groups are processed for; what its algorithm and its filters do enters with what they leave. -/
structure ResultProcessingSource where
  sourceId : OpaqueId
  environment : EnvironmentIdentity
  hasAlgorithm : Bool

/-- What a processor is constructed with: sources of different names, and exactly one batch size, which is positive. -/
structure Processor (F : Type) where
  env : Env
  sources : List ResultProcessingSource
  unique_sources : (sources.map (·.sourceId)).Nodup
  batchSize : Option Nat
  tokenBatchSize : Option Nat
  one_size : ¬ (batchSize = none ↔ tokenBatchSize = none)
  batch_pos : ∀ n ∈ batchSize, 1 ≤ n
  token_pos : ∀ n ∈ tokenBatchSize, 1 ≤ n
  encodeGroup : ProcessedGroupPayload F → Bytes
  decodeGroup : Bytes → Option (ProcessedGroupPayload F)
  encodeBatch : List (BehaviorSample F) → Int → Bytes
  uuid : Nat → String

namespace Queue

open Repo

variable {F : Type}

/-! ## Processing a group -/

/-- A rollout that finalizing and the pre-filters leave, and whether a post-filter took it. -/
structure Survivor (F : Type) where
  outcome : GroupOutcome
  samples : List (TrainingSample F)
  isFiltered : Bool

/-- The policy a sample is stamped with. -/
def stamp (c : Codec) (policy : PolicyManifest) (s : TrainingSample F) : BehaviorSample F :=
  { s with
    behaviorPolicyId := some policy.policyId
    behaviorPolicyVersion := some policy.policyVersion
    behaviorPolicyDigest := some (c.policyManifestDigest policy) }

def processedRollouts (c : Codec) (survivors : List (Survivor F)) : List (ProcessedRolloutPayload F) :=
  (survivors.filter fun r => !r.samples.isEmpty).map fun r =>
    ⟨if r.isFiltered then [] else r.samples.map (stamp c r.outcome.assignment.policy),
      (r.samples.map (fun s => (s.tokenIds.length : Int))).sum⟩

/-- The payload of a group: its policy is the one of its first outcome. -/
def groupPayload (c : Codec) (group : ReadyGroup) (sourceId : OpaqueId) (inputDigest : Digest) (first : GroupOutcome)
    (survivors : List (Survivor F)) (records : List JsonText) : ProcessedGroupPayload F where
  groupId := group.groupId
  sourceId := sourceId
  kind := group.kind
  policyId := first.assignment.policy.policyId
  policyVersion := first.assignment.policy.policyVersion
  inputDigest := inputDigest
  rollouts := processedRollouts c survivors
  evaluationRecords := records
  policyDigest := c.policyManifestDigest first.assignment.policy
  adapterDigest := first.assignment.policy.adapter.map (·.digest)

/-- What the episodes of a ready group come to, or what is raised instead: what the input digest is of, whether they load
and are stamped, the records of an evaluation group, and the rollouts of a training group that scoring and the
pre-filters leave. -/
structure Processing (F : Type) (group : ReadyGroup) where
  inputBytes : Bytes
  loaded : Except String Unit
  records : Except String (List JsonText)
  survivors : Except String (List (Survivor F))
  of_group : ∀ rs, survivors = .ok rs → ∀ r ∈ rs, r.outcome ∈ group.outcomes

/-- The head of `_process_group`: the group's source is configured for it, its episodes load, and a training source has
its algorithm. -/
def loadGroup (p : Processor F) (group : ReadyGroup) (made : Processing F group) :
    Except ProcessError ResultProcessingSource :=
  match group.sourceId.bind fun id => Rows.get (·.sourceId) id p.sources with
  | none => .error (.repository (.conflict ("group " ++ group.groupId ++ " has no configured processing source")))
  | some source => do
    Checked.raiseUnless (∀ o ∈ group.outcomes, o.assignment.environment = source.environment)
      (.repository (.conflict "group environment does not match its processing source"))
    made.loaded.mapError .processing
    Checked.raiseUnless (group.kind = .eval ∨ source.hasAlgorithm = true)
      (.repository (.conflict "train processing source has no algorithm"))
    pure source

/-- The payload of a group: an evaluation group has its records, a training group its rollouts. -/
def finishGroup (p : Processor F) (group : ReadyGroup) (made : Processing F group) (source : ResultProcessingSource) :
    Except ProcessError (ProcessedGroupPayload F) := do
  let (survivors, records) ← match group.kind with
    | .eval => made.records.map (Prod.mk []) |>.mapError .processing
    | .train => made.survivors.map (Prod.mk · []) |>.mapError .processing
  match group.outcomes with
  | [] => .error .index
  | first :: _ => .ok (groupPayload p.env.codec group source.sourceId (p.env.codec.sha256 made.inputBytes) first survivors
      records)

def activePolicy (env : Env) (artifacts : Artifacts) : Method PolicyManifest := select do
  let row ← Txn.orRaise (← tables).activePolicy? (.invalidState "run has not been initialized")
  verifyPolicyRow env artifacts row
  pure row.manifest

/-- The end of `_process_group`: the payload is published and recorded. -/
def settleGroup (p : Processor F) (payload : ProcessedGroupPayload F) : Program Unit := do
  let bytes := p.encodeGroup payload
  let digest := p.env.codec.sha256 bytes
  let path ← publishGroup p.env.codec p.uuid digest bytes
  onWorld (recordProcessedGroup p.env
    ⟨payload.groupId, payload.inputDigest, digest, path, bytes.length, payload.rollouts.map (·.tokenCount)⟩)

def processGroup (p : Processor F) (artifacts : Artifacts) (group : ReadyGroup) (made : Processing F group) :
    Program Unit := do
  let source ← orThrow (loadGroup p group made)
  -- the active policy is read for the lag that the metrics count
  if group.kind = .train then do
    let _ ← onWorld (activePolicy p.env artifacts)
  let payload ← orThrow (finishGroup p group made source)
  settleGroup p payload

/-! ## Selecting a batch -/

/-- A pending rollout and the payload its group's artifact decodes to. -/
abbrev Loaded (F : Type) := PendingProcessedRollout × ProcessedGroupPayload F

/-- A policy version and what the adapter, the manifest or the policy is named by; an empty digest names nothing. -/
abbrev PolicyKey := Int × String

def payloadPolicyIdentity (p : ProcessedGroupPayload F) : PolicyKey :=
  (p.policyVersion, match p.adapterDigest.filter (· ≠ "") with
    | some d => d
    | none => if p.policyDigest ≠ "" then p.policyDigest else p.policyId)

/-- One artifact is read for each path met, in order. -/
def loadFrom (p : Processor F) (q : QueueFiles) :
    List (String × ProcessedGroupPayload F) → List PendingProcessedRollout → Except ProcessError (List (Loaded F))
  | _, [] => .ok []
  | payloads, r :: rs => match Rows.get Prod.fst r.artifactPath payloads with
    | some x => do
      let rest ← loadFrom p q payloads rs
      pure ((r, x.2) :: rest)
    | none => do
      let data ← verify p.env.codec q r.artifactPath r.artifactDigest r.sizeBytes
      match p.decodeGroup data with
      | none => .error .decode
      | some payload => do
        let rest ← loadFrom p q (payloads ++ [(r.artifactPath, payload)]) rs
        pure ((r, payload) :: rest)

def loadPendingPayloads (p : Processor F) (q : QueueFiles) (pending : List PendingProcessedRollout) :
    Except ProcessError (List (Loaded F)) :=
  loadFrom p q [] pending

def isStale (payload : ProcessedGroupPayload F) (activeVersion : Int) (maxPolicyLag : Option Int) : Bool :=
  match maxPolicyLag with
  | none => false
  | some lag => decide (lag < activeVersion - payload.policyVersion)

def tokensOf (l : List (Loaded F)) : Int := (l.map (fun x => x.1.tokenCount)).sum

/-- The pending rollouts by policy identity, with their tokens and where each was first met. -/
def partitions (l : List (Loaded F)) : List (Grouping.Group PolicyKey (Loaded F) Int) :=
  Grouping.group (fun x => payloadPolicyIdentity x.2) (fun x => x.1.tokenCount) l

/-- A partition is ready with enough rollouts, or with enough tokens where rollouts are not counted. -/
def ready (p : Processor F) (g : Grouping.Group PolicyKey (Loaded F) Int) : Bool :=
  match p.batchSize with
  | some n => decide (n ≤ g.members.length)
  | none => decide ((p.tokenBatchSize.getD 0 : Int) ≤ g.weight)

/-- The selection loop breaks: enough rollouts or enough tokens are in. -/
def full (p : Processor F) (count : Nat) (tokens : Int) : Bool :=
  p.batchSize.any (fun n => decide (n ≤ count)) || p.tokenBatchSize.any (fun n => decide ((n : Int) ≤ tokens))

def selectPolicyHomogeneousBatch (p : Processor F) (l : List (Loaded F)) : List (Loaded F) :=
  match ((partitions l).filter (ready p)).argmin (·.first) with
  | none => []
  | some g => Grouping.takeUntil (fun x => x.1.tokenCount) (full p) g.members

/-- `payload.rollouts[rollout.ordinal].samples`. -/
def samplesOf (x : Loaded F) : Except ProcessError (List (BehaviorSample F)) :=
  match x.2.rollouts[x.1.ordinal.toNat]? with
  | none => .error .index
  | some r => .ok r.samples

def assertSinglePayloadPolicyIdentity (selected : List (Loaded F)) : Except ProcessError Unit := do
  Checked.raiseUnless ((selected.map (·.2.policyVersion)).dedup.length = 1)
    (.assertion "mixed policy versions in processed rollouts")
  Checked.raiseUnless ((selected.map (fun x => (payloadPolicyIdentity x.2).2)).dedup.length = 1)
    (.assertion "mixed adapter hashes in processed rollouts")

def assertSinglePolicyIdentity (samples : List (BehaviorSample F)) : Except ProcessError Unit := do
  Checked.raiseUnless ((samples.map (·.behaviorPolicyVersion)).dedup.length = 1)
    (.assertion "mixed policy versions in training batch")
  Checked.raiseUnless ((samples.map (·.behaviorPolicyDigest)).dedup.length = 1)
    (.assertion "mixed adapter hashes in training batch")
  Checked.raiseUnless (none ∉ samples.map (·.behaviorPolicyVersion))
    (.assertion "missing policy version in training batch")
  Checked.raiseUnless (none ∉ samples.map (·.behaviorPolicyDigest))
    (.assertion "missing adapter hash in training batch")

/-! ## The loop -/

/-- What one iteration came to: nothing was left to emit, stale or empty rollouts were discarded, or a batch was recorded
of the rollouts selected. -/
inductive Turn (F : Type)
  | done
  | discarded
  | emitted (batch : TrainingBatchArgs) (selected : List (Loaded F))

def member (x : Loaded F) : OpaqueId × Int := (x.1.groupId, x.1.ordinal)

/-- The batch of `samples` is published and recorded. -/
def emitBatch (p : Processor F) (selected : List (Loaded F)) (samples : List (BehaviorSample F)) :
    Program TrainingBatchArgs := do
  let step ← onWorld (select (nextTrainingBatchStep <$> tables))
  let bytes := p.encodeBatch samples step
  let digest := p.env.codec.sha256 bytes
  let path ← publishBatch p.env.codec p.uuid step digest bytes
  let batch : TrainingBatchArgs := ⟨step, digest, path, bytes.length, samples.length, selected.map member⟩
  onWorld (recordTrainingBatch p.env batch)
  pure batch

/-- An iteration with the payloads loaded and the lag window read. -/
def emitLoaded (p : Processor F) (l : List (Loaded F)) (activeVersion : Int) (maxPolicyLag : Option Int) :
    Program (Turn F) := do
  let stale := l.filter fun x => isStale x.2 activeVersion maxPolicyLag
  if stale ≠ [] then do
    onWorld (discardProcessedRollouts (stale.map member))
    pure .discarded
  else do
    let selected := selectPolicyHomogeneousBatch p l
    if selected = [] then pure .done
    else do
      let samples ← orThrow (selected.mapM samplesOf)
      if samples.flatten = [] then do
        onWorld (discardProcessedRollouts (selected.map member))
        pure .discarded
      else do
        orThrow (assertSinglePayloadPolicyIdentity selected)
        orThrow (assertSinglePolicyIdentity samples.flatten)
        let batch ← emitBatch p selected samples.flatten
        pure (.emitted batch selected)

def emitTurn (p : Processor F) (artifacts : Artifacts) : Program (Turn F) := do
  let pending ← onWorld (select (pendingProcessedRollouts <$> tables))
  if pending = [] then pure .done
  else do
    let active ← onWorld (activePolicy p.env artifacts)
    let maxPolicyLag ← onWorld (select ((·.scheduler.maxPolicyLag) <$> tables))
    let queue ← fun s => (.ok s.queue, s)
    let l ← orThrow (loadPendingPayloads p queue pending)
    emitLoaded p l active.policyVersion maxPolicyLag

/-- `_emit_ready_batches`: how many batches were emitted, unless the fuel runs out. -/
def emitReadyBatches (p : Processor F) (artifacts : Artifacts) : Nat → Nat → Program (Option Nat)
  | 0, _ => pure none
  | fuel + 1, emitted => do
    match ← emitTurn p artifacts with
    | .done => pure (some emitted)
    | .discarded => emitReadyBatches p artifacts fuel emitted
    | .emitted _ _ => emitReadyBatches p artifacts fuel (emitted + 1)

end Queue
end Aether
