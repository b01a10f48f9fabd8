import AetherRl.AlgoGrpo
import AetherRl.AlgoRouting
import AetherRl.TraceSamples
/-!
# AlgoEcho — the algorithms that train actions by `rl` (`algo/base.py`, `max_rl.py`, `echo.py`)

GRPO, MaxRL, and echo, which is GRPO with cross entropy on what the environment said after the first response.  A rollout
is scored as it arrives, its group is scored as a whole, and then every sample is stamped.
-/
namespace Aether
namespace Algo

open Batch Checked Traces

/-- A rollout with what the algorithms read and write of it; a branch is its nodes in order. -/
structure Rollout where
  graded : Graded
  envName : String
  trainableBranches : List (List Node)
  samples : List (TrainingSample ℚ)
  advantages : Option (List ℚ)
deriving DecidableEq

/-- The echo roles that are enabled, each with its `alpha`. -/
structure EchoRoles where
  alpha : Role → Option ℚ
  pos : ∀ role a, alpha role = some a → 0 < a
  enabled : ∃ role, (alpha role).isSome

/-- What a user's filter returns for a branch: a list, or an object of some other type. -/
inductive KeepMask
  | list (mask : List Bool)
  | other (type : String)

inductive KeepMasks
  | list (masks : List KeepMask)
  | other (type : String)

inductive Algorithm
  | grpo (lengthPenalty : Option LengthPenalty)
  | maxRl
  | echo (lengthPenalty : Option LengthPenalty) (roles : EchoRoles) (filter : Option (Rollout → KeepMasks))

def actionLossType : Algorithm → ActionLossType
  | .grpo _ => .rl
  | .maxRl => .rl
  | .echo _ _ _ => .rl

/-! ## Echo -/

def branchTokens (nodes : List Node) : Nat := (nodes.map fun n => n.tokenIds.length).sum

def checkKeepMask (idx expected : Nat) : KeepMask → Except Error (List Bool)
  | .list mask =>
    if mask.length = expected then .ok mask
    else .error (.value s!"echo filter mask for branch {idx} must span the branch's tokens: got {mask.length}, expected {expected}")
  | .other type =>
    .error (.value s!"echo filter mask for branch {idx} must span the branch's tokens: got {type}, expected {expected}")

/-- The masks of the branches, from the branch of this index on. -/
def checkKeepMasks : Nat → List (List Node) → List KeepMask → Except Error (List (List Bool))
  | idx, b :: bs, m :: ms => do
    let mask ← checkKeepMask idx (branchTokens b) m
    let masks ← checkKeepMasks (idx + 1) bs ms
    .ok (mask :: masks)
  | _, _, _ => .ok []

def filterMasks (filter : Rollout → KeepMasks) (r : Rollout) : Except Error (List (List Bool)) :=
  match filter r with
  | .list masks =>
    if masks.length = r.trainableBranches.length then checkKeepMasks 0 r.trainableBranches masks
    else .error (.value s!"echo filter must return one keep-mask per trainable branch: got {masks.length}, expected {r.trainableBranches.length}")
  | .other type =>
    .error (.value s!"echo filter must return one keep-mask per trainable branch: got {type}, expected {r.trainableBranches.length}")

/-- The weights of one node's tokens; the keep-mask is the rest of the branch's, from the node on. -/
def nodeWeights (roles : EchoRoles) (seenResponse : Bool) (n : Node) (keep : Option (List Bool)) : List ℚ :=
  match if seenResponse && !n.sampled then roles.alpha n.role else none with
  | none => List.replicate n.tokenIds.length 0
  | some weight =>
    let content := if n.isContent.length = n.tokenIds.length then n.isContent
      else List.replicate n.tokenIds.length true
    let kept := match keep with
      | some keep => keep.take n.tokenIds.length
      | none => List.replicate n.tokenIds.length true
    List.zipWith (fun content kept => if content && kept then weight else 0) content kept

/-- The weights of a branch's tokens, node by node. -/
def observationWeights (roles : EchoRoles) : Bool → List Node → Option (List Bool) → List ℚ
  | _, [], _ => []
  | seenResponse, n :: ns, keep =>
    nodeWeights roles seenResponse n keep ++
      observationWeights roles (seenResponse || n.sampled) ns (keep.map (·.drop n.tokenIds.length))

/-- `if any(weights): sample.ce_weights = weights`. -/
def weighSample (s : TrainingSample ℚ) (weights : List ℚ) : TrainingSample ℚ :=
  if weights.any (· ≠ 0) then { s with ceWeights := some weights } else s

/-- The samples zipped with the weights of their branches. -/
def weighSamples : List (TrainingSample ℚ) → List (List ℚ) → List (TrainingSample ℚ)
  | s :: ss, w :: ws => weighSample s w :: weighSamples ss ws
  | ss, _ => ss

/-- The weights of every branch, with the masks of the user's filter if there is one. -/
def branchWeights (roles : EchoRoles) : List (List Node) → Option (List (List Bool)) → List (List ℚ)
  | [], _ => []
  | b :: bs, keep =>
    observationWeights roles false b (keep.bind (·.head?)) :: branchWeights roles bs (keep.map (·.tail))

/-- The masks of the filter, if there is one. -/
def keepMasks (filter : Option (Rollout → KeepMasks)) (r : Rollout) : Except Error (Option (List (List Bool))) :=
  match filter with
  | some filter => some <$> filterMasks filter r
  | none => .ok none

/-- The weights that an algorithm gives to the observed tokens of a rollout's samples. -/
def observed (algorithm : Algorithm) (r : Rollout) : Except Error (List (List ℚ)) :=
  match algorithm with
  | .echo _ roles filter => do
    let masks ← keepMasks filter r
    .ok (branchWeights roles r.trainableBranches masks)
  | _ => .ok (r.samples.map fun s => List.replicate s.tokenIds.length 0)

def scoreRollout (algorithm : Algorithm) (r : Rollout) : Except Error Rollout :=
  match algorithm with
  | .echo _ roles filter => do
    let masks ← keepMasks filter r
    .ok { r with samples := weighSamples r.samples (branchWeights roles r.trainableBranches masks) }
  | _ => .ok r

/-! ## Groups -/

/-- MaxRL's advantages: nothing where the mean is not positive. -/
def maxRlAdvantages (group : List Graded) : List ℚ :=
  if mean (rewards group) ≤ 0 then List.replicate group.length 0
  else (rewards group).map fun reward => (reward - mean (rewards group)) / mean (rewards group)

def advantagesOf (algorithm : Algorithm) (group : List Graded) : Except Error (List ℚ) :=
  match algorithm with
  | .grpo lengthPenalty => groupAdvantages lengthPenalty group
  | .maxRl => .ok (maxRlAdvantages group)
  | .echo lengthPenalty _ _ => groupAdvantages lengthPenalty group

/-- What credit is given by: one value for a rollout's trainable tokens, or a value for every token. -/
inductive Credit
  | scalar (value : ℚ)
  | stream (values : List ℚ)

def totalTokens (r : Rollout) : Nat := (r.samples.map fun s => s.tokenIds.length).sum

def assignAdvantages (r : Rollout) : Credit → Except Error Rollout
  | .scalar value =>
    .ok { r with advantages := some (r.samples.flatMap fun s => s.mask.map fun trains => if trains then value else 0) }
  | .stream values =>
    if values.length = totalTokens r then .ok { r with advantages := some values }
    else .error (.value s!"per-token advantages must align with the rollout's tokens: got {values.length}, expected {totalTokens r} (env '{r.envName}').")

def scoreGroup (algorithm : Algorithm) (group : List Rollout) : Except Error (List Rollout) := do
  let advantages ← advantagesOf algorithm (group.map (·.graded))
  raiseUnless (advantages.length = group.length) (.value "zip() argument 2 is longer or shorter than argument 1")
  (group.zip advantages).mapM fun p => assignAdvantages p.1 (.scalar p.2)

def stampAdvantages (r : Rollout) : Except Error Rollout :=
  match r.advantages with
  | none => .ok r
  | some advantages =>
    if advantages.length = totalTokens r then .ok { r with samples := sliceAdvantages advantages r.samples }
    else .error (.value s!"advantage stream must align with the rollout's tokens: got {advantages.length}, expected {totalTokens r} (env '{r.envName}').")

def finalizeRollout (algorithm : Algorithm) (r : Rollout) : Except Error Rollout :=
  if r.samples = [] then .ok r else scoreRollout algorithm r

def finalizeGroup (algorithm : Algorithm) (group : List Rollout) : Except Error (List Rollout) := do
  let group ← scoreGroup algorithm group
  group.mapM fun r => do
    let r ← stampAdvantages r
    let samples ← r.samples.mapM fun s => (stampLossRouting s (actionLossType algorithm)).mapError .stamping
    .ok { r with samples := samples }

def fillTemperatures (temperature : ℚ) (r : Rollout) : Rollout :=
  { r with samples := r.samples.map fun s => stampTemperature s temperature }

/-- What the results of a group go through: each rollout as it arrives, then the group, then the temperatures. -/
def processRollouts (algorithm : Algorithm) (temperature : ℚ) (group : List Rollout) : Except Error (List Rollout) := do
  let group ← group.mapM (finalizeRollout algorithm)
  let group ← finalizeGroup algorithm group
  .ok (group.map (fillTemperatures temperature))

end Algo
end Aether
