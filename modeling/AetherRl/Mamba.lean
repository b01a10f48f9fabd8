import AetherRl.Heads
import AetherRl.Checked
import Mathlib.Algebra.Field.Defs
/-!
# Mamba — the Mamba-2 layer over a sequence split by ranks

`trainer/models/layers/cp_mamba.py` over an exact field.  The elementary functions and the scan kernel are parameters; a
list holds the ranks' tensors in rank order, and the job raises what a rank raises.
-/
namespace Aether
namespace Mamba

open Checked Tensor Shape

variable {K : Type} [Field K]

/-- What the layer computes elementwise. -/
structure Functions (K : Type) where
  exp : K → K
  silu : K → K
  rsqrt : K → K

/-! ## Documents -/

/-- `zip(boundaries[:-1], boundaries[1:])`. -/
def documents (boundaries : List Nat) : List (Nat × Nat) := boundaries.zip boundaries.tail

/-- `seq_idx[start:end] = sequence_id`; `fresh` is what unwritten memory holds. -/
def writeSeqIdx (boundaries : List Nat) (seqIdx : Tensor Nat) (document : (Nat × Nat) × Nat) :
    Except String (Tensor Nat) := do
  let ((start, stop), sequenceId) := document
  raiseUnless (start < stop) s!"cu_seqlens must be strictly increasing, got {boundaries}"
  return seqIdx.write 0 start (ofFn [stop - start] fun _ => sequenceId)

def buildSeqIdx (fresh : List Nat → Tensor Nat) (boundaries : List Nat) (seqLen : Nat) : Except String (Tensor Nat) := do
  raiseUnless (boundaries.head? = some 0 ∧ boundaries.getLast? = some seqLen)
    s!"cu_seqlens must span the full sequence length {seqLen}, got {boundaries}"
  let seqIdx ← (documents boundaries).zipIdx.foldlM (writeSeqIdx boundaries) (fresh [seqLen])
  return seqIdx.reshape [1, seqLen]

/-- `torch.nn.functional.conv1d` with as many groups as channels. -/
def conv1d (inputs weight : Tensor K) (bias : Option (Tensor K)) (padding : Nat) : Tensor K :=
  ofFn [inputs.size 0, weight.size 0, inputs.size 2 + 2 * padding - (weight.size 2 - 1)] fun idx =>
    match idx with
    | [b, c, t] => (bias.elim 0 fun bias => bias.get [c]) + ((List.range (weight.size 2)).map fun k =>
        weight.get [c, 0, k] *
          if padding ≤ t + k ∧ t + k - padding < inputs.size 2 then inputs.get [b, c, t + k - padding] else 0).sum
    | _ => 0

def causalConv1dVarlen (hiddenStates weight : Tensor K) (bias : Option (Tensor K)) (boundaries : List Nat) :
    Except String (Tensor K) := do
  raiseUnless (hiddenStates.size 0 = 1) s!"packed CP Mamba expects batch_size=1, got {hiddenStates.size 0}"
  let inputs := hiddenStates.permute [0, 2, 1]
  let outputs := (documents boundaries).map fun document =>
    (conv1d (inputs.narrow 2 document.1 document.2) weight bias (weight.size 2 - 1)).narrow 2 0 (document.2 - document.1)
  raiseUnless (outputs.length ≠ 0) "torch.cat(): expected a non-empty list of Tensors"
  return (cat 2 outputs).permute [0, 2, 1]

/-! ## The exchange -/

def allToAllSeqToHead (cpSize : Nat) (xs : List (Tensor K)) : List (Tensor K) :=
  let sent := xs.map fun x => (x.reshape [x.size 0, x.size 1, cpSize, x.size 2 / cpSize]).permute [2, 0, 1, 3]
  List.zipWith (fun x out => (out.permute [1, 0, 2, 3]).reshape [x.size 0, cpSize * x.size 1, x.size 2 / cpSize]) xs
    (allToAllSingle sent)

def allToAllHeadToSeq (cpSize : Nat) (xs : List (Tensor K)) : List (Tensor K) :=
  let sent := xs.map fun x => (x.reshape [x.size 0, cpSize, x.size 1 / cpSize, x.size 2]).permute [1, 0, 2, 3]
  List.zipWith (fun x out => (out.permute [1, 2, 0, 3]).reshape [x.size 0, x.size 1 / cpSize, cpSize * x.size 2]) xs
    (allToAllSingle sent)

def seqToHeadParallel (cpSize : Nat) (xs : List (Tensor K)) : List (Tensor K) := allToAllSeqToHead cpSize xs

def headToSeqParallel (cpSize : Nat) (xs : List (Tensor K)) : List (Tensor K) := allToAllHeadToSeq cpSize xs

/-! ## The gated norm -/

def gatedRmsNorm (fn : Functions K) (x gate weight : Tensor K) (eps : K) (groupSize : Nat) : Tensor K :=
  let x := ofFn x.shape fun idx => x.get idx * fn.silu (gate.get idx)
  let lastDim := x.size 2
  let groupCount := lastDim / groupSize
  let grouped := x.reshape [x.size 0, x.size 1, groupCount, groupSize]
  let variance := ofFn [x.size 0, x.size 1, groupCount, 1] fun idx =>
    match idx with
    | [b, t, g, _] => ((List.range groupSize).map fun e => grouped.get [b, t, g, e] ^ 2).sum / groupSize
    | _ => 0
  let normed := ofFn grouped.shape fun idx =>
    match idx with
    | [b, t, g, e] => grouped.get [b, t, g, e] * fn.rsqrt (variance.get [b, t, g, 0] + eps)
    | _ => 0
  let x := normed.reshape [x.size 0, x.size 1, lastDim]
  ofFn x.shape fun idx =>
    match idx with
    | [b, t, e] => weight.get [e] * x.get [b, t, e]
    | _ => 0

/-! ## The layer -/

/-- `torch.nn.Linear`. -/
structure Linear (K : Type) [Zero K] where
  weight : Tensor K
  bias : Option (Tensor K)

def Linear.apply (l : Linear K) (x : Tensor K) : Tensor K :=
  ofFn [x.size 0, x.size 1, l.weight.size 0] fun idx =>
    match idx with
    | [b, t, o] => ((List.range (l.weight.size 1)).map fun i => x.get [b, t, i] * l.weight.get [o, i]).sum +
        l.bias.elim 0 fun bias => bias.get [o]
    | _ => 0

structure Mixer (K : Type) [Zero K] where
  inProj : Linear K
  outProj : Linear K
  aLog : Tensor K
  d : Tensor K
  dtBias : Tensor K
  convWeight : Tensor K
  convBias : Option (Tensor K)
  normWeight : Tensor K
  varianceEpsilon : K
  groupSize : Nat
  intermediateSize : Nat
  convDim : Nat
  numHeads : Nat
  headDim : Nat
  nGroups : Nat
  ssmStateSize : Nat
  chunkSize : Nat
  timeStepLimit : Option (K × K)

/-- The options the scan is called with; the limit is not passed where there is none. -/
structure ScanOptions (K : Type) where
  chunkSize : Nat
  dtSoftplus : Bool
  returnFinalStates : Bool
  dtLimit : Option (K × K)

/-- What the scan reads. -/
structure ScanInputs (K : Type) [Zero K] where
  x : Tensor K
  dt : Tensor K
  A : Tensor K
  B : Tensor K
  C : Tensor K
  D : Tensor K
  dtBias : Tensor K
  seqIdx : Tensor Nat

/-- `mamba_chunk_scan_combined`. -/
abbrev Scan (K : Type) [Zero K] := ScanOptions K → ScanInputs K → Tensor K

/-- `torch.arange(start, end)`. -/
def arange (start stop : Nat) : List Nat := List.range' start (stop - start)

/-- The rows `t[indices]`. -/
def indexRows (t : Tensor K) (indices : List Nat) : Tensor K :=
  ofFn (t.shape.set 0 indices.length) fun idx =>
    match idx with
    | i :: rest => t.get (indices.getD i 0 :: rest)
    | [] => 0

/-- What the exchange gives a rank. -/
structure HeadShard (K : Type) [Zero K] where
  gate : Tensor K
  timeStep : Tensor K
  xPart : Tensor K
  bPart : Tensor K
  cPart : Tensor K

/-- `conv_indices` of a rank. -/
def convIndices (mixer : Mixer K) (cpSize cpRank : Nat) : List Nat :=
  let groupsTimeStateSize := mixer.nGroups * mixer.ssmStateSize
  let localIntermediateSize := mixer.numHeads / cpSize * mixer.headDim
  let localNGroups := mixer.nGroups / cpSize
  let convXStart := cpRank * localIntermediateSize
  let convXEnd := convXStart + localIntermediateSize
  let convBStart := mixer.intermediateSize + cpRank * localNGroups * mixer.ssmStateSize
  let convBEnd := convBStart + localNGroups * mixer.ssmStateSize
  let convCStart := mixer.intermediateSize + groupsTimeStateSize + cpRank * localNGroups * mixer.ssmStateSize
  let convCEnd := convCStart + localNGroups * mixer.ssmStateSize
  arange convXStart convXEnd ++ (arange convBStart convBEnd ++ arange convCStart convCEnd)

/-- What a rank computes on the full sequence with its heads: the convolution, the scan and the norm. -/
def headParallel (fn : Functions K) (scan : Scan K) (fresh : List Nat → Tensor Nat) (mixer : Mixer K)
    (cpSize cpRank : Nat) (boundaries : List Nat) (shard : HeadShard K) : Except String (Tensor K) := do
  let hiddenStatesBC := cat 2 [shard.xPart, shard.bPart, shard.cPart]
  let batchSize := hiddenStatesBC.size 0
  let fullSeqLen := hiddenStatesBC.size 1
  let seqIdx ← buildSeqIdx fresh boundaries fullSeqLen
  let localNumHeads := mixer.numHeads / cpSize
  let localIntermediateSize := localNumHeads * mixer.headDim
  let localNGroups := mixer.nGroups / cpSize
  let headStart := cpRank * localNumHeads
  let headEnd := headStart + localNumHeads
  let a := ofFn mixer.aLog.shape fun idx => -fn.exp (mixer.aLog.get idx)
  let convIndices := convIndices mixer cpSize cpRank
  let localConvWeight := indexRows mixer.convWeight convIndices
  let localConvBias := mixer.convBias.map fun bias => indexRows bias convIndices
  let convolved ← causalConv1dVarlen hiddenStatesBC localConvWeight localConvBias boundaries
  let hiddenStatesBC := ofFn convolved.shape fun idx => fn.silu (convolved.get idx)
  let localGroupsTimeStateSize := localNGroups * mixer.ssmStateSize
  let hiddenStatesLocal := hiddenStatesBC.narrow 2 0 localIntermediateSize
  let bLocal := hiddenStatesBC.narrow 2 localIntermediateSize (localIntermediateSize + localGroupsTimeStateSize)
  let cLocal := hiddenStatesBC.narrow 2 (localIntermediateSize + localGroupsTimeStateSize)
    (localIntermediateSize + localGroupsTimeStateSize + localGroupsTimeStateSize)
  let scanOutput := scan ⟨mixer.chunkSize, true, false, mixer.timeStepLimit⟩
    { x := hiddenStatesLocal.reshape [batchSize, fullSeqLen, localNumHeads, mixer.headDim]
      dt := shard.timeStep
      A := a.narrow 0 headStart headEnd
      B := bLocal.reshape [batchSize, fullSeqLen, localNGroups, localGroupsTimeStateSize / localNGroups]
      C := cLocal.reshape [batchSize, fullSeqLen, localNGroups, localGroupsTimeStateSize / localNGroups]
      D := mixer.d.narrow 0 headStart headEnd
      dtBias := mixer.dtBias.narrow 0 headStart headEnd
      seqIdx := seqIdx }
  let scanOutput := scanOutput.reshape [batchSize, fullSeqLen, localIntermediateSize]
  let localNormWeight := mixer.normWeight.narrow 0 (cpRank * localIntermediateSize)
    ((cpRank + 1) * localIntermediateSize)
  return gatedRmsNorm fn scanOutput shard.gate localNormWeight mixer.varianceEpsilon mixer.groupSize

/-- What every rank holds after the projection and the exchange. -/
def headShards (mixer : Mixer K) (cpSize : Nat) (hiddenStates : List (Tensor K)) : List (HeadShard K) :=
  let projected := hiddenStates.map mixer.inProj.apply
  let part := fun start stop => seqToHeadParallel cpSize (projected.map fun t => t.narrow 2 start stop)
  let conv := projected.map fun t =>
    t.narrow 2 mixer.intermediateSize (mixer.intermediateSize + mixer.convDim)
  let convPart := fun start stop => seqToHeadParallel cpSize (conv.map fun t => t.narrow 2 start stop)
  let groupsTimeStateSize := mixer.nGroups * mixer.ssmStateSize
  let gate := part 0 mixer.intermediateSize
  let timeStep := part (mixer.intermediateSize + mixer.convDim)
    (mixer.intermediateSize + mixer.convDim + mixer.numHeads)
  let xPart := convPart 0 mixer.intermediateSize
  let bPart := convPart mixer.intermediateSize (mixer.intermediateSize + groupsTimeStateSize)
  let cPart := convPart (mixer.intermediateSize + groupsTimeStateSize)
    (mixer.intermediateSize + groupsTimeStateSize + groupsTimeStateSize)
  (gate.zip (timeStep.zip (xPart.zip (bPart.zip cPart)))).map fun p =>
    ⟨p.1, p.2.1, p.2.2.1, p.2.2.2.1, p.2.2.2.2⟩

def mambaCpForward (fn : Functions K) (scan : Scan K) (fresh : List Nat → Tensor Nat) (mixer : Mixer K) (cpSize : Nat)
    (cuSeqlens : List Nat) (hiddenStates : List (Tensor K)) : Except String (List (Tensor K)) := do
  let normed ← (headShards mixer cpSize hiddenStates).zipIdx.mapM fun shard =>
    headParallel fn scan fresh mixer cpSize shard.2 cuSeqlens shard.1
  return (headToSeqParallel cpSize normed).map mixer.outProj.apply

end Mamba
end Aether
