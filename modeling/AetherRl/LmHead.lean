import AetherRl.Tensor
import AetherRl.Checked
import AetherRl.Blocks
import AetherRl.LogSumExp
import Mathlib.Analysis.SpecialFunctions.Trigonometric.DerivHyp
/-!
# LmHead — the fused language-model head

`trainer/models/layers/lm_head.py` and `lm_head_gemma.py` over the reals: the log-probability of each label and the
entropy of each token, computed in chunks of tokens and of the vocabulary, and their gradients.  The two heads differ in
the cap of their logits, so each is one loop with its own cap.
-/
namespace Aether
namespace LmHead

open Tensor Shape Checked Blocks LogSumExp

/-! ## Matrices -/

/-- `a @ b`. -/
noncomputable def matmul (a b : Tensor ℝ) : Tensor ℝ :=
  ofFn [a.size 0, b.size 1] fun idx =>
    match idx with
    | [i, j] => ∑ k ∈ Finset.range (a.size 1), a.get [i, k] * b.get [k, j]
    | _ => 0

/-- `a.t()`. -/
def transpose (a : Tensor ℝ) : Tensor ℝ := a.permute [1, 0]

/-- `t[start:start + n].add_(part)` for `n` rows of `part`. -/
noncomputable def addRows (start : Nat) (t part : Tensor ℝ) : Tensor ℝ :=
  t.write 0 start (ofFn part.shape fun idx => (t.narrow 0 start (start + part.size 0)).get idx + part.get idx)

/-! ## The plain head -/

/-- `selective_log_softmax`. -/
noncomputable def selectiveLogSoftmax (logits : Tensor ℝ) (index : Tensor Nat) : Tensor ℝ :=
  let logprobs := ofFn logits.shape fun idx =>
    match idx with
    | [b, s, v] => logSoftmax (Finset.range (logits.size 2)) (fun k => logits.get [b, s, k]) v
    | _ => 0
  ofFn index.shape fun idx => logprobs.get (idx ++ [index.get idx])

noncomputable def computeEntropy (shiftedLogits : Tensor ℝ) : Tensor ℝ :=
  ofFn [shiftedLogits.size 0, shiftedLogits.size 1] fun idx =>
    let row := fun v => shiftedLogits.get (idx ++ [v])
    let vocab := Finset.range (shiftedLogits.size 2)
    logSumExp vocab row - ∑ v ∈ vocab, softmax vocab row v * row v

/-! ## The loops -/

/-- The recurrence's state for the tokens of a chunk. -/
structure Online where
  m : Tensor (WithBot ℝ)
  s : Tensor ℝ
  t : Tensor ℝ

noncomputable def onlineLogsumexpAndWeightedUpdate (o : Online) (chunkLogits : Tensor ℝ) : Online :=
  let vocab := Finset.range (chunkLogits.size 1)
  let chunkM : Tensor (WithBot ℝ) := ofFn o.m.shape fun idx => vocab.sup fun j => (chunkLogits.get (idx ++ [j]) : WithBot ℝ)
  let mNew := ofFn o.m.shape fun idx => max (o.m.get idx) (chunkM.get idx)
  let expOld := ofFn o.m.shape fun idx => expSub (o.m.get idx) (mNew.get idx)
  let chunkExp := ofFn chunkLogits.shape fun idx => expSub (chunkLogits.get idx : WithBot ℝ) (mNew.get idx.dropLast)
  { m := mNew
    s := ofFn o.m.shape fun idx => o.s.get idx * expOld.get idx + ∑ j ∈ vocab, chunkExp.get (idx ++ [j])
    t := ofFn o.m.shape fun idx =>
      o.t.get idx * expOld.get idx + ∑ j ∈ vocab, chunkExp.get (idx ++ [j]) * chunkLogits.get (idx ++ [j]) }

/-- What a head does to its logits, and to the gradient of a logit. -/
structure Cap where
  apply : ℝ → ℝ
  chain : ℝ → ℝ → ℝ

/-- `(hidden_chunk @ weight_chunk.t())`, capped, times the inverse temperature of the token. -/
noncomputable def scaledLogits (cap : Cap) (hiddenChunk weightChunk invTChunk : Tensor ℝ) : Tensor ℝ :=
  let logitsChunk := matmul hiddenChunk (transpose weightChunk)
  ofFn logitsChunk.shape fun idx => cap.apply (logitsChunk.get idx) * invTChunk.get [idx.headD 0]

/-- One chunk of the vocabulary: the recurrence's step, and the logits of the labels in the chunk. -/
noncomputable def vocabStep (cap : Cap) (vocabChunkSize : Nat) (hiddenChunk weight : Tensor ℝ) (labelsChunk : Tensor Nat)
    (invTChunk : Tensor ℝ) (acc : Online × Tensor ℝ) (vocabStart : Nat) : Online × Tensor ℝ :=
  let vocabEnd := min (vocabStart + vocabChunkSize) (weight.size 0)
  let weightChunk := weight.narrow 0 vocabStart vocabEnd
  let scaled := scaledLogits cap hiddenChunk weightChunk invTChunk
  (onlineLogsumexpAndWeightedUpdate acc.1 scaled,
    ofFn acc.2.shape fun idx =>
      let label := labelsChunk.get idx
      if label ≥ vocabStart ∧ label < vocabEnd then scaled.get (idx ++ [label - vocabStart]) else acc.2.get idx)

/-- What the forward returns, and the normalisers it saves. -/
structure Outputs where
  logprobs : Tensor ℝ
  entropy : Tensor ℝ
  logz : Tensor ℝ

/-- The loop over the vocabulary for a chunk of tokens. -/
noncomputable def vocabLoop (cap : Cap) (vocabChunkSize : Nat) (hiddenChunk weight : Tensor ℝ) (labelsChunk : Tensor Nat)
    (invTChunk : Tensor ℝ) : Online × Tensor ℝ :=
  let tokenCount := hiddenChunk.size 0
  (starts (weight.size 0) vocabChunkSize).foldl (vocabStep cap vocabChunkSize hiddenChunk weight labelsChunk invTChunk)
    (⟨ofFn [tokenCount] fun _ => ⊥, ofFn [tokenCount] fun _ => 0, ofFn [tokenCount] fun _ => 0⟩,
      ofFn [tokenCount] fun _ => 0)

/-- One chunk of tokens. -/
noncomputable def tokenStep (cap : Cap) (vocabChunkSize chunkSize : Nat) (hidden weight : Tensor ℝ) (labels : Tensor Nat)
    (invTemperature : Tensor ℝ) (out : Outputs) (start : Nat) : Outputs :=
  let stop := min (start + chunkSize) (hidden.size 0)
  let (o, targetLogits) := vocabLoop cap vocabChunkSize (hidden.narrow 0 start stop) weight (labels.narrow 0 start stop)
    (invTemperature.narrow 0 start stop)
  let logzChunk := ofFn o.m.shape fun idx => (o.m.get idx).unbotD 0 + Real.log (o.s.get idx)
  { logz := out.logz.write 0 start logzChunk
    logprobs := out.logprobs.write 0 start (ofFn o.m.shape fun idx => targetLogits.get idx - logzChunk.get idx)
    entropy := out.entropy.write 0 start (ofFn o.m.shape fun idx => logzChunk.get idx - o.t.get idx / o.s.get idx) }

/-- The loop over the tokens; `fresh` is what unwritten memory holds. -/
noncomputable def chunkedForward (cap : Cap) (vocabChunkSize : Nat) (fresh : List Nat → Tensor ℝ) (hidden weight : Tensor ℝ)
    (labels : Tensor Nat) (invTemperature : Tensor ℝ) (chunkSize : Nat) : Outputs :=
  let n := hidden.size 0
  (starts n chunkSize).foldl (tokenStep cap vocabChunkSize chunkSize hidden weight labels invTemperature)
    ⟨fresh [n], fresh [n], fresh [n]⟩

structure Grads where
  hidden : Tensor ℝ
  weight : Tensor ℝ

/-- The gradient of the scaled logits of a chunk, before the multiplication by the inverse temperature. -/
noncomputable def gradScaled (labelsChunk : Tensor Nat) (gradChunk probs : Tensor ℝ) (vocabStart vocabEnd : Nat) :
    Tensor ℝ :=
  ofFn probs.shape fun idx =>
    match idx with
    | [i, j] =>
      let label := labelsChunk.get [i]
      let grad := -gradChunk.get [i] * probs.get [i, j]
      if (label ≥ vocabStart ∧ label < vocabEnd) ∧ j = label - vocabStart then grad + gradChunk.get [i] else grad
    | _ => 0

/-- The gradient of the logits of a chunk. -/
noncomputable def gradLogits (cap : Cap) (hiddenChunk weightChunk : Tensor ℝ) (labelsChunk : Tensor Nat)
    (gradChunk invTChunk logzChunk : Tensor ℝ) (vocabStart vocabEnd : Nat) : Tensor ℝ :=
  let logitsChunk := matmul hiddenChunk (transpose weightChunk)
  let scaled := scaledLogits cap hiddenChunk weightChunk invTChunk
  let probs := ofFn scaled.shape fun idx => Real.exp (scaled.get idx - logzChunk.get [idx.headD 0])
  let grad := gradScaled labelsChunk gradChunk probs vocabStart vocabEnd
  ofFn grad.shape fun idx => cap.chain (logitsChunk.get idx) (grad.get idx * invTChunk.get [idx.headD 0])

/-- One chunk of the vocabulary for the tokens from `start` on. -/
noncomputable def gradVocabStep (cap : Cap) (vocabChunkSize start : Nat) (hiddenChunk weight : Tensor ℝ)
    (labelsChunk : Tensor Nat) (gradChunk invTChunk logzChunk : Tensor ℝ) (grads : Grads) (vocabStart : Nat) : Grads :=
  let vocabEnd := min (vocabStart + vocabChunkSize) (weight.size 0)
  let weightChunk := weight.narrow 0 vocabStart vocabEnd
  let grad := gradLogits cap hiddenChunk weightChunk labelsChunk gradChunk invTChunk logzChunk vocabStart vocabEnd
  { hidden := addRows start grads.hidden (matmul grad weightChunk)
    weight := addRows vocabStart grads.weight (matmul (transpose grad) hiddenChunk) }

/-- One chunk of tokens. -/
noncomputable def gradTokenStep (cap : Cap) (vocabChunkSize chunkSize : Nat) (hidden weight : Tensor ℝ)
    (labels : Tensor Nat) (gradLogprobs invTemperature logz : Tensor ℝ) (grads : Grads) (start : Nat) : Grads :=
  let stop := min (start + chunkSize) (hidden.size 0)
  (starts (weight.size 0) vocabChunkSize).foldl (gradVocabStep cap vocabChunkSize start (hidden.narrow 0 start stop) weight
    (labels.narrow 0 start stop) (gradLogprobs.narrow 0 start stop) (invTemperature.narrow 0 start stop)
    (logz.narrow 0 start stop)) grads

noncomputable def chunkedBackward (cap : Cap) (vocabChunkSize : Nat) (hidden weight : Tensor ℝ) (labels : Tensor Nat)
    (invTemperature logz : Tensor ℝ) (chunkSize : Nat) (gradLogprobs : Tensor ℝ) : Grads :=
  (starts (hidden.size 0) chunkSize).foldl
    (gradTokenStep cap vocabChunkSize chunkSize hidden weight labels gradLogprobs invTemperature logz)
    ⟨ofFn hidden.shape fun _ => 0, ofFn weight.shape fun _ => 0⟩

/-! ## The two functions -/

/-- A shape as Python prints its tuple. -/
def tupleRepr (s : List Nat) : String :=
  match s with
  | [n] => s!"({n},)"
  | _ => "(" ++ String.intercalate ", " (s.map toString) ++ ")"

/-- What the forward checks of its arguments. -/
def checkForward (hidden weight : Tensor ℝ) (labels : Tensor Nat) (invTemperature : Tensor ℝ) (chunkSize : Nat) :
    Except String Unit := do
  raiseUnless (hidden.shape.length = 2) s!"expected hidden [N,H], got {tupleRepr hidden.shape}"
  raiseUnless (weight.shape.length = 2) s!"expected weight [V,H], got {tupleRepr weight.shape}"
  raiseUnless (labels.shape.length = 1) s!"expected labels [N], got {tupleRepr labels.shape}"
  raiseUnless (invTemperature.shape.length = 1) s!"expected inv_temperature [N], got {tupleRepr invTemperature.shape}"
  raiseUnless (hidden.size 0 = labels.size 0) "hidden/labels N mismatch"
  raiseUnless (hidden.size 1 = weight.size 1) "hidden/weight H mismatch"
  raiseUnless (hidden.size 0 = invTemperature.size 0) "hidden/inv_temperature N mismatch"
  raiseUnless (chunkSize > 0) ""

/-- What a function saves for its backward. -/
structure Ctx where
  hidden : Tensor ℝ
  weight : Tensor ℝ
  labels : Tensor Nat
  invTemperature : Tensor ℝ
  logz : Tensor ℝ
  chunkSize : Nat

/-- The forward of either function. -/
noncomputable def capForward (cap : Cap) (fresh : List Nat → Tensor ℝ) (hidden weight : Tensor ℝ) (labels : Tensor Nat)
    (invTemperature : Tensor ℝ) (chunkSize : Nat) : Except String (Ctx × Tensor ℝ × Tensor ℝ) := do
  checkForward hidden weight labels invTemperature chunkSize
  let vocabChunkSize := min (weight.size 0) 8192
  let out := chunkedForward cap vocabChunkSize fresh hidden weight labels invTemperature chunkSize
  return (⟨hidden, weight, labels, invTemperature, out.logz, chunkSize⟩, out.logprobs, out.entropy)

/-- The backward of either function; `name` is its head's. -/
noncomputable def capBackward (cap : Cap) (name : String) (ctx : Ctx) (gradLogprobs : Tensor ℝ)
    (gradEntropy : Option (Tensor ℝ)) : Except String Grads := by
  classical exact do
    raiseUnless (∀ g ∈ gradEntropy, ∀ idx, g.get idx = 0) s!"Backward through entropy is not implemented in {name}"
    let vocabChunkSize := min (ctx.weight.size 0) 8192
    return chunkedBackward cap vocabChunkSize ctx.hidden ctx.weight ctx.labels ctx.invTemperature ctx.logz ctx.chunkSize
      gradLogprobs

/-- No cap. -/
def noCap : Cap := ⟨id, fun _ grad => grad⟩

/-- `softcap * tanh(x / softcap)`. -/
noncomputable def softCap (softcap : ℝ) : Cap where
  apply x := softcap * Real.tanh (x / softcap)
  chain x grad := grad * (1 - Real.tanh (x / softcap) ^ 2)

namespace SequenceChunkedLogProbEntropyFn

noncomputable def forward : (List Nat → Tensor ℝ) → Tensor ℝ → Tensor ℝ → Tensor Nat → Tensor ℝ → Nat →
    Except String (Ctx × Tensor ℝ × Tensor ℝ) :=
  capForward noCap

/-- `needsHidden` and `needsWeight` are `ctx.needs_input_grad`. -/
noncomputable def backward (ctx : Ctx) (needsHidden needsWeight : Bool) (gradLogprobs : Tensor ℝ)
    (gradEntropy : Option (Tensor ℝ)) : Except String (Option (Tensor ℝ) × Option (Tensor ℝ)) := do
  let grads ← capBackward noCap "FusedOutputLinear" ctx gradLogprobs gradEntropy
  return (if needsHidden then some grads.hidden else none, if needsWeight then some grads.weight else none)

end SequenceChunkedLogProbEntropyFn

namespace GemmaChunkedLogProbEntropyFn

noncomputable def forward (fresh : List Nat → Tensor ℝ) (hidden weight : Tensor ℝ) (labels : Tensor Nat)
    (invTemperature : Tensor ℝ) (chunkSize : Nat) (softcap : ℝ) : Except String (Ctx × Tensor ℝ × Tensor ℝ) :=
  capForward (softCap softcap) fresh hidden weight labels invTemperature chunkSize

noncomputable def backward (ctx : Ctx) (softcap : ℝ) (gradLogprobs : Tensor ℝ) (gradEntropy : Option (Tensor ℝ)) :
    Except String Grads :=
  capBackward (softCap softcap) "GemmaFusedOutputLinear" ctx gradLogprobs gradEntropy

end GemmaChunkedLogProbEntropyFn

/-! ## The two heads -/

/-- The log-probabilities and the entropies. -/
structure PrimeLmOutput where
  logprobs : Tensor ℝ
  entropy : Tensor ℝ

/-- The forward of either head. -/
noncomputable def headForward (apply : Tensor ℝ → Tensor ℝ → Tensor Nat → Tensor ℝ → Nat →
      Except String (Ctx × Tensor ℝ × Tensor ℝ)) (name : String) (weight : Tensor ℝ) (chunkSize : Nat)
    (hiddenStates : Tensor ℝ) (labels : Option (Tensor Nat)) (temperature : Option (Tensor ℝ)) :
    Except String PrimeLmOutput := do
  let labels ← labels.elim (.error s!"{name} requires labels for chunked logprob computation") .ok
  let temperature ← temperature.elim (.error s!"{name} requires per-token temperatures") .ok
  let b := hiddenStates.size 0
  let s := hiddenStates.size 1
  let h := hiddenStates.size 2
  let hidden := hiddenStates.reshape [b * s, h]
  let labels := labels.reshape [b * s]
  let temperature := temperature.reshape [b * s]
  let invT := ofFn temperature.shape fun idx => 1 / temperature.get idx
  let (_, logprobs, entropy) ← apply hidden weight labels invT chunkSize
  return { logprobs := logprobs.reshape [b, s], entropy := entropy.reshape [b, s] }

noncomputable def FusedOutputLinear.forward (fresh : List Nat → Tensor ℝ) (weight : Tensor ℝ) (chunkSize : Nat) :
    Tensor ℝ → Option (Tensor Nat) → Option (Tensor ℝ) → Except String PrimeLmOutput :=
  headForward (SequenceChunkedLogProbEntropyFn.forward fresh) "FusedOutputLinear" weight chunkSize

noncomputable def GemmaFusedOutputLinear.forward (fresh : List Nat → Tensor ℝ) (weight : Tensor ℝ) (chunkSize : Nat)
    (softcap : ℝ) : Tensor ℝ → Option (Tensor Nat) → Option (Tensor ℝ) → Except String PrimeLmOutput :=
  headForward (fun hidden weight labels invT chunkSize =>
    GemmaChunkedLogProbEntropyFn.forward fresh hidden weight labels invT chunkSize softcap)
    "GemmaFusedOutputLinear" weight chunkSize

/-- The logits of a plain head, with its cap. -/
noncomputable def plainLogits (cap : Cap) (weight hiddenStates : Tensor ℝ) : Tensor ℝ :=
  ofFn [hiddenStates.size 0, hiddenStates.size 1, weight.size 0] fun idx =>
    match idx with
    | [b, s, v] => cap.apply (∑ k ∈ Finset.range (hiddenStates.size 2), hiddenStates.get [b, s, k] * weight.get [v, k])
    | _ => 0

noncomputable def VanillaOutputLinear.forward (weight hiddenStates : Tensor ℝ) : Tensor ℝ :=
  plainLogits noCap weight hiddenStates

noncomputable def GemmaVanillaOutputLinear.forward (softcap : ℝ) (weight hiddenStates : Tensor ℝ) : Tensor ℝ :=
  plainLogits (softCap softcap) weight hiddenStates

/-- `logits / temperature.unsqueeze(-1)`. -/
noncomputable def scaleLogits (logits temperature : Tensor ℝ) : Tensor ℝ :=
  ofFn logits.shape fun idx => logits.get idx / temperature.get idx.dropLast

/-- What the trainer computes of a plain head's logits. -/
noncomputable def plainOutput (logits : Tensor ℝ) (labels : Tensor Nat) (temperature : Tensor ℝ) : PrimeLmOutput where
  logprobs := selectiveLogSoftmax (scaleLogits logits temperature) labels
  entropy := computeEntropy (scaleLogits logits temperature)

end LmHead
end Aether
