import AetherRl.Checked
import AetherRl.Protocol
import Mathlib.Algebra.GroupWithZero.Nat
/-!
# BatchSample — training samples, micro-batches, and `prepare_sample`

The records of `transport/types.py` and the first half of `trainer/batch.py`.  Floats are a type `F` of which a `0`, a `1`
and a test for equality are used.  What numpy decides is a parameter: the size of an item of a dtype, and the rows of an
encoded integer array.
-/
namespace Aether

structure EncodedTensor where
  dtype : String
  shape : List Nat
  data : Bytes
deriving DecidableEq

/-- `shape` is `[seq_len, layers, topk]`. -/
structure RoutedExperts where
  data : Bytes
  shape : List Nat
  dtype : String
deriving DecidableEq

structure TrainingSample (F : Type) where
  tokenIds : List Int
  mask : List Bool
  logprobs : List F
  temperatures : List F
  envName : String
  refLogprobs : Option (List F)
  mmKwargs : Option (List (String × EncodedTensor))
  routedExperts : Option RoutedExperts
  mmTokenTypeIds : Option (List Nat)
  rlWeights : Option (List F)
  ceWeights : Option (List F)
  refKlWeights : Option (List F)
  advantages : Option (List F)
deriving DecidableEq

structure MicroBatch (F : Type) where
  inputIds : List Int
  lossMask : List Bool
  advantages : List F
  inferenceLogprobs : List F
  positionIds : List Nat
  sequenceLengths : List Nat
  temperatures : List F
  envNames : List String
  seqLens : List Nat
  refLogprobs : Option (List F)
  loraNumTokens : Option (List Nat)
  routedExperts : Option RoutedExperts
  mmKwargs : Option (List (String × EncodedTensor))
  mmTokenTypeIds : Option (List Nat)
  rlWeights : Option (List F)
  ceWeights : Option (List F)
  refKlWeights : Option (List F)
deriving DecidableEq

namespace Batch

open Checked

inductive Error
  | value (message : String)
  | assertion (message : String)
  | key (name : String)
  | index
  | zeroDivision
  | runtime (message : String)
deriving DecidableEq

/-- What the code asks of numpy: `np.dtype(dtype).itemsize`, and `np.frombuffer(...).reshape(shape)` row by row. -/
structure Numpy where
  itemsize : String → Nat
  rows : EncodedTensor → Except Error (List (List Nat))

variable {F : Type}

/-! ## Routed experts and encoded tensors -/

def routedExpertsRowSize (np : Numpy) (r : RoutedExperts) : Except Error Nat :=
  match r.shape with
  | _ :: layers :: topk :: _ => .ok (layers * topk * np.itemsize r.dtype)
  | _ => .error .index

def sliceRoutedExperts (np : Numpy) (r : RoutedExperts) (seqLen : Nat) : Except Error RoutedExperts :=
  match r.shape with
  | _ :: layers :: topk :: _ =>
    .ok ⟨r.data.take (seqLen * (layers * topk * np.itemsize r.dtype)), [seqLen, layers, topk], r.dtype⟩
  | _ => .error .index

/-- The first rows of a tensor stacked along its first dimension. -/
def sliceEncoded (np : Numpy) (t : EncodedTensor) (nRows : Nat) : EncodedTensor :=
  let row := t.shape.tail.prod
  ⟨t.dtype, nRows :: t.shape.tail, t.data.take (nRows * row * np.itemsize t.dtype)⟩

def tensor (mmKwargs : List (String × EncodedTensor)) (key : String) : Except Error EncodedTensor :=
  match mmKwargs.lookup key with
  | some t => .ok t
  | none => .error (.key key)

/-! ## Multimodal truncation -/

/-- `for n in tokens_per_image: if acc + n > surviving: break; ...`, from `(kept, acc)`. -/
def keepImages (surviving : Nat) : List Nat → Nat × Nat → Nat × Nat
  | [], p => p
  | n :: ns, (kept, acc) => if surviving < acc + n then (kept, acc) else keepImages surviving ns (kept + 1, acc + n)

/-- The index of the placeholder that comes after `n` others, or `otherwise`. -/
def placeholderAfter (otherwise : Nat) : Nat → List Nat → Nat → Nat
  | _, [], _ => otherwise
  | n, 0 :: ts, i => placeholderAfter otherwise n ts (i + 1)
  | 0, (_ + 1) :: _, i => i
  | n + 1, (_ + 1) :: ts, i => placeholderAfter otherwise n ts (i + 1)

def placeholders (mmTokenTypeIds : List Nat) : Nat := mmTokenTypeIds.countP (· ≠ 0)

def tokensPerImage (patchesPerImage : List Nat) (ppt : Nat) : Except Error (List Nat) :=
  patchesPerImage.mapM fun p => if ppt = 0 then .error .zeroDivision else .ok (p / ppt)

def firstDim (t : EncodedTensor) : Except Error Nat :=
  match t.shape with
  | n :: _ => .ok n
  | [] => .error .index

/-- The cut, and the kwargs of the images that survive it: where what survives ends inside image `kept`, the cut is at
the first placeholder of that image. -/
def cutMm (np : Numpy) (mmTokenTypeIds : List Nat) (mmKwargs : List (String × EncodedTensor)) (seqLen : Nat)
    (patchesPerImage tokensPerImage : List Nat) : Nat × Option (List (String × EncodedTensor)) :=
  let surviving := placeholders (mmTokenTypeIds.take seqLen)
  let images := keepImages surviving tokensPerImage (0, 0)
  let keptPatches := (patchesPerImage.take images.1).sum
  (if images.2 = surviving then seqLen else placeholderAfter seqLen images.2 mmTokenTypeIds 0,
    if images.1 = 0 then none
    else some (mmKwargs.map fun (k, v) =>
      (k, sliceEncoded np v (if k = "image_grid_thw" then images.1 else keptPatches))))

def truncateMm (np : Numpy) (mmTokenTypeIds : List Nat) (mmKwargs : List (String × EncodedTensor)) (seqLen : Nat) :
    Except Error (Nat × Option (List (String × EncodedTensor))) := do
  let grid ← tensor mmKwargs "image_grid_thw"
  let rows ← np.rows grid
  let patchesPerImage := rows.map List.prod
  let pixels ← tensor mmKwargs "pixel_values"
  let totalPatches ← firstDim pixels
  let totalTokens := placeholders mmTokenTypeIds
  let ppt := if totalTokens = 0 then 1 else totalPatches / totalTokens
  let perImage ← tokensPerImage patchesPerImage ppt
  .ok (cutMm np mmTokenTypeIds mmKwargs seqLen patchesPerImage perImage)

def multimodalSampleError (s : TrainingSample F) : Option String :=
  match s.mmTokenTypeIds with
  | some ids =>
    if ids.length ≠ s.tokenIds.length then
      some s!"mm_token_type_ids length must match token_ids length ({ids.length} != {s.tokenIds.length})"
    else none
  | none =>
    match s.mmKwargs with
    | some kwargs =>
      if (kwargs.lookup "image_grid_thw").isSome then
        some "image_grid_thw multimodal samples require mm_token_type_ids"
      else none
    | none => none

/-! ## prepare_sample -/

/-- A token the rl component would train. -/
def hasRlMembers [Zero F] [DecidableEq F] (mask : List Bool) : Option (List F) → Bool
  | none => mask.any id
  | some w => (mask.zip w).any fun (m, w) => m && w ≠ 0

def preparedAdvantages [Zero F] [DecidableEq F] (s : TrainingSample F) : Except Error (List F) :=
  match s.advantages with
  | some advantages => .ok advantages
  | none =>
    if hasRlMembers s.mask s.rlWeights then
      .error (.value s!"sample from env '{s.envName}' has rl member tokens but no advantages — the producer must stamp the advantage stream (the orchestrator broadcasts the rollout scalar)")
    else .ok (List.replicate s.tokenIds.length 0)

/-- Every array of a sample cut to its first `cut` tokens. -/
def cutTo (m : MicroBatch F) (cut : Nat) (routedExperts : Option RoutedExperts)
    (mmKwargs : Option (List (String × EncodedTensor))) : MicroBatch F :=
  { m with
    inputIds := m.inputIds.take cut
    lossMask := m.lossMask.take cut
    inferenceLogprobs := m.inferenceLogprobs.take cut
    positionIds := m.positionIds.take cut
    advantages := m.advantages.take cut
    temperatures := m.temperatures.take cut
    refLogprobs := m.refLogprobs.map (·.take cut)
    rlWeights := m.rlWeights.map (·.take cut)
    ceWeights := m.ceWeights.map (·.take cut)
    refKlWeights := m.refKlWeights.map (·.take cut)
    routedExperts := routedExperts
    mmTokenTypeIds := m.mmTokenTypeIds.map (·.take cut)
    envNames := m.envNames.take cut
    mmKwargs := mmKwargs }

/-- Where to cut, and what is left of the kwargs: a text sample is cut at `seq_len`. -/
def cutPoint (np : Numpy) (seqLen : Nat) : Option (List Nat) → Option (List (String × EncodedTensor)) →
    Except Error (Nat × Option (List (String × EncodedTensor)))
  | some ids, some kwargs => truncateMm np ids kwargs seqLen
  | _, kwargs => .ok (seqLen, kwargs)

def cutRoutedExperts (np : Numpy) (cut : Nat) : Option RoutedExperts → Except Error (Option RoutedExperts)
  | some r => some <$> sliceRoutedExperts np r cut
  | none => .ok none

/-- `if len(input_ids) > seq_len`. -/
def truncate (np : Numpy) (m : MicroBatch F) (seqLen : Nat) : Except Error (MicroBatch F) :=
  if m.inputIds.length ≤ seqLen then .ok m
  else do
    let p ← cutPoint np seqLen m.mmTokenTypeIds m.mmKwargs
    let routedExperts ← cutRoutedExperts np p.1 m.routedExperts
    .ok (cutTo m p.1 routedExperts p.2)

/-- The stream, where there is one, has the length of the sample. -/
def checkStream (n : Nat) (name : String) (stream : Option (List F)) : Except Error Unit :=
  match stream with
  | some stream => raiseUnless (stream.length = n) (.assertion s!"{name}: {stream.length}")
  | none => .ok ()

def checkRoutedExperts (np : Numpy) (n : Nat) (routedExperts : Option RoutedExperts) : Except Error Unit :=
  match routedExperts with
  | some r => do
    raiseUnless (r.shape.head? = some n) (.assertion s!"routed_experts: {r.shape}, input_ids: {n}")
    let row ← routedExpertsRowSize np r
    raiseUnless (r.data.length = n * row) (.assertion "")
  | none => .ok ()

/-- The assertions before the sample is returned. -/
def checkPrepared (np : Numpy) (m : MicroBatch F) : Except Error Unit := do
  let n := m.inputIds.length
  raiseUnless (m.advantages.length = n ∧ m.lossMask.length = n ∧ m.positionIds.length = n ∧
      m.inferenceLogprobs.length = n ∧ m.temperatures.length = n)
    (.assertion s!"input_ids: {n}, advantages: {m.advantages.length}, loss_mask: {m.lossMask.length}, position_ids: {m.positionIds.length}, inference_logprobs: {m.inferenceLogprobs.length}, temperatures: {m.temperatures.length}")
  checkStream n "ref_logprobs" m.refLogprobs
  checkStream n "rl_weights" m.rlWeights
  checkStream n "ce_weights" m.ceWeights
  checkStream n "ref_kl_weights" m.refKlWeights
  checkRoutedExperts np n m.routedExperts
  raiseUnless (m.envNames.length = n) (.assertion s!"env_names: {m.envNames.length}, input_ids: {n}")

/-- The sample as a micro-batch, before truncation. -/
def ofSample (s : TrainingSample F) (advantages : List F) : MicroBatch F where
  inputIds := s.tokenIds
  lossMask := s.mask
  advantages := advantages
  inferenceLogprobs := s.logprobs
  positionIds := List.range s.tokenIds.length
  sequenceLengths := []
  temperatures := s.temperatures
  envNames := List.replicate s.tokenIds.length s.envName
  seqLens := []
  refLogprobs := s.refLogprobs
  loraNumTokens := none
  routedExperts := s.routedExperts
  mmKwargs := s.mmKwargs
  mmTokenTypeIds := s.mmTokenTypeIds
  rlWeights := s.rlWeights
  ceWeights := s.ceWeights
  refKlWeights := s.refKlWeights

def prepareSample [Zero F] [DecidableEq F] (np : Numpy) (s : TrainingSample F) (seqLen : Nat) :
    Except Error (MicroBatch F) := do
  match multimodalSampleError s with
  | some error => .error (.value error)
  | none =>
    let advantages ← preparedAdvantages s
    raiseUnless (s.envName ≠ "all") (.assertion "env_name='all' is reserved for aggregate metric keys")
    let m ← truncate np (ofSample s advantages) seqLen
    checkPrepared np m
    .ok { m with sequenceLengths := [m.inputIds.length], seqLens := [m.inputIds.length] }

/-! ## What `prepare_sample` returns -/

/-- Every per-token array has the length of `input_ids`. -/
structure Aligned (m : MicroBatch F) : Prop where
  lossMask : m.lossMask.length = m.inputIds.length
  advantages : m.advantages.length = m.inputIds.length
  inferenceLogprobs : m.inferenceLogprobs.length = m.inputIds.length
  positionIds : m.positionIds.length = m.inputIds.length
  temperatures : m.temperatures.length = m.inputIds.length
  envNames : m.envNames.length = m.inputIds.length
  refLogprobs : ∀ l, m.refLogprobs = some l → l.length = m.inputIds.length
  rlWeights : ∀ l, m.rlWeights = some l → l.length = m.inputIds.length
  ceWeights : ∀ l, m.ceWeights = some l → l.length = m.inputIds.length
  refKlWeights : ∀ l, m.refKlWeights = some l → l.length = m.inputIds.length
  mmTokenTypeIds : ∀ l, m.mmTokenTypeIds = some l → l.length = m.inputIds.length
  sequenceLengths : m.sequenceLengths.sum = m.inputIds.length
  seqLens : m.seqLens.sum = m.inputIds.length
  routedExperts : ∀ r, m.routedExperts = some r → r.shape.head? = some m.inputIds.length

/-- A prepared sample: one aligned sequence that fits, with whole rows of routed experts. -/
structure Prepared (np : Numpy) (seqLen : Nat) (m : MicroBatch F) : Prop extends Aligned m where
  fits : m.inputIds.length ≤ seqLen
  single : m.sequenceLengths = [m.inputIds.length]
  singleLens : m.seqLens = [m.inputIds.length]
  rows : ∀ r, m.routedExperts = some r →
    ∃ row, routedExpertsRowSize np r = .ok row ∧ r.data.length = m.inputIds.length * row

theorem keepImages_le {surviving : Nat} : ∀ (ns : List Nat) (kept acc : Nat), acc ≤ surviving →
    (keepImages surviving ns (kept, acc)).2 ≤ surviving
  | [], kept, acc, h => h
  | n :: ns, kept, acc, h => by
    rw [keepImages]
    split
    · exact h
    · exact keepImages_le ns (kept + 1) (acc + n) (by omega)

/-- A placeholder that survives is found within what survives. -/
theorem placeholderAfter_lt (o : Nat) : ∀ (ids : List Nat) (n i seqLen : Nat),
    n < placeholders (ids.take seqLen) → placeholderAfter o n ids i < i + seqLen
  | [], n, i, seqLen, h => by simp [placeholders] at h
  | t :: ids, n, i, 0, h => by simp [placeholders] at h
  | 0 :: ids, n, i, seqLen + 1, h => by
    rw [List.take_succ_cons, placeholders, List.countP_cons_of_neg (by simp)] at h
    have hlt := placeholderAfter_lt o ids n (i + 1) seqLen h
    rw [placeholderAfter]
    omega
  | (t + 1) :: ids, 0, i, seqLen + 1, h => by
    rw [placeholderAfter]
    omega
  | (t + 1) :: ids, n + 1, i, seqLen + 1, h => by
    rw [List.take_succ_cons, placeholders, List.countP_cons_of_pos (by simp)] at h
    have hlt := placeholderAfter_lt o ids n (i + 1) seqLen (Nat.lt_of_succ_lt_succ h)
    rw [placeholderAfter]
    omega

theorem cutMm_le {np : Numpy} {ids : List Nat} {kwargs : List (String × EncodedTensor)} {seqLen : Nat}
    {patches tokens : List Nat} : (cutMm np ids kwargs seqLen patches tokens).1 ≤ seqLen := by
  have hle := keepImages_le tokens 0 0 (Nat.zero_le (placeholders (ids.take seqLen)))
  unfold cutMm
  dsimp only
  split
  · exact le_rfl
  · rename_i hne
    have hlt := placeholderAfter_lt seqLen ids _ 0 seqLen (lt_of_le_of_ne hle hne)
    omega

/-- **A multimodal cut stays within the length asked for.** -/
theorem truncateMm_le {np : Numpy} {ids : List Nat} {kwargs : List (String × EncodedTensor)} {seqLen cut : Nat}
    {rest : Option (List (String × EncodedTensor))} (h : truncateMm np ids kwargs seqLen = .ok (cut, rest)) :
    cut ≤ seqLen := by
  simp only [truncateMm, bind_eq_ok, Except.ok.injEq] at h
  obtain ⟨grid, -, rows, -, pixels, -, total, -, perImage, -, h⟩ := h
  have hcut : (cutMm np ids kwargs seqLen (rows.map List.prod) perImage).1 ≤ seqLen := cutMm_le
  rw [h] at hcut
  exact hcut

/-- What truncation does: nothing, or a cut of every array. -/
theorem truncate_eq_ok {np : Numpy} {m m' : MicroBatch F} {seqLen : Nat} (h : truncate np m seqLen = .ok m') :
    m.inputIds.length ≤ seqLen ∧ m' = m ∨ ∃ cut routed kwargs, cut ≤ seqLen ∧ m' = cutTo m cut routed kwargs := by
  unfold truncate at h
  split at h
  · rename_i hle
    cases h
    exact .inl ⟨hle, rfl⟩
  · obtain ⟨⟨cut, kwargs⟩, hcut, h⟩ := bind_eq_ok.1 h
    obtain ⟨routed, -, h⟩ := bind_eq_ok.1 h
    cases h
    refine .inr ⟨cut, routed, kwargs, ?_, rfl⟩
    unfold cutPoint at hcut
    split at hcut
    · exact truncateMm_le hcut
    · cases hcut
      exact le_rfl

theorem checkStream_eq_ok {n : Nat} {name : String} {stream : Option (List F)} {u : Unit}
    (h : checkStream n name stream = .ok u) : ∀ l, stream = some l → l.length = n := by
  rintro l rfl
  exact raiseUnless_eq_ok.1 h

theorem checkRoutedExperts_eq_ok {np : Numpy} {n : Nat} {routed : Option RoutedExperts} {u : Unit}
    (h : checkRoutedExperts np n routed = .ok u) : ∀ r, routed = some r →
      r.shape.head? = some n ∧ ∃ row, routedExpertsRowSize np r = .ok row ∧ r.data.length = n * row := by
  rintro r rfl
  simp only [checkRoutedExperts, bind_eq_ok, raiseUnless_eq_ok] at h
  obtain ⟨-, hshape, row, hrow, hdata⟩ := h
  exact ⟨hshape, row, hrow, hdata⟩

/-- **Every sample `prepare_sample` returns is prepared.** -/
theorem prepareSample_prepared [Zero F] [DecidableEq F] {np : Numpy} {s : TrainingSample F} {seqLen : Nat} {m : MicroBatch F}
    (h : prepareSample np s seqLen = .ok m) : Prepared np seqLen m := by
  unfold prepareSample at h
  split at h
  · cases h
  rename_i hmm
  simp only [bind_eq_ok, Except.ok.injEq, checkPrepared, raiseUnless_eq_ok] at h
  obtain ⟨advantages, -, _, -, c, hc, _, ⟨_, hlen, _, href, _, hrl, _, hce, _, hrk, _, hrouted, henv⟩, rfl⟩ := h
  obtain ⟨hadv, hmask, hpos, hlogp, htemp⟩ := hlen
  have hids : ∀ l, s.mmTokenTypeIds = some l → l.length = s.tokenIds.length := by
    intro l hl
    simp only [multimodalSampleError, hl] at hmm
    by_contra hne
    rw [if_pos hne] at hmm
    cases hmm
  -- the type ids are cut where the tokens are
  have hcut : c.inputIds.length ≤ seqLen ∧ ∀ l, c.mmTokenTypeIds = some l → l.length = c.inputIds.length := by
    rcases truncate_eq_ok hc with ⟨hle, rfl⟩ | ⟨cut, routed, kwargs, hle, rfl⟩
    · exact ⟨hle, hids⟩
    · refine ⟨?_, fun l hl => ?_⟩
      · rw [cutTo, List.length_take]
        omega
      · obtain ⟨l', hl', rfl⟩ := Option.map_eq_some_iff.1 hl
        rw [List.length_take, hids l' hl', cutTo, List.length_take]
        rfl
  have hrows := checkRoutedExperts_eq_ok hrouted
  exact {
    lossMask := hmask, advantages := hadv, inferenceLogprobs := hlogp, positionIds := hpos, temperatures := htemp
    envNames := henv, refLogprobs := checkStream_eq_ok href, rlWeights := checkStream_eq_ok hrl
    ceWeights := checkStream_eq_ok hce, refKlWeights := checkStream_eq_ok hrk, mmTokenTypeIds := hcut.2
    sequenceLengths := List.sum_singleton, seqLens := List.sum_singleton
    routedExperts := fun r hr => (hrows r hr).1
    fits := hcut.1, single := rfl, singleLens := rfl, rows := fun r hr => (hrows r hr).2 }

end Batch
end Aether
