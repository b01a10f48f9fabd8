import AetherRl.BatchBins
/-!
# BatchAssembly — bins as micro-batches, their padding, and dummy micro-batches

`_materialize_bin` and what `prepare_batch` does to one micro-batch.  `Packs` says what a micro-batch is made of, array by
array: its samples one after the other, streams that only some carry filled in, and so many tokens of padding.
-/
namespace Aether
namespace Batch

open Checked

variable {F : Type}

/-! ## Materialization -/

/-- A stream exists as soon as one sample carries it; the others get the fill. -/
def backfill {α : Type} (stream : MicroBatch F → Option (List α)) (fill : α) (samples : List (MicroBatch F)) :
    Option (List α) :=
  if samples.any fun s => (stream s).isSome then
    some (samples.flatMap fun s => (stream s).getD (List.replicate s.inputIds.length fill))
  else none

/-- What a bin accumulates beside the per-token arrays. -/
structure Sidecars where
  routedExperts : Option RoutedExperts
  mmKwargs : Option (List (String × EncodedTensor))
  loraNumTokens : List Nat
deriving DecidableEq

def stackRoutedExperts : Option RoutedExperts → Option RoutedExperts → Except Error (Option RoutedExperts)
  | acc, none => .ok acc
  | none, some r => .ok (some r)
  | some a, some r => do
    raiseUnless (a.dtype = r.dtype) (.assertion "")
    raiseUnless (a.shape.tail = r.shape.tail) (.assertion "")
    match a.shape, r.shape with
    | n :: rest, k :: _ => .ok (some ⟨a.data ++ r.data, (n + k) :: rest, a.dtype⟩)
    | _, _ => .error .index

def stackTensor (src : List (String × EncodedTensor)) (p : String × EncodedTensor) :
    Except Error (String × EncodedTensor) := do
  let u ← tensor src p.1
  match p.2.shape, u.shape with
  | n :: rest, k :: _ => .ok (p.1, ⟨p.2.dtype, (n + k) :: rest, p.2.data ++ u.data⟩)
  | _, _ => .error .index

def stackKwargs : Option (List (String × EncodedTensor)) → Option (List (String × EncodedTensor)) →
    Except Error (Option (List (String × EncodedTensor)))
  | acc, none => .ok acc
  | none, some src => .ok (some src)
  | some dst, some src => some <$> dst.mapM (stackTensor src)

def addLoraTokens (loraNumTokens : List Nat) (loraIdx n : Nat) : Except Error (List Nat) :=
  match loraNumTokens[loraIdx]? with
  | some k => .ok (loraNumTokens.set loraIdx (k + n))
  | none => .error .index

def Sidecars.stack (acc : Sidecars) (p : Nat × MicroBatch F) : Except Error Sidecars := do
  let routedExperts ← stackRoutedExperts acc.routedExperts p.2.routedExperts
  let mmKwargs ← stackKwargs acc.mmKwargs p.2.mmKwargs
  let loraNumTokens ← addLoraTokens acc.loraNumTokens p.1 p.2.inputIds.length
  .ok ⟨routedExperts, mmKwargs, loraNumTokens⟩

def stackAll : Sidecars → List (Nat × MicroBatch F) → Except Error Sidecars
  | acc, [] => .ok acc
  | acc, p :: samples => do
    let acc ← acc.stack p
    stackAll acc samples

/-- The samples in one sequence each: `STREAM_FILL` is 1 for rl, 0 for ce and ref_kl. -/
def assemble [Zero F] [One F] (samples : List (MicroBatch F)) (sidecars : Sidecars) : MicroBatch F where
  inputIds := samples.flatMap (·.inputIds)
  lossMask := samples.flatMap (·.lossMask)
  advantages := samples.flatMap (·.advantages)
  inferenceLogprobs := samples.flatMap (·.inferenceLogprobs)
  positionIds := samples.flatMap (·.positionIds)
  sequenceLengths := samples.map (·.inputIds.length)
  temperatures := samples.flatMap (·.temperatures)
  envNames := samples.flatMap (·.envNames)
  seqLens := samples.flatMap (·.seqLens)
  refLogprobs := backfill (·.refLogprobs) 0 samples
  loraNumTokens := some sidecars.loraNumTokens
  routedExperts := sidecars.routedExperts
  mmKwargs := sidecars.mmKwargs
  mmTokenTypeIds := backfill (·.mmTokenTypeIds) 0 samples
  rlWeights := backfill (·.rlWeights) 1 samples
  ceWeights := backfill (·.ceWeights) 0 samples
  refKlWeights := backfill (·.refKlWeights) 0 samples

def materializeBin [Zero F] [One F] (b : MicroBatchBin F) (numLoras : Nat) : Except Error (MicroBatch F) := do
  let sidecars ← stackAll ⟨none, none, List.replicate numLoras 0⟩ b.samples
  let m := assemble (b.samples.map Prod.snd) sidecars
  raiseUnless (m.sequenceLengths.sum = m.inputIds.length)
    (.assertion s!"({m.sequenceLengths}, {m.inputIds.length})")
  raiseUnless (m.seqLens.sum = m.inputIds.length) (.assertion s!"({m.seqLens}, {m.inputIds.length})")
  .ok m

/-! ## Padding -/

/-- `l[-1] += n`. -/
def addToLast (l : List Nat) (n : Nat) : Except Error (List Nat) :=
  match l.getLast? with
  | some k => .ok (l.dropLast ++ [k + n])
  | none => .error .index

def addToLast? (l : Option (List Nat)) (n : Nat) : Except Error (Option (List Nat)) :=
  match l with
  | some l => some <$> addToLast l n
  | none => .ok none

def padRoutedExperts (np : Numpy) (routedExperts : Option RoutedExperts) (paddingSize : Nat) :
    Except Error (Option RoutedExperts) :=
  match routedExperts with
  | none => .ok none
  | some r => do
    let row ← routedExpertsRowSize np r
    match r.shape with
    | n :: rest => .ok (some ⟨r.data ++ List.replicate (paddingSize * row) 0, (n + paddingSize) :: rest, r.dtype⟩)
    | [] => .error .index

def paddingSize (m : MicroBatch F) (padToMultipleOf : Nat) : Nat :=
  (padToMultipleOf - m.inputIds.length % padToMultipleOf) % padToMultipleOf

def padMicroBatch [Zero F] [One F] (np : Numpy) (padToMultipleOf : Nat) (m : MicroBatch F) :
    Except Error (MicroBatch F) := do
  raiseUnless (padToMultipleOf ≠ 0) .zeroDivision
  let n := paddingSize m padToMultipleOf
  raiseUnless (m.envNames.length = m.inputIds.length)
    (.value s!"MicroBatch.env_names must match input_ids length before padding: env_names={m.envNames.length}, input_ids={m.inputIds.length}")
  if ¬ (1 < padToMultipleOf ∧ 0 < n) then .ok m
  else do
    let sequenceLengths ← addToLast m.sequenceLengths n
    let seqLens ← addToLast m.seqLens n
    let loraNumTokens ← addToLast? m.loraNumTokens n
    let routedExperts ← padRoutedExperts np m.routedExperts n
    .ok { m with
      inputIds := m.inputIds ++ List.replicate n 1
      advantages := m.advantages ++ List.replicate n 0
      lossMask := m.lossMask ++ List.replicate n false
      positionIds := m.positionIds ++ List.range n
      sequenceLengths := sequenceLengths
      seqLens := seqLens
      inferenceLogprobs := m.inferenceLogprobs ++ List.replicate n 0
      temperatures := m.temperatures ++ List.replicate n 1
      refLogprobs := m.refLogprobs.map (· ++ List.replicate n 0)
      rlWeights := m.rlWeights.map (· ++ List.replicate n 0)
      ceWeights := m.ceWeights.map (· ++ List.replicate n 0)
      refKlWeights := m.refKlWeights.map (· ++ List.replicate n 0)
      loraNumTokens := loraNumTokens
      mmTokenTypeIds := m.mmTokenTypeIds.map (· ++ List.replicate n 0)
      routedExperts := routedExperts
      envNames := m.envNames ++ List.replicate n "" }

/-! ## Dummies and the last check -/

def makeDummyBatch [Zero F] (source : MicroBatch F) : MicroBatch F :=
  { source with
    advantages := List.replicate source.inputIds.length 0
    lossMask := List.replicate source.inputIds.length false
    rlWeights := none
    ceWeights := none
    refKlWeights := none }

def checkAligned {α : Type} (numTokens : Nat) (name : String) (values : Option (List α)) : Except Error Unit :=
  match values with
  | some values => raiseUnless (values.length = numTokens)
      (.assertion s!"{name} misaligned after packing: {values.length} != {numTokens} tokens")
  | none => .ok ()

def checkRoutedShape (numTokens : Nat) (routedExperts : Option RoutedExperts) : Except Error Unit :=
  match routedExperts with
  | some r => raiseUnless (r.shape.head? = some numTokens)
      (.assertion s!"routed_experts misaligned after packing: {r.shape.headD 0} != {numTokens} tokens")
  | none => .ok ()

def assertTokenArraysAligned (m : MicroBatch F) : Except Error Unit := do
  let numTokens := m.inputIds.length
  checkAligned numTokens "loss_mask" (some m.lossMask)
  checkAligned numTokens "advantages" (some m.advantages)
  checkAligned numTokens "inference_logprobs" (some m.inferenceLogprobs)
  checkAligned numTokens "position_ids" (some m.positionIds)
  checkAligned numTokens "temperatures" (some m.temperatures)
  checkAligned numTokens "env_names" (some m.envNames)
  checkAligned numTokens "ref_logprobs" m.refLogprobs
  checkAligned numTokens "rl_weights" m.rlWeights
  checkAligned numTokens "ce_weights" m.ceWeights
  checkAligned numTokens "ref_kl_weights" m.refKlWeights
  checkAligned numTokens "mm_token_type_ids" m.mmTokenTypeIds
  raiseUnless (m.sequenceLengths.sum = numTokens)
    (.assertion s!"sequence_lengths sum {m.sequenceLengths.sum} != {numTokens} tokens")
  raiseUnless (m.seqLens.sum = numTokens) (.assertion s!"seq_lens sum {m.seqLens.sum} != {numTokens} tokens")
  checkRoutedShape numTokens m.routedExperts

theorem checkAligned_of {α : Type} {n : Nat} {name : String} {values : Option (List α)}
    (h : ∀ l, values = some l → l.length = n) : checkAligned n name values = .ok () := by
  cases values with
  | none => rfl
  | some l => exact raiseUnless_of _ (h l rfl)

/-- **An aligned micro-batch passes the last check.** -/
theorem assertTokenArraysAligned_of {m : MicroBatch F} (h : Aligned m) : assertTokenArraysAligned m = .ok () := by
  have always : ∀ {α : Type} {l : List α}, l.length = m.inputIds.length → ∀ l', some l = some l' →
      l'.length = m.inputIds.length := fun hl l' hl' => Option.some.inj hl' ▸ hl
  simp only [assertTokenArraysAligned, checkAligned_of (always h.lossMask), checkAligned_of (always h.advantages),
    checkAligned_of (always h.inferenceLogprobs), checkAligned_of (always h.positionIds),
    checkAligned_of (always h.temperatures), checkAligned_of (always h.envNames), checkAligned_of h.refLogprobs,
    checkAligned_of h.rlWeights, checkAligned_of h.ceWeights, checkAligned_of h.refKlWeights,
    checkAligned_of h.mmTokenTypeIds, raiseUnless_of _ h.sequenceLengths, raiseUnless_of _ h.seqLens, ok_bind]
  cases hr : m.routedExperts with
  | none => rfl
  | some r => exact raiseUnless_of _ (h.routedExperts r hr)

theorem makeDummyBatch_aligned [Zero F] {m : MicroBatch F} (h : Aligned m) : Aligned (makeDummyBatch m) :=
  { h with
    lossMask := List.length_replicate, advantages := List.length_replicate
    rlWeights := fun _ hl => by cases hl
    ceWeights := fun _ hl => by cases hl
    refKlWeights := fun _ hl => by cases hl }

end Batch
end Aether
