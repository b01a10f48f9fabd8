import AetherRl.BatchPacks
/-!
# BatchSegments — micro-batches cut back into samples

A segment is what a sample brings to a micro-batch, token by token, with the fill of the streams it does not carry.  A
micro-batch cut at its recorded sequence lengths, its padding dropped, is the list of its samples.
-/
namespace Aether
namespace Batch

open Checked

variable {F : Type}

structure Segment (F : Type) where
  inputIds : List Int
  lossMask : List Bool
  advantages : List F
  inferenceLogprobs : List F
  positionIds : List Nat
  temperatures : List F
  envNames : List String
  refLogprobs : List F
  rlWeights : List F
  ceWeights : List F
  refKlWeights : List F
  mmTokenTypeIds : List Nat
  -- the dtype, the shape of a row, and the rows
  routedExperts : Option (String × List Nat × Bytes)
deriving DecidableEq

/-- A sample as a segment. -/
def whole [Zero F] [One F] (s : MicroBatch F) : Segment F where
  inputIds := s.inputIds
  lossMask := s.lossMask
  advantages := s.advantages
  inferenceLogprobs := s.inferenceLogprobs
  positionIds := s.positionIds
  temperatures := s.temperatures
  envNames := s.envNames
  refLogprobs := s.refLogprobs.getD (List.replicate s.inputIds.length 0)
  rlWeights := s.rlWeights.getD (List.replicate s.inputIds.length 1)
  ceWeights := s.ceWeights.getD (List.replicate s.inputIds.length 0)
  refKlWeights := s.refKlWeights.getD (List.replicate s.inputIds.length 0)
  mmTokenTypeIds := s.mmTokenTypeIds.getD (List.replicate s.inputIds.length 0)
  routedExperts := s.routedExperts.map fun r => (r.dtype, r.shape.tail, r.data)

/-- `length` entries from `offset` on. -/
def slice {α : Type} (offset length : Nat) (l : List α) : List α := (l.drop offset).take length

/-- The slice of a stream, or its fill. -/
def sliceStream {α : Type} (offset length : Nat) (fill : α) : Option (List α) → List α
  | some l => slice offset length l
  | none => List.replicate length fill

def sliceRows (np : Numpy) (offset length : Nat) (r : RoutedExperts) : String × List Nat × Bytes :=
  match routedExpertsRowSize np r with
  | .ok row => (r.dtype, r.shape.tail, slice (offset * row) (length * row) r.data)
  | .error _ => (r.dtype, r.shape.tail, [])

/-- The tokens of a micro-batch from `offset` on. -/
def window [Zero F] [One F] (np : Numpy) (m : MicroBatch F) (offset length : Nat) : Segment F where
  inputIds := slice offset length m.inputIds
  lossMask := slice offset length m.lossMask
  advantages := slice offset length m.advantages
  inferenceLogprobs := slice offset length m.inferenceLogprobs
  positionIds := slice offset length m.positionIds
  temperatures := slice offset length m.temperatures
  envNames := slice offset length m.envNames
  refLogprobs := sliceStream offset length 0 m.refLogprobs
  rlWeights := sliceStream offset length 1 m.rlWeights
  ceWeights := sliceStream offset length 0 m.ceWeights
  refKlWeights := sliceStream offset length 0 m.refKlWeights
  mmTokenTypeIds := sliceStream offset length 0 m.mmTokenTypeIds
  routedExperts := m.routedExperts.map (sliceRows np offset length)

def windows [Zero F] [One F] (np : Numpy) (m : MicroBatch F) : Nat → List Nat → List (Segment F)
  | _, [] => []
  | offset, n :: lengths => window np m offset n :: windows np m (offset + n) lengths

/-- `l[-1] -= n`. -/
def lastMinus (n : Nat) : List Nat → List Nat
  | [] => []
  | [k] => [k - n]
  | k :: k' :: l => k :: lastMinus n (k' :: l)

/-- A micro-batch cut at its sequence lengths, without its last `padding` tokens. -/
def segments [Zero F] [One F] (np : Numpy) (m : MicroBatch F) (padding : Nat) : List (Segment F) :=
  windows np m 0 (lastMinus padding m.sequenceLengths)

/-- The last `padding` tokens of a micro-batch are padding: masked, and of no weight in a stream there is. -/
structure PaddedBy [Zero F] [One F] (m : MicroBatch F) (padding : Nat) : Prop where
  length : padding ≤ m.inputIds.length
  lossMask : m.lossMask.drop (m.inputIds.length - padding) = List.replicate padding false
  advantages : m.advantages.drop (m.inputIds.length - padding) = List.replicate padding 0
  temperatures : m.temperatures.drop (m.inputIds.length - padding) = List.replicate padding 1
  rlWeights : ∀ l, m.rlWeights = some l → l.drop (m.inputIds.length - padding) = List.replicate padding 0
  ceWeights : ∀ l, m.ceWeights = some l → l.drop (m.inputIds.length - padding) = List.replicate padding 0
  refKlWeights : ∀ l, m.refKlWeights = some l → l.drop (m.inputIds.length - padding) = List.replicate padding 0

theorem lastMinus_lastPlus (n : Nat) : ∀ l : List Nat, lastMinus n (lastPlus n l) = l
  | [] => rfl
  | [k] => by rw [lastPlus, lastMinus, Nat.add_sub_cancel]
  | [k, k'] => by rw [lastPlus, lastPlus, lastMinus, lastMinus, Nat.add_sub_cancel]
  | k :: k' :: k'' :: l => by
    rw [lastPlus, lastPlus, lastMinus, ← lastPlus, lastMinus_lastPlus n (k' :: k'' :: l)]

/-- The number of tokens of the samples. -/
def lens (samples : List (MicroBatch F)) : Nat := (samples.map (·.inputIds.length)).sum

/-- **A slice of the samples' arrays, one after the other, is the array of one sample.** -/
theorem slice_flatMap {α : Type} {f : MicroBatch F → List α} {before after : List (MicroBatch F)} {s : MicroBatch F}
    {pad : List α} (k : Nat) (hf : ∀ t ∈ before ++ s :: after, (f t).length = t.inputIds.length * k) :
    slice (lens before * k) (s.inputIds.length * k) ((before ++ s :: after).flatMap f ++ pad) = f s := by
  have hbefore : (before.flatMap f).length = lens before * k := by
    rw [List.length_flatMap, List.map_congr_left fun t ht => hf t (List.mem_append_left _ ht), lens]
    induction before with
    | nil => simp
    | cons t before ih =>
      have ih := ih fun u hu => hf u (List.mem_cons_of_mem t hu)
      rw [List.map_cons, List.sum_cons, ih, List.map_cons, List.sum_cons, Nat.add_mul]
  rw [slice, List.flatMap_append, List.append_assoc, List.drop_left' hbefore, List.flatMap_cons, List.append_assoc,
    List.take_left' (hf s (by simp))]

theorem slice_array {α : Type} {f : MicroBatch F → List α} {before after : List (MicroBatch F)} {s : MicroBatch F}
    {pad : List α} (hf : ∀ t ∈ before ++ s :: after, (f t).length = t.inputIds.length) :
    slice (lens before) s.inputIds.length ((before ++ s :: after).flatMap f ++ pad) = f s := by
  have h : slice (lens before * 1) (s.inputIds.length * 1) ((before ++ s :: after).flatMap f ++ pad) = f s :=
    slice_flatMap 1 fun t ht => (hf t ht).trans (Nat.mul_one _).symm
  rwa [Nat.mul_one, Nat.mul_one] at h

theorem slice_stream {α : Type} {f : MicroBatch F → Option (List α)} {before after : List (MicroBatch F)}
    {s : MicroBatch F} {pad : List α} (fill : α)
    (hf : ∀ t ∈ before ++ s :: after, ∀ l, f t = some l → l.length = t.inputIds.length) :
    sliceStream (lens before) s.inputIds.length fill ((backfill f fill (before ++ s :: after)).map (· ++ pad)) =
      (f s).getD (List.replicate s.inputIds.length fill) := by
  unfold backfill
  split
  · exact slice_array fun t ht => getD_length (hf t ht)
  · rename_i hnone
    have hs : f s = none := by
      by_contra hs
      refine hnone (List.any_eq_true.2 ⟨s, by simp, ?_⟩)
      exact Option.isSome_iff_ne_none.2 hs
    rw [hs]
    rfl

/-- **A window over a sample of a packed micro-batch is the sample.** -/
theorem Packs.window [Zero F] [One F] {np : Numpy} {before after : List (MicroBatch F)} {s m : MicroBatch F}
    {padding : Nat} (hm : Packs np (before ++ s :: after) padding m) (hs : ∀ t ∈ before ++ s :: after, Aligned t) :
    Batch.window np m (lens before) s.inputIds.length = whole s := by
  have hrows : m.routedExperts.map (sliceRows np (lens before) s.inputIds.length) =
      s.routedExperts.map fun r => (r.dtype, r.shape.tail, r.data) := by
    have hrouted := hm.routedExperts
    generalize m.routedExperts = o at hrouted
    cases hrouted with
    | none h => rw [h s (by simp)]; rfl
    | some dtype tail row hne hrow h =>
      rw [(h s (by simp)).1, Option.map_some, Option.map_some, sliceRows, hrow]
      dsimp only
      rw [slice_flatMap row fun t ht => (h t ht).2]
      rfl
  simp only [Batch.window, whole, hrows, hm.inputIds, hm.lossMask, hm.advantages, hm.inferenceLogprobs, hm.positionIds,
    hm.temperatures, hm.envNames, hm.refLogprobs, hm.rlWeights, hm.ceWeights, hm.refKlWeights, hm.mmTokenTypeIds,
    slice_array fun _ _ => rfl, slice_array fun t ht => (hs t ht).lossMask, slice_array fun t ht => (hs t ht).advantages,
    slice_array fun t ht => (hs t ht).inferenceLogprobs, slice_array fun t ht => (hs t ht).positionIds,
    slice_array fun t ht => (hs t ht).temperatures, slice_array fun t ht => (hs t ht).envNames,
    slice_stream 0 fun t ht => (hs t ht).refLogprobs, slice_stream 1 fun t ht => (hs t ht).rlWeights,
    slice_stream 0 fun t ht => (hs t ht).ceWeights, slice_stream 0 fun t ht => (hs t ht).refKlWeights,
    slice_stream 0 fun t ht => (hs t ht).mmTokenTypeIds]

theorem Packs.windows [Zero F] [One F] {np : Numpy} {m : MicroBatch F} {padding : Nat} :
    ∀ (after before : List (MicroBatch F)), Packs np (before ++ after) padding m →
      (∀ t ∈ before ++ after, Aligned t) →
      Batch.windows np m (lens before) (after.map (·.inputIds.length)) = after.map whole
  | [], _, _, _ => rfl
  | s :: after, before, hm, hs => by
    have heq : before ++ s :: after = (before ++ [s]) ++ after := by rw [List.append_assoc, List.singleton_append]
    have ih := Packs.windows after (before ++ [s]) (heq ▸ hm) (heq ▸ hs)
    have hlens : lens (before ++ [s]) = lens before + s.inputIds.length := by simp [lens]
    rw [List.map_cons, List.map_cons, Batch.windows, hm.window hs, ← ih, hlens]

/-- **A packed micro-batch, cut at its sequence lengths, is the list of its samples.** -/
theorem Packs.segments [Zero F] [One F] {np : Numpy} {samples : List (MicroBatch F)} {m : MicroBatch F} {padding : Nat}
    (hm : Packs np samples padding m) (hs : ∀ t ∈ samples, Aligned t) :
    Batch.segments np m padding = samples.map whole := by
  rw [Batch.segments, hm.sequenceLengths, lastMinus_lastPlus]
  exact Packs.windows samples [] hm hs

/-- **What it was padded by is padding.** -/
theorem Packs.paddedBy [Zero F] [One F] {np : Numpy} {samples : List (MicroBatch F)} {m : MicroBatch F} {padding : Nat}
    (hm : Packs np samples padding m) (hs : ∀ t ∈ samples, Aligned t) : PaddedBy m padding := by
  have hids : m.inputIds.length = lens samples + padding := by
    rw [hm.inputIds, List.length_append, length_flatMap_of fun _ _ => rfl, List.length_replicate]
    rfl
  have array : ∀ {α : Type} {f : MicroBatch F → List α} {pad : List α}, (∀ s ∈ samples, (f s).length = s.inputIds.length) →
      (samples.flatMap f ++ pad).drop (m.inputIds.length - padding) = pad := fun hf => by
    rw [hids, Nat.add_sub_cancel]
    exact List.drop_left' (length_flatMap_of hf)
  have optional : ∀ {f : MicroBatch F → Option (List F)} {fill : F},
      (∀ s ∈ samples, ∀ l, f s = some l → l.length = s.inputIds.length) →
      ∀ l, (backfill f fill samples).map (· ++ List.replicate padding 0) = some l →
        l.drop (m.inputIds.length - padding) = List.replicate padding 0 := by
    intro f fill hf l hl
    obtain ⟨l', hl', rfl⟩ := Option.map_eq_some_iff.1 hl
    rw [backfill_eq_some hl']
    exact array fun s hs' => getD_length (hf s hs')
  exact {
    length := by omega
    lossMask := by rw [hm.lossMask]; exact array fun s h => (hs s h).lossMask
    advantages := by rw [hm.advantages]; exact array fun s h => (hs s h).advantages
    temperatures := by rw [hm.temperatures]; exact array fun s h => (hs s h).temperatures
    rlWeights := by rw [hm.rlWeights]; exact optional fun s h => (hs s h).rlWeights
    ceWeights := by rw [hm.ceWeights]; exact optional fun s h => (hs s h).ceWeights
    refKlWeights := by rw [hm.refKlWeights]; exact optional fun s h => (hs s h).refKlWeights }

end Batch
end Aether
