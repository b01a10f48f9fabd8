import AetherRl.BatchCut
import Mathlib.Algebra.BigOperators.Ring.List
import Mathlib.Algebra.Ring.Nat
/-!
# BatchImages — a sample with images is cut at a whole image

`_truncate_mm` recovers each image's tokens from its patches, and the cut it returns is the largest one within the length
that splits no image.
-/
namespace Aether
namespace Batch

open Checked

variable {F : Type}

/-- The kwargs of a sample of text runs and images: a grid row for each image, whose patches are a number of patches for
each of its placeholders, and the patches of all images stacked. -/
structure WellFormedImages (np : Numpy) (ids : List Nat) (kwargs : List (String × EncodedTensor)) (pieces : List Piece)
    (patches : List Nat) : Prop where
  types : ids = typesOf pieces
  grid : ∃ grid rows, kwargs.lookup "image_grid_thw" = some grid ∧ np.rows grid = .ok rows ∧ rows.map List.prod = patches
  patchesPerToken : ∃ ppt, 0 < ppt ∧ patches = (imageTokens pieces).map (ppt * ·)
  pixels : ∃ pixels patch, kwargs.lookup "pixel_values" = some pixels ∧ pixels.shape = patches.sum :: patch

/-- The images of a sample: none where it is text. -/
def ImagesOf (np : Numpy) (s : TrainingSample F) (pieces : List Piece) : Prop :=
  match s.mmTokenTypeIds, s.mmKwargs with
  | some ids, some kwargs => ∃ patches, WellFormedImages np ids kwargs pieces patches
  | _, _ => pieces = []

/-- The kwargs of the first images: one grid row for each, and as many rows of every other tensor as they have patches. -/
def keptKwargs (np : Numpy) (kwargs : List (String × EncodedTensor)) (patches : List Nat) (kept : Nat) :
    Option (List (String × EncodedTensor)) :=
  if kept = 0 then none
  else some (kwargs.map fun (k, v) =>
    (k, sliceEncoded np v (if k = "image_grid_thw" then kept else (patches.take kept).sum)))

/-! ## Tokens from patches -/

theorem tokensPerImage_of {ppt : Nat} (h : 0 < ppt) : ∀ ns : List Nat, tokensPerImage (ns.map (ppt * ·)) ppt = .ok ns
  | [] => rfl
  | n :: ns => by
    have ih := tokensPerImage_of h ns
    rw [tokensPerImage] at ih
    rw [tokensPerImage, List.map_cons, List.mapM_cons, if_neg h.ne', ok_bind, ih, ok_bind, Nat.mul_div_cancel_left n h]
    rfl

theorem placeholders_typesOf : ∀ pieces : List Piece, placeholders (typesOf pieces) = (imageTokens pieces).sum
  | [] => rfl
  | .text n :: pieces => by
    have htypes : typesOf (.text n :: pieces) = List.replicate n 0 ++ typesOf pieces := rfl
    rw [htypes, placeholders_append, placeholders_zeros, placeholders_typesOf pieces, Nat.zero_add]
    rfl
  | .image block hne hblock :: pieces => by
    have htypes : typesOf (.image block hne hblock :: pieces) = block ++ typesOf pieces := rfl
    rw [htypes, placeholders_append, placeholders_block hblock, placeholders_typesOf pieces]
    rfl

/-- A whole number of patches for each token is found again from the totals. -/
theorem tokensPerImage_whole {pieces : List Piece} {ppt : Nat} (h : 0 < ppt) :
    tokensPerImage ((imageTokens pieces).map (ppt * ·))
      (if placeholders (typesOf pieces) = 0 then 1
        else ((imageTokens pieces).map (ppt * ·)).sum / placeholders (typesOf pieces)) = .ok (imageTokens pieces) := by
  have hsum : ((imageTokens pieces).map (ppt * ·)).sum = ppt * (imageTokens pieces).sum := by
    simpa using List.sum_map_mul_left (imageTokens pieces) id ppt
  rw [placeholders_typesOf, hsum]
  by_cases hzero : (imageTokens pieces).sum = 0
  · have hnil : imageTokens pieces = [] := by
      rw [List.eq_nil_iff_forall_not_mem]
      intro n hn
      exact absurd (List.sum_eq_zero_iff_forall_eq_nat.1 hzero n hn) (imageTokens_pos n hn).ne'
    rw [hnil]
    rfl
  · rw [if_neg hzero, Nat.mul_div_cancel _ (Nat.pos_of_ne_zero hzero), tokensPerImage_of h]

/-- **A sample of whole images is cut at the largest place that splits none of them.** -/
theorem truncateMm_whole {np : Numpy} {ids : List Nat} {kwargs : List (String × EncodedTensor)} {pieces : List Piece}
    {patches : List Nat} (h : WellFormedImages np ids kwargs pieces patches) (seqLen : Nat) :
    truncateMm np ids kwargs seqLen =
      .ok ((wholeCut seqLen pieces).1, keptKwargs np kwargs patches (wholeCut seqLen pieces).2) := by
  obtain ⟨grid, rows, hgrid, hrows, hpatches⟩ := h.grid
  obtain ⟨ppt, hppt, htokens⟩ := h.patchesPerToken
  obtain ⟨pixels, patch, hpixels, hshape⟩ := h.pixels
  have hdim : firstDim pixels = .ok patches.sum := by rw [firstDim, hshape]
  have htensorGrid : tensor kwargs "image_grid_thw" = .ok grid := by rw [tensor, hgrid]
  have htensorPixels : tensor kwargs "pixel_values" = .ok pixels := by rw [tensor, hpixels]
  have hper := @tokensPerImage_whole pieces _ hppt
  rw [← htokens] at hper
  have hkeep := keepImages_whole pieces seqLen 0 0
  have hcut := placeholderAfter_whole seqLen pieces seqLen 0
  rw [Nat.zero_add, Nat.zero_add, Nat.zero_add] at hkeep
  rw [Nat.zero_add, Nat.zero_add] at hcut
  rw [truncateMm, htensorGrid, ok_bind, hrows, ok_bind]
  dsimp only
  rw [htensorPixels, ok_bind, hdim, ok_bind, h.types, hpatches, hper, ok_bind, cutMm]
  dsimp only
  rw [hkeep]
  dsimp only
  rw [hcut]
  rfl

/-! ## Samples of images -/

/-- Arrays of bytes, with the rows of a matrix. -/
def byteArrays : Numpy where
  itemsize _ := 1
  rows t := match t.shape with
    | [n, k] =>
      if t.data.length = n * k then
        .ok ((List.range n).map fun i => ((t.data.drop (i * k)).take k).map UInt8.toNat)
      else .error (.value "cannot reshape")
    | _ => .error (.value "cannot reshape")

/-- Images of one patch for each placeholder, one patch wide. -/
def imageKwargs (pieces : List Piece) : List (String × EncodedTensor) :=
  [("pixel_values", ⟨"uint8", [(imageTokens pieces).sum, 1],
      (imageTokens pieces).flatMap fun n => List.replicate n (UInt8.ofNat n)⟩),
    ("image_grid_thw", ⟨"uint8", [(imageTokens pieces).length, 3],
      (imageTokens pieces).flatMap fun n => [1, UInt8.ofNat n, 1]⟩)]

/-- A sample of text and images, none of its tokens trained. -/
def imageSample (pieces : List Piece) : TrainingSample Int where
  tokenIds := (List.range (typesOf pieces).length).map Int.ofNat
  mask := List.replicate (typesOf pieces).length false
  logprobs := List.replicate (typesOf pieces).length 0
  temperatures := List.replicate (typesOf pieces).length 1
  envName := "test-env"
  refLogprobs := none
  mmKwargs := some (imageKwargs pieces)
  routedExperts := none
  mmTokenTypeIds := some (typesOf pieces)
  rlWeights := none
  ceWeights := none
  refKlWeights := none
  advantages := some (List.replicate (typesOf pieces).length 0)

theorem imageSample_acceptable (np : Numpy) (pieces : List Piece) : Acceptable np (imageSample pieces) := by
  refine ⟨?_, ?_, ?_, ?_⟩
  · constructor <;> simp [imageSample]
  all_goals simp [imageSample]

/-! ## The rows that are left -/

/-- A tensor that stacks rows of the images one image after the other. -/
def Stacks (np : Numpy) (t : EncodedTensor) (rows : List Nat) (images : List Bytes) : Prop :=
  ∃ row, t.shape = rows.sum :: row ∧ images.map List.length = rows.map (· * row.prod * np.itemsize t.dtype) ∧
    t.data = images.flatten

/-- The rows of each image in a tensor of the kwargs. -/
def rowsOf (patches : List Nat) (key : String) : List Nat :=
  if key = "image_grid_thw" then List.replicate patches.length 1 else patches

/-- **The first rows of a stacked tensor are the rows of the first images.** -/
theorem sliceEncoded_stacks {np : Numpy} {t : EncodedTensor} {rows : List Nat} {images : List Bytes}
    (h : Stacks np t rows images) (kept : Nat) :
    Stacks np (sliceEncoded np t (rows.take kept).sum) (rows.take kept) (images.take kept) := by
  obtain ⟨row, hshape, hlengths, hdata⟩ := h
  have htake : (images.take kept).map List.length = (rows.take kept).map (· * row.prod * np.itemsize t.dtype) := by
    rw [List.map_take, hlengths, List.map_take]
  have hlength : (images.take kept).flatten.length = (rows.take kept).sum * row.prod * np.itemsize t.dtype := by
    have hmul : ∀ ns : List Nat, (ns.map (· * row.prod * np.itemsize t.dtype)).sum =
        ns.sum * row.prod * np.itemsize t.dtype := by
      intro ns
      induction ns with
      | nil => simp
      | cons n ns ih => rw [List.map_cons, List.sum_cons, List.sum_cons, ih, Nat.add_mul, Nat.add_mul]
    rw [List.length_flatten, htake, hmul]
  refine ⟨row, ?_, htake, ?_⟩
  · rw [sliceEncoded, hshape]
    rfl
  · have hsplit : t.data = (images.take kept).flatten ++ (images.drop kept).flatten := by
      rw [hdata, ← List.flatten_append, List.take_append_drop]
    rw [sliceEncoded, hshape]
    dsimp only [List.tail_cons]
    rw [hsplit]
    exact List.take_left' hlength

/-- What is left of one tensor of the kwargs: the rows of the first images. -/
def SlicedTo (np : Numpy) (patches : List Nat) (kept : Nat) (before after : String × EncodedTensor) : Prop :=
  after.1 = before.1 ∧ after.2.dtype = before.2.dtype ∧ ∀ images, Stacks np before.2 (rowsOf patches before.1) images →
    Stacks np after.2 ((rowsOf patches before.1).take kept) (images.take kept)

theorem keptKwargs_sliced {np : Numpy} {kwargs : List (String × EncodedTensor)} {patches : List Nat} {kept : Nat}
    (hkept : kept ≤ patches.length) (hpos : 0 < kept) : ∃ rest, keptKwargs np kwargs patches kept = some rest ∧
      List.Forall₂ (SlicedTo np patches kept) kwargs rest := by
  refine ⟨_, if_neg hpos.ne', List.forall₂_map_right_iff.2 (List.forall₂_same.2 ?_)⟩
  rintro ⟨k, v⟩ -
  refine ⟨rfl, rfl, fun images h => ?_⟩
  have hsum : (if k = "image_grid_thw" then kept else (patches.take kept).sum) =
      ((rowsOf patches k).take kept).sum := by
    unfold rowsOf
    split
    · rw [List.take_replicate, List.sum_replicate_nat, Nat.min_eq_left hkept, Nat.mul_one]
    · rfl
  change Stacks np (sliceEncoded np v (if k = "image_grid_thw" then kept else (patches.take kept).sum)) _ _
  rw [hsum]
  exact sliceEncoded_stacks h kept

/-! ## Every array at one place -/

/-- A prepared sample whose arrays are the first tokens of the sample's. -/
structure CutAt [Zero F] [DecidableEq F] (np : Numpy) (s : TrainingSample F) (cut : Nat) (m : MicroBatch F) : Prop where
  inputIds : m.inputIds = s.tokenIds.take cut
  lossMask : m.lossMask = s.mask.take cut
  advantages : ∃ advantages, preparedAdvantages s = .ok advantages ∧ m.advantages = advantages.take cut
  inferenceLogprobs : m.inferenceLogprobs = s.logprobs.take cut
  positionIds : m.positionIds = List.range cut
  temperatures : m.temperatures = s.temperatures.take cut
  envNames : m.envNames = List.replicate cut s.envName
  refLogprobs : m.refLogprobs = s.refLogprobs.map (·.take cut)
  rlWeights : m.rlWeights = s.rlWeights.map (·.take cut)
  ceWeights : m.ceWeights = s.ceWeights.map (·.take cut)
  refKlWeights : m.refKlWeights = s.refKlWeights.map (·.take cut)
  mmTokenTypeIds : m.mmTokenTypeIds = s.mmTokenTypeIds.map (·.take cut)
  routedExperts : cutRoutedExperts np cut s.routedExperts = .ok m.routedExperts
  seqLens : m.seqLens = [cut]

theorem finish_cutAt [Zero F] [DecidableEq F] {np : Numpy} {s : TrainingSample F} {advantages : List F} {cut : Nat}
    {routed : Option RoutedExperts} (kwargs : Option (List (String × EncodedTensor)))
    (hadvantages : preparedAdvantages s = .ok advantages) (hcut : cut ≤ s.tokenIds.length)
    (hrouted : cutRoutedExperts np cut s.routedExperts = .ok routed) :
    CutAt np s cut (finish (cutTo (ofSample s advantages) cut routed kwargs)) where
  inputIds := rfl
  lossMask := rfl
  advantages := ⟨advantages, hadvantages, rfl⟩
  inferenceLogprobs := rfl
  positionIds := by
    change (List.range s.tokenIds.length).take cut = _
    rw [List.take_range, Nat.min_eq_left hcut]
  temperatures := rfl
  envNames := by
    change (List.replicate s.tokenIds.length s.envName).take cut = _
    rw [List.take_replicate, Nat.min_eq_left hcut]
  refLogprobs := rfl
  rlWeights := rfl
  ceWeights := rfl
  refKlWeights := rfl
  mmTokenTypeIds := rfl
  routedExperts := hrouted
  seqLens := by
    change [(s.tokenIds.take cut).length] = _
    rw [List.length_take, Nat.min_eq_left hcut]

/-- **Multimodal truncation**: the cut is the largest one within the length that is inside no image, the images kept are
those that end before it, every tensor keeps the rows of these images, and every array is cut at this place. -/
theorem truncation_keeps_whole_images [Zero F] [DecidableEq F] {np : Numpy} {ids : List Nat}
    {kwargs : List (String × EncodedTensor)} {pieces : List Piece} {patches : List Nat}
    (h : WellFormedImages np ids kwargs pieces patches) (seqLen : Nat) :
    ∃ cut kept rest, truncateMm np ids kwargs seqLen = .ok (cut, rest) ∧
      cut ≤ seqLen ∧ SplitsNone (spans 0 pieces) cut ∧
      (∀ c, c ≤ seqLen → SplitsNone (spans 0 pieces) c → c ≤ cut) ∧
      (kept ≤ (spans 0 pieces).length ∧ ∀ i s, (spans 0 pieces)[i]? = some s → (i < kept ↔ s.2 ≤ cut)) ∧
      (kept = 0 → rest = none) ∧
      (0 < kept → ∃ left, rest = some left ∧ List.Forall₂ (SlicedTo np patches kept) kwargs left) ∧
      ∀ s : TrainingSample F, Acceptable np s → s.envName ≠ "all" → s.mmTokenTypeIds = some ids →
        s.mmKwargs = some kwargs → seqLen < s.tokenIds.length →
          ∃ m, prepareSample np s seqLen = .ok m ∧ CutAt np s cut m ∧ m.mmKwargs = rest := by
  have htruncate := truncateMm_whole h seqLen
  have hkept : (wholeCut seqLen pieces).2 ≤ patches.length := by
    obtain ⟨ppt, -, htokens⟩ := h.patchesPerToken
    rw [htokens, List.length_map]
    exact kept_le pieces seqLen
  refine ⟨_, (wholeCut seqLen pieces).2, _, htruncate, wholeCut_le pieces seqLen, ?_, ?_, ⟨?_, ?_⟩, ?_, ?_, ?_⟩
  · have hsplits := wholeCut_splitsNone pieces seqLen 0
    rwa [Nat.zero_add] at hsplits
  · intro c hle hsplits
    exact le_wholeCut pieces seqLen 0 c hle (by rwa [Nat.zero_add])
  · rw [length_spans]
    exact kept_le pieces seqLen
  · intro i s hs
    have hends := wholeCut_kept pieces seqLen 0 i s hs
    rwa [Nat.zero_add] at hends
  · exact fun hzero => if_pos hzero
  · exact keptKwargs_sliced hkept
  · intro s hacc henv hids hkwargs hlt
    obtain ⟨advantages, hadvantages, -, hcuts⟩ := prepareSample_eq hacc henv seqLen
    obtain ⟨routed, hrouted, hprepared⟩ := (hcuts hlt).2 _ _ (by rw [hids, hkwargs]; exact htruncate)
    have hle : (wholeCut seqLen pieces).1 ≤ s.tokenIds.length := (wholeCut_le pieces seqLen).trans hlt.le
    exact ⟨_, hprepared, finish_cutAt _ hadvantages hle hrouted, rfl⟩

/-- Two images of two tokens in seven: a cut at five is moved back to the second image. -/
theorem truncation_keeps_whole_images_sample : ∃ m, prepareSample byteArrays (imageSample
    [.text 1, .image [1, 1] (by decide) (by decide), .text 1, .image [1, 1] (by decide) (by decide), .text 1]) 5 = .ok m ∧
      m.inputIds = [0, 1, 2, 3] ∧ m.mmKwargs =
        some [("pixel_values", ⟨"uint8", [2, 1], [2, 2]⟩), ("image_grid_thw", ⟨"uint8", [1, 3], [1, 2, 1]⟩)] := by
  let pieces : List Piece :=
    [.text 1, .image [1, 1] (by decide) (by decide), .text 1, .image [1, 1] (by decide) (by decide), .text 1]
  have hwell : WellFormedImages byteArrays (typesOf pieces) (imageKwargs pieces) pieces [2, 2] :=
    ⟨rfl, ⟨_, [[1, 2, 1], [1, 2, 1]], rfl, by decide +kernel, rfl⟩, ⟨1, by decide, by decide⟩, ⟨_, [1], rfl, rfl⟩⟩
  obtain ⟨cut, kept, rest, htruncate, -, -, -, -, -, -, hprepare⟩ :=
    truncation_keeps_whole_images (F := Int) hwell 5
  obtain ⟨m, hm, hcut, hkwargs⟩ :=
    hprepare (imageSample pieces) (imageSample_acceptable byteArrays pieces) (by decide) rfl rfl (by decide)
  have heval : truncateMm byteArrays (typesOf pieces) (imageKwargs pieces) 5 =
      .ok (4, some [("pixel_values", ⟨"uint8", [2, 1], [2, 2]⟩), ("image_grid_thw", ⟨"uint8", [1, 3], [1, 2, 1]⟩)]) := by
    decide +kernel
  rw [heval] at htruncate
  cases htruncate
  exact ⟨m, hm, hcut.inputIds, hkwargs⟩

/-- Where a sample with these images is cut, if anywhere. -/
theorem cutPoint_whole {np : Numpy} {s : TrainingSample F} {pieces : List Piece} (h : ImagesOf np s pieces)
    (seqLen : Nat) : ∃ kwargs, cutPoint np seqLen s.mmTokenTypeIds s.mmKwargs = .ok ((wholeCut seqLen pieces).1, kwargs) := by
  unfold ImagesOf at h
  unfold cutPoint
  cases hids : s.mmTokenTypeIds with
  | none =>
    rw [hids] at h
    obtain rfl : pieces = [] := h
    exact ⟨_, rfl⟩
  | some ids =>
    rw [hids] at h
    cases hkwargs : s.mmKwargs with
    | none =>
      rw [hkwargs] at h
      obtain rfl : pieces = [] := h
      exact ⟨_, rfl⟩
    | some kwargs =>
      rw [hkwargs] at h
      obtain ⟨patches, h⟩ := h
      exact ⟨_, truncateMm_whole h seqLen⟩

end Batch
end Aether
