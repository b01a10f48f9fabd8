import AetherRl.BatchImages
/-!
# BatchNonempty — which samples are prepared with a token

`_truncate_mm` raises where the kwargs have no grid, no stacked patches, or fewer patches than placeholders, and it cuts
at the first token where that token is a placeholder and the first image that has tokens does not fit.  Every other
sample keeps a token.  Where the kwargs are those of the sample's images, what is left is an image that comes first and
is longer than the length.
-/
namespace Aether
namespace Batch

open Checked

variable {F : Type}

/-! ## What a cut reads -/

/-- What `_truncate_mm` reads of the kwargs: the patches of each image, and of all of them. -/
structure ReadsImages (np : Numpy) (kwargs : List (String × EncodedTensor)) (patches : List Nat) (totalPatches : Nat) :
    Prop where
  grid : ∃ grid rows, kwargs.lookup "image_grid_thw" = some grid ∧ np.rows grid = .ok rows ∧ rows.map List.prod = patches
  pixels : ∃ pixels patch, kwargs.lookup "pixel_values" = some pixels ∧ pixels.shape = totalPatches :: patch

/-- `total_patches // total_tokens if total_tokens else 1` -/
def patchesPerToken (ids : List Nat) (totalPatches : Nat) : Nat :=
  if placeholders ids = 0 then 1 else totalPatches / placeholders ids

/-- The first token is a placeholder, and there are fewer placeholders within the length than the first image that has
tokens asks for, if any has. -/
def OpensTooLong (seqLen : Nat) (ids patches : List Nat) (totalPatches : Nat) : Prop :=
  (∃ t ∈ ids.head?, t ≠ 0) ∧
    ∀ n ∈ (patches.map (· / patchesPerToken ids totalPatches)).find? (· ≠ 0), placeholders (ids.take seqLen) < n

/-- The kwargs a cut is made with can be read, their patches are enough for the placeholders, and no image opens the
sample that is too long for it. -/
def CutsInside (np : Numpy) (seqLen : Nat) : Option (List Nat) → Option (List (String × EncodedTensor)) → Prop
  | some ids, some kwargs => ∃ patches totalPatches, ReadsImages np kwargs patches totalPatches ∧
      (patches = [] ∨ placeholders ids ≤ totalPatches) ∧ ¬ OpensTooLong seqLen ids patches totalPatches
  | _, _ => True

/-! ## Where a cut is made -/

theorem le_keepImages {surviving : Nat} : ∀ (ns : List Nat) (kept acc : Nat),
    acc ≤ (keepImages surviving ns (kept, acc)).2
  | [], kept, acc => le_rfl
  | n :: ns, kept, acc => by
    rw [keepImages]
    split
    · exact le_rfl
    · exact (Nat.le_add_right acc n).trans (le_keepImages ns (kept + 1) (acc + n))

/-- **No token of an image is kept exactly where the first image with tokens does not fit**, or none has any. -/
theorem keepImages_eq_zero {surviving : Nat} : ∀ (ns : List Nat) (kept : Nat),
    (keepImages surviving ns (kept, 0)).2 = 0 ↔ ∀ n ∈ ns.find? (· ≠ 0), surviving < n
  | [], kept => ⟨fun _ n hn => absurd hn (Option.not_mem_none n), fun _ => rfl⟩
  | 0 :: ns, kept => by
    rw [keepImages, if_neg (Nat.not_lt_zero surviving), List.find?_cons_of_neg (by simp)]
    exact keepImages_eq_zero ns (kept + 1)
  | (n + 1) :: ns, kept => by
    rw [keepImages, Nat.zero_add, List.find?_cons_of_pos (by simp)]
    constructor
    · intro hzero m hm
      obtain rfl : n + 1 = m := Option.some.inj hm
      by_contra hle
      rw [if_neg hle] at hzero
      have hge := @le_keepImages surviving ns (kept + 1) (n + 1)
      omega
    · exact fun h => by rw [if_pos (h _ rfl)]

theorem le_placeholderAfter {o : Nat} : ∀ (ids : List Nat) (n i : Nat), min o i ≤ placeholderAfter o n ids i
  | [], n, i => min_le_left o i
  | 0 :: ids, n, i => by
    have ih := @le_placeholderAfter o ids n (i + 1)
    rw [placeholderAfter]
    omega
  | (t + 1) :: ids, 0, i => min_le_right o i
  | (t + 1) :: ids, n + 1, i => by
    have ih := @le_placeholderAfter o ids n (i + 1)
    rw [placeholderAfter]
    omega

theorem placeholderAfter_eq_zero {seqLen : Nat} (hlen : 0 < seqLen) (n : Nat) (ids : List Nat) :
    placeholderAfter seqLen n ids 0 = 0 ↔ n = 0 ∧ ∃ t ∈ ids.head?, t ≠ 0 := by
  cases ids with
  | nil =>
    constructor
    · exact fun h => absurd h hlen.ne'
    · rintro ⟨-, t, ht, -⟩
      cases ht
  | cons t ids =>
    cases t with
    | zero =>
      have hge := @le_placeholderAfter seqLen ids n (0 + 1)
      rw [placeholderAfter]
      constructor
      · intro hzero
        omega
      · rintro ⟨-, t, ht, hne⟩
        cases ht
        exact absurd rfl hne
    | succ t =>
      cases n with
      | zero => exact ⟨fun _ => ⟨rfl, t + 1, rfl, t.succ_ne_zero⟩, fun _ => rfl⟩
      | succ n =>
        have hge := @le_placeholderAfter seqLen ids n (0 + 1)
        rw [placeholderAfter]
        constructor
        · intro hzero
          omega
        · exact fun h => absurd h.1 n.succ_ne_zero

theorem placeholders_take_pos {seqLen : Nat} (hlen : 0 < seqLen) {ids : List Nat} (h : ∃ t ∈ ids.head?, t ≠ 0) :
    0 < placeholders (ids.take seqLen) := by
  obtain ⟨t, ht, hne⟩ := h
  obtain ⟨ts, rfl⟩ := List.head?_eq_some_iff.1 ht
  obtain ⟨k, rfl⟩ := Nat.exists_eq_succ_of_ne_zero hlen.ne'
  rw [List.take_succ_cons, placeholders, List.countP_cons_of_pos (by simpa using hne)]
  exact Nat.succ_pos _

/-- **A cut is at the first token exactly where that is a placeholder and the first image with tokens does not fit.** -/
theorem cutMm_eq_zero {np : Numpy} {ids : List Nat} {kwargs : List (String × EncodedTensor)} {seqLen : Nat}
    {patches tokens : List Nat} (hlen : 0 < seqLen) : (cutMm np ids kwargs seqLen patches tokens).1 = 0 ↔
      (∃ t ∈ ids.head?, t ≠ 0) ∧ ∀ n ∈ tokens.find? (· ≠ 0), placeholders (ids.take seqLen) < n := by
  rw [← keepImages_eq_zero tokens 0, cutMm]
  dsimp only
  split
  · rename_i hwhole
    rw [hwhole]
    exact ⟨fun h => absurd h hlen.ne', fun h => absurd h.2 (placeholders_take_pos hlen h.1).ne'⟩
  · rw [placeholderAfter_eq_zero hlen]
    exact and_comm

theorem tokensPerImage_eq_ok {patches tokens : List Nat} {ppt : Nat} :
    tokensPerImage patches ppt = .ok tokens ↔ (patches = [] ∨ ppt ≠ 0) ∧ tokens = patches.map (· / ppt) := by
  induction patches generalizing tokens with
  | nil =>
    rw [tokensPerImage, List.mapM_nil, pure_eq_ok]
    exact ⟨fun h => ⟨.inl rfl, h.symm⟩, fun h => h.2.symm⟩
  | cons p patches ih =>
    rw [tokensPerImage] at ih
    rw [tokensPerImage, List.mapM_cons, or_iff_right (List.cons_ne_nil p patches), List.map_cons]
    by_cases hzero : ppt = 0
    · rw [if_pos hzero]
      exact ⟨(fun h => by cases h), fun h => absurd hzero h.1⟩
    · rw [if_neg hzero, ok_bind, bind_eq_ok]
      simp only [ih, pure_eq_ok]
      constructor
      · rintro ⟨_, ⟨-, h⟩, h'⟩
        exact ⟨hzero, by rw [← h', h]⟩
      · rintro ⟨-, h⟩
        exact ⟨_, ⟨.inr hzero, rfl⟩, h.symm⟩

theorem patchesPerToken_ne_zero {ids : List Nat} {totalPatches : Nat} :
    patchesPerToken ids totalPatches ≠ 0 ↔ placeholders ids ≤ totalPatches := by
  rw [patchesPerToken]
  split
  · rename_i hzero
    rw [hzero]
    exact ⟨fun _ => Nat.zero_le _, fun _ => Nat.one_ne_zero⟩
  · rename_i hne
    rw [Nat.div_ne_zero_iff]
    exact ⟨fun h => h.2, fun h => ⟨hne, h⟩⟩

/-- **A multimodal cut is made exactly where the kwargs can be read and have patches enough**, from their patches. -/
theorem truncateMm_eq_ok {np : Numpy} {ids : List Nat} {kwargs : List (String × EncodedTensor)} {seqLen : Nat}
    {p : Nat × Option (List (String × EncodedTensor))} : truncateMm np ids kwargs seqLen = .ok p ↔
      ∃ patches totalPatches, ReadsImages np kwargs patches totalPatches ∧
        (patches = [] ∨ placeholders ids ≤ totalPatches) ∧
        p = cutMm np ids kwargs seqLen patches (patches.map (· / patchesPerToken ids totalPatches)) := by
  have htensor : ∀ {key : String} {t : EncodedTensor}, tensor kwargs key = .ok t ↔ kwargs.lookup key = some t := by
    intro key t
    rw [tensor]
    cases kwargs.lookup key <;> simp
  have hdim : ∀ {t : EncodedTensor} {n : Nat}, firstDim t = .ok n ↔ ∃ patch, t.shape = n :: patch := by
    intro t n
    rw [firstDim]
    cases t.shape <;> simp
  simp only [truncateMm, bind_eq_ok, htensor, hdim, Except.ok.injEq]
  constructor
  · rintro ⟨grid, hgrid, rows, hrows, pixels, hpixels, total, ⟨patch, hshape⟩, tokens, htokens, rfl⟩
    obtain ⟨henough, rfl⟩ := tokensPerImage_eq_ok.1 htokens
    exact ⟨_, total, ⟨⟨grid, rows, hgrid, hrows, rfl⟩, ⟨pixels, patch, hpixels, hshape⟩⟩,
      henough.imp_right patchesPerToken_ne_zero.1, rfl⟩
  · rintro ⟨_, total, ⟨⟨grid, rows, hgrid, hrows, rfl⟩, ⟨pixels, patch, hpixels, hshape⟩⟩, henough, rfl⟩
    exact ⟨grid, hgrid, rows, hrows, pixels, hpixels, total, ⟨patch, hshape⟩, _,
      tokensPerImage_eq_ok.2 ⟨henough.imp_right patchesPerToken_ne_zero.2, rfl⟩, rfl⟩

/-- **A cut leaves a token exactly where it is made inside the sample.** -/
theorem cutPoint_pos {np : Numpy} {seqLen : Nat} (hlen : 0 < seqLen) (ids : Option (List Nat))
    (kwargs : Option (List (String × EncodedTensor))) :
    (∃ p, cutPoint np seqLen ids kwargs = .ok p ∧ p.1 ≠ 0) ↔ CutsInside np seqLen ids kwargs := by
  match ids, kwargs with
  | some ids, some kwargs =>
    constructor
    · rintro ⟨p, hp, hne⟩
      obtain ⟨patches, total, hreads, henough, rfl⟩ := truncateMm_eq_ok.1 hp
      exact ⟨patches, total, hreads, henough, fun hopens => hne ((cutMm_eq_zero hlen).2 hopens)⟩
    · rintro ⟨patches, total, hreads, henough, hopens⟩
      exact ⟨_, truncateMm_eq_ok.2 ⟨patches, total, hreads, henough, rfl⟩,
        fun hzero => hopens ((cutMm_eq_zero hlen).1 hzero)⟩
  | some _, none => exact ⟨fun _ => trivial, fun _ => ⟨_, rfl, hlen.ne'⟩⟩
  | none, _ => exact ⟨fun _ => trivial, fun _ => ⟨_, rfl, hlen.ne'⟩⟩

/-! ## Samples of whole images -/

/-- The first image starts the sample and is longer than the length. -/
def StartsTooLong (seqLen : Nat) (pieces : List Piece) : Prop := ∃ b, (0, b) ∈ spans 0 pieces ∧ seqLen < b

theorem spans_le : ∀ {pieces : List Piece} {a : Nat} {s : Nat × Nat}, s ∈ spans a pieces →
    s.2 ≤ a + (typesOf pieces).length
  | [], _, _, h => absurd h List.not_mem_nil
  | .text n :: pieces, a, s, h => by
    have htypes : typesOf (.text n :: pieces) = List.replicate n 0 ++ typesOf pieces := rfl
    have ih := @spans_le pieces _ _ h
    rw [htypes, List.length_append, List.length_replicate]
    omega
  | .image block hne hblock :: pieces, a, s, h => by
    have htypes : typesOf (.image block hne hblock :: pieces) = block ++ typesOf pieces := rfl
    rw [htypes, List.length_append]
    rcases List.mem_cons.1 h with rfl | h
    · dsimp only
      omega
    · have ih := @spans_le pieces _ _ h
      omega

/-- **The largest whole cut is at the first token exactly where the first image starts there and does not fit.** -/
theorem wholeCut_eq_zero {len : Nat} (hlen : 0 < len) : ∀ (pieces : List Piece) (a : Nat),
    (wholeCut len pieces).1 = 0 ↔ ∃ b, (a, b) ∈ spans a pieces ∧ a + len < b
  | [], a => ⟨fun h => absurd h hlen.ne', fun ⟨_, h, _⟩ => absurd h List.not_mem_nil⟩
  | .text 0 :: pieces, a => by
    have ih := wholeCut_eq_zero hlen pieces a
    rw [wholeCut, if_neg (Nat.not_le.2 hlen), Nat.sub_zero, Nat.zero_add]
    exact ih
  | .text (n + 1) :: pieces, a => by
    have hlater : ∀ b, (a, b) ∉ spans a (.text (n + 1) :: pieces) := by
      intro b h
      have hle := (@le_of_mem_spans pieces _ _ h).1
      dsimp only at hle
      omega
    rw [wholeCut]
    constructor
    · intro hzero
      split at hzero
      · exact absurd hzero hlen.ne'
      · dsimp only at hzero
        omega
    · rintro ⟨b, h, -⟩
      exact absurd h (hlater b)
  | .image block hne hblock :: pieces, a => by
    have hpos : 0 < block.length := List.length_pos_iff.2 hne
    rw [wholeCut]
    constructor
    · intro hzero
      split at hzero
      · dsimp only at hzero
        omega
      · exact ⟨a + block.length, List.mem_cons_self, by omega⟩
    · rintro ⟨b, h, hlong⟩
      rcases List.mem_cons.1 h with hb | h
      · cases hb
        rw [if_neg (by omega)]
      · have hle := (@le_of_mem_spans pieces _ _ h).1
        dsimp only at hle
        omega

/-- With the kwargs of the sample's images, a cut fails to leave a token for one reason only. -/
theorem cutsInside_iff {np : Numpy} {s : TrainingSample F} {pieces : List Piece} (h : ImagesOf np s pieces)
    {seqLen : Nat} (hlen : 0 < seqLen) :
    CutsInside np seqLen s.mmTokenTypeIds s.mmKwargs ↔ ¬ StartsTooLong seqLen pieces := by
  obtain ⟨kwargs, hcut⟩ := cutPoint_whole h seqLen
  have hzero := wholeCut_eq_zero hlen pieces 0
  rw [Nat.zero_add] at hzero
  rw [← cutPoint_pos hlen, hcut, StartsTooLong, ← hzero]
  exact ⟨fun ⟨p, hp, hne⟩ => by cases hp; exact hne, fun hne => ⟨_, rfl, hne⟩⟩

/-! ## Prepared samples -/

theorem not_startsTooLong [Zero F] [DecidableEq F] {np : Numpy} {s : TrainingSample F} {pieces : List Piece}
    (hadmitted : Admitted s) (h : ImagesOf np s pieces) {seqLen : Nat} (hle : s.tokenIds.length ≤ seqLen) :
    ¬ StartsTooLong seqLen pieces := by
  rintro ⟨b, hb, hlong⟩
  have hend := spans_le hb
  unfold ImagesOf at h
  split at h
  · rename_i ids kwargs hids hkwargs
    obtain ⟨patches, h⟩ := h
    have hlength := hadmitted.mmTokenTypeIds ids hids
    rw [h.types] at hlength
    dsimp only at hend
    omega
  · rw [h] at hb
    exact absurd hb List.not_mem_nil

/-- **A sample is prepared as a sequence with a token exactly where it is admitted and fits, or can be cut after its
first token**; where its kwargs are those of its images, exactly where no image longer than the length comes first. -/
theorem prepared_nonempty_iff [Zero F] [DecidableEq F] {np : Numpy} {s : TrainingSample F} (hlaid : Laid np s)
    (hne : s.tokenIds ≠ []) {seqLen : Nat} (hlen : 1 ≤ seqLen) :
    ((∃ m, prepareSample np s seqLen = .ok m ∧ m.inputIds ≠ [] ∧ ∀ n ∈ m.seqLens, 0 < n) ↔
      Admitted s ∧ (s.tokenIds.length ≤ seqLen ∨ CutsInside np seqLen s.mmTokenTypeIds s.mmKwargs)) ∧
    ∀ pieces, Admitted s → ImagesOf np s pieces →
      (s.tokenIds.length ≤ seqLen ∨ CutsInside np seqLen s.mmTokenTypeIds s.mmKwargs ↔
        ¬ StartsTooLong seqLen pieces) := by
  have hpositive : ∀ {m : MicroBatch F}, m.inputIds ≠ [] → ∀ n ∈ (finish m).seqLens, 0 < n := by
    intro m hm n hn
    rw [List.mem_singleton.1 hn]
    exact List.length_pos_iff.2 hm
  constructor
  · by_cases hadmitted : Admitted s
    · obtain ⟨advantages, -, hwhole, hcuts⟩ := prepareSample_eq (hadmitted.acceptable hlaid) hadmitted.envName seqLen
      rw [and_iff_right hadmitted]
      by_cases hle : s.tokenIds.length ≤ seqLen
      · exact ⟨fun _ => .inl hle, fun _ => ⟨_, hwhole hle, hne, hpositive hne⟩⟩
      obtain ⟨hraises, hprepares⟩ := hcuts (Nat.lt_of_not_le hle)
      rw [or_iff_right hle, ← cutPoint_pos hlen]
      constructor
      · rintro ⟨m, hm, hm', -⟩
        cases hcut : cutPoint np seqLen s.mmTokenTypeIds s.mmKwargs with
        | error e =>
          rw [hraises e hcut] at hm
          cases hm
        | ok p =>
          obtain ⟨routed, -, hprepared⟩ := hprepares p.1 p.2 hcut
          rw [hprepared] at hm
          cases hm
          refine ⟨p, rfl, fun hzero => hm' ?_⟩
          change s.tokenIds.take p.1 = []
          rw [hzero, List.take_zero]
      · rintro ⟨p, hcut, hp⟩
        obtain ⟨routed, -, hprepared⟩ := hprepares p.1 p.2 hcut
        have htokens : (cutTo (ofSample s advantages) p.1 routed p.2).inputIds ≠ [] := fun hnil =>
          (List.take_eq_nil_iff.1 hnil).elim hp hne
        exact ⟨_, hprepared, htokens, hpositive htokens⟩
    · exact ⟨fun ⟨_, hm, _⟩ => absurd (prepareSample_admitted hm) hadmitted, fun h => absurd h.1 hadmitted⟩
  · intro pieces hadmitted himages
    rw [cutsInside_iff himages hlen]
    exact or_iff_right_of_imp fun hle => not_startsTooLong hadmitted himages hle

/-- A token of text, an image of two, and four more of text, with room for two. -/
theorem prepared_nonempty_iff_sample : ∃ m, prepareSample byteArrays (imageSample
    [.text 1, .image [1, 1] (by decide) (by decide), .text 4]) 2 = .ok m ∧ m.inputIds ≠ [] ∧ ∀ n ∈ m.seqLens, 0 < n := by
  let pieces : List Piece := [.text 1, .image [1, 1] (by decide) (by decide), .text 4]
  have hwell : ImagesOf byteArrays (imageSample pieces) pieces :=
    ⟨[2], rfl, ⟨_, [[1, 2, 1]], rfl, by decide +kernel, rfl⟩, ⟨1, by decide, by decide⟩, ⟨_, [1], rfl, rfl⟩⟩
  have hacc := imageSample_acceptable byteArrays pieces
  have hadmitted := hacc.admitted (by decide)
  have hiff := prepared_nonempty_iff hacc.toLaid (by decide) (show 1 ≤ 2 by decide)
  refine hiff.1.2 ⟨hadmitted, (hiff.2 pieces hadmitted hwell).2 ?_⟩
  rintro ⟨b, hb, -⟩
  exact absurd (List.mem_singleton.1 hb) (by simp)

/-- An image of four tokens before the text, and two tokens of room: nothing of the sample is left. -/
theorem not_every_prepared_nonempty : ¬ ∀ (np : Numpy) (s : TrainingSample Int) (pieces : List Piece) (seqLen : Nat),
    Acceptable np s → ImagesOf np s pieces → s.tokenIds ≠ [] → s.envName ≠ "all" → 1 ≤ seqLen →
      ∃ m, prepareSample np s seqLen = .ok m ∧ m.inputIds ≠ [] ∧ ∀ n ∈ m.seqLens, 0 < n := by
  intro h
  let pieces : List Piece := [.image [1, 1, 1, 1] (by decide) (by decide), .text 2]
  have hwell : ImagesOf byteArrays (imageSample pieces) pieces :=
    ⟨[4], rfl, ⟨_, [[1, 4, 1]], rfl, by decide +kernel, rfl⟩, ⟨1, by decide, by decide⟩, ⟨_, [1], rfl, rfl⟩⟩
  obtain ⟨m, hm, htokens, -⟩ := h byteArrays (imageSample pieces) pieces 2 (imageSample_acceptable byteArrays pieces)
    hwell (by decide) (by decide) (by decide)
  have hempty : (prepareSample byteArrays (imageSample pieces) 2).map (·.inputIds) = .ok [] := by decide +kernel
  rw [hm] at hempty
  exact htokens (Except.ok.inj hempty)

/-- A sample with the patches of an image and no grid, as for Gemma 3: it cannot be cut. -/
example : prepareSample byteArrays { imageSample [.text 1, .image [1] (by decide) (by decide), .text 1] with
    mmKwargs := some [("pixel_values", ⟨"uint8", [1, 1], [7]⟩)] } 2 = .error (.key "image_grid_thw") := by
  decide +kernel

end Batch
end Aether
