import AetherRl.BatchImages
import AetherRl.BatchPacks
/-!
# Mrope — three-dimensional positions for packed images (`models/qwen3_5_moe/mrope.py`)

The builder walks the sequences of a packed row; in each it goes through the runs of one token type, and for every image
of a run it takes the next row of `image_grid_thw`.  Positions start again at 0 in every sequence.
-/
namespace Aether
namespace Mrope

open Batch Checked

structure Position where
  temporal : Nat
  height : Nat
  width : Nat
deriving DecidableEq

structure Grid where
  t : Nat
  h : Nat
  w : Nat
deriving DecidableEq

/-- `grid_thw[0]`, `grid_thw[1]` and `grid_thw[2]`. -/
def gridOf : List Nat → Except Error Grid
  | t :: h :: w :: _ => .ok ⟨t, h, w⟩
  | _ => .error .index

def repeatInterleave {α : Type} (xs : List α) (n : Nat) : List α := xs.flatMap fun x => List.replicate n x

def tile {α : Type} (xs : List α) (n : Nat) : List α := (List.replicate n xs).flatten

/-- Three rows stacked, column by column. -/
def stack (temporal height width : List Nat) : List Position :=
  List.zipWith (fun t p => ⟨t, p.1, p.2⟩) temporal (height.zip width)

def visionPositionIds (startPosition : Nat) (g : Grid) (merge : Nat) : List Position :=
  let llmGridT := g.t
  let llmGridH := g.h / merge
  let llmGridW := g.w / merge
  let temporal := List.range llmGridT
  let height := (List.range llmGridH).map (· + startPosition)
  let width := (List.range llmGridW).map (· + startPosition)
  stack ((repeatInterleave temporal (llmGridH * llmGridW)).map (· + startPosition))
    (tile (repeatInterleave height llmGridW) llmGridT) (tile width (llmGridH * llmGridT))

/-- `itertools.groupby`: the runs of one type, each with its length. -/
def runs : List Nat → List (Nat × Nat)
  | [] => []
  | t :: ts =>
    match runs ts with
    | [] => [(t, 1)]
    | (u, n) :: rest => if t = u then (u, n + 1) :: rest else (t, 1) :: (u, n) :: rest

/-- `while remaining > 0`: a row of the grid for each image, from a position on. -/
def imageGroup (merge groupLen : Nat) : Nat → List (List Nat) → Nat →
    Except Error (List Position × Nat × List (List Nat))
  | 0, grids, pos => .ok ([], pos, grids)
  | _ + 1, [], _ => .error (.value "Not enough image_grid_thw rows for image token groups")
  | remaining + 1, row :: grids, pos => do
    let g ← gridOf row
    raiseUnless (merge ≠ 0) .zeroDivision
    let positions := visionPositionIds pos g merge
    raiseUnless (positions.length ≤ remaining + 1)
      (.value s!"Image token group length does not match image_grid_thw-derived token count: group_len={groupLen}, grid_thw={row}, derived={positions.length}, spatial_merge_size={merge}")
    let p ← imageGroup merge groupLen (remaining + 1 - positions.length) grids (pos + max g.h g.w / merge)
    .ok (positions ++ p.1, p.2)

def textPositions (pos n : Nat) : List Position := (List.range n).map fun i => ⟨i + pos, i + pos, i + pos⟩

/-- The positions of a sequence's runs, and the rows that are left. -/
def segmentPositions (merge : Nat) : List (Nat × Nat) → Option (List (List Nat)) → Nat →
    Except Error (List Position × Option (List (List Nat)))
  | [], grids, _ => .ok ([], grids)
  | (0, n) :: rest, grids, pos => do
    let p ← segmentPositions merge rest grids (pos + n)
    .ok (textPositions pos n ++ p.1, p.2)
  | (1, n) :: rest, some grids, pos => do
    let image ← imageGroup merge n n grids pos
    let p ← segmentPositions merge rest (some image.2.2) image.2.1
    .ok (image.1 ++ p.1, p.2)
  | (1, _) :: _, none, _ =>
    .error (.value "image_grid_thw is required when mm_token_type_ids contains image tokens")
  | (2, _) :: _, _, _ =>
    .error (.value "Qwen3.5 video MRoPE is not supported by the custom trainer path yet")
  | (t + 3, _) :: _, _, _ => .error (.value s!"Unsupported Qwen3.5 multimodal token type: {t + 3}")

/-- One sequence after the other. -/
def segments (merge : Nat) : List Nat → List Nat → Option (List (List Nat)) →
    Except Error (List Position × Option (List (List Nat)))
  | [], _, grids => .ok ([], grids)
  | n :: seqLens, types, grids => do
    let segment ← segmentPositions merge (runs (types.take n)) grids 0
    raiseUnless (runs (types.take n) ≠ []) (.value "Cannot build MRoPE positions for an empty sequence segment")
    raiseUnless (segment.1.length = n)
      (.value s!"Built MRoPE length does not match segment length: {segment.1.length} vs {n}")
    let rest ← segments merge seqLens (types.drop n) segment.2
    .ok (segment.1 ++ rest.1, rest.2)

def buildMropePositionIds (numTokens : Nat) (types : List Nat) (grids : Option (List (List Nat))) (merge : Nat)
    (seqLens : List Nat) : Except Error (List Position) := do
  raiseUnless (types.length = numTokens)
    (.value s!"mm_token_type_ids must match input_ids shape: mm_token_type_ids=(1, {types.length}), input_ids=(1, {numTokens})")
  raiseUnless (∀ n ∈ seqLens, 0 < n) (.value s!"seq_lens must be positive, got {seqLens}")
  raiseUnless (seqLens.sum = numTokens)
    (.value s!"seq_lens sum must equal sequence length: {seqLens} vs {numTokens}")
  let p ← segments merge seqLens types grids
  match p.2 with
  | some (extra :: _) => .error (.value s!"Unused image_grid_thw row while building MRoPE positions: {extra}")
  | _ => .ok p.1

/-! ## Runs of pieces -/

theorem length_visionPositionIds (pos : Nat) (g : Grid) (merge : Nat) :
    (visionPositionIds pos g merge).length = g.t * (g.h / merge) * (g.w / merge) := by
  have hinterleave : ∀ {α : Type} (xs : List α) (n : Nat), (repeatInterleave xs n).length = xs.length * n := by
    intro α xs n
    rw [repeatInterleave, List.length_flatMap]
    simp only [List.length_replicate, List.map_const', List.sum_replicate_nat]
  have htile : ∀ {α : Type} (xs : List α) (n : Nat), (tile xs n).length = n * xs.length := by
    intro α xs n
    rw [tile, List.length_flatten, List.map_replicate, List.sum_replicate_nat]
  simp only [visionPositionIds, stack, List.length_zipWith, List.length_zip, List.length_map, hinterleave, htile,
    List.length_range]
  have hheight : g.t * (g.h / merge * (g.w / merge)) = g.t * (g.h / merge) * (g.w / merge) := (Nat.mul_assoc _ _ _).symm
  have hwidth : g.h / merge * g.t * (g.w / merge) = g.t * (g.h / merge) * (g.w / merge) := by
    rw [Nat.mul_comm (g.h / merge)]
  rw [hheight, hwidth, Nat.min_self, Nat.min_self]

theorem runs_cons (t : Nat) (ts : List Nat) : runs (t :: ts) =
    match runs ts with
    | [] => [(t, 1)]
    | (u, n) :: rest => if t = u then (u, n + 1) :: rest else (t, 1) :: (u, n) :: rest := rfl

/-- A block in front joins the first run, or is one of its own. -/
theorem runs_block (t : Nat) (ts : List Nat) : ∀ n : Nat, runs (List.replicate (n + 1) t ++ ts) =
    match runs ts with
    | [] => [(t, n + 1)]
    | (u, k) :: rest => if t = u then (u, k + (n + 1)) :: rest else (t, n + 1) :: (u, k) :: rest
  | 0 => runs_cons t ts
  | n + 1 => by
    rw [List.replicate_succ, List.cons_append, runs_cons, runs_block t ts n]
    cases runs ts with
    | nil => simp
    | cons r rest =>
      by_cases h : t = r.1
      · simp only [if_pos h]
        congr 1
      · simp only [if_neg h, if_pos]

/-- What a group gives does not depend on the length that its errors name. -/
theorem imageGroup_len {merge : Nat} (len len' : Nat) : ∀ {grids : List (List Nat)} {a pos : Nat}
    {x : List Position × Nat × List (List Nat)},
    imageGroup merge len' a grids pos = .ok x → imageGroup merge len a grids pos = .ok x
  | _, 0, _, _, h => by
    unfold imageGroup at h ⊢
    exact h
  | [], _ + 1, _, _, h => by cases h
  | row :: grids, a + 1, pos, x, h => by
    simp only [imageGroup, bind_eq_ok, raiseUnless_eq_ok] at h ⊢
    obtain ⟨g, hg, u, hmerge, v, hle, rest, hrest, hx⟩ := h
    exact ⟨g, hg, u, hmerge, v, hle, rest, imageGroup_len len len' hrest, hx⟩

/-- **Images one after the other in one group are images of groups of their own.** -/
theorem imageGroup_add {merge : Nat} (len len₁ len₂ : Nat) : ∀ {grids : List (List Nat)} {a b pos pos₁ : Nat}
    {p q : List Position} {grids₁ : List (List Nat)} {r : Nat × List (List Nat)},
    imageGroup merge len₁ a grids pos = .ok (p, pos₁, grids₁) → imageGroup merge len₂ b grids₁ pos₁ = .ok (q, r) →
      imageGroup merge len (a + b) grids pos = .ok (p ++ q, r)
  | grids, 0, b, pos, pos₁, p, q, grids₁, r, h₁, h₂ => by
    unfold imageGroup at h₁
    cases h₁
    rw [Nat.zero_add, List.nil_append]
    exact imageGroup_len len len₂ h₂
  | [], _ + 1, _, _, _, _, _, _, _, h₁, _ => by cases h₁
  | row :: grids, a + 1, b, pos, pos₁, p, q, grids₁, r, h₁, h₂ => by
    simp only [imageGroup, bind_eq_ok, raiseUnless_eq_ok, Except.ok.injEq, Prod.mk.injEq] at h₁
    obtain ⟨g, hg, u, hmerge, v, hle, ⟨p', pos', grids'⟩, hrest, rfl, rfl, rfl⟩ := h₁
    have ih := imageGroup_add len len₁ len₂ hrest h₂
    have hsub : a + 1 - (visionPositionIds pos g merge).length + b =
        a + b + 1 - (visionPositionIds pos g merge).length := by omega
    rw [hsub] at ih
    rw [Nat.add_right_comm]
    simp only [imageGroup, bind_eq_ok, raiseUnless_eq_ok]
    refine ⟨g, hg, u, hmerge, v, by omega, _, ih, ?_⟩
    rw [List.append_assoc]

/-- One run for two of the same type. -/
theorem segmentPositions_join {merge t a b : Nat} {rest : List (Nat × Nat)} {grids : Option (List (List Nat))} {pos : Nat}
    {x : List Position × Option (List (List Nat))}
    (h : segmentPositions merge ((t, a) :: (t, b) :: rest) grids pos = .ok x) :
    segmentPositions merge ((t, b + a) :: rest) grids pos = .ok x := by
  match t, grids with
  | 0, grids =>
    simp only [segmentPositions, bind_eq_ok, Except.ok.injEq] at h ⊢
    obtain ⟨p, ⟨q, hq, rfl⟩, rfl⟩ := h
    rw [Nat.add_assoc, Nat.add_comm a b] at hq
    refine ⟨q, hq, ?_⟩
    have hsplit : textPositions pos (b + a) = textPositions pos a ++ textPositions (pos + a) b := by
      rw [textPositions, Nat.add_comm b a, List.range_add, List.map_append, List.map_map, textPositions, textPositions]
      congr 1
      refine List.map_congr_left fun i _ => ?_
      simp only [Function.comp_apply, Position.mk.injEq]
      omega
    rw [hsplit, List.append_assoc]
  | 1, some grids =>
    simp only [segmentPositions, bind_eq_ok, Except.ok.injEq] at h ⊢
    obtain ⟨⟨p₁, pos₁, grids₁⟩, hfirst, p, ⟨⟨p₂, pos₂, grids₂⟩, hsecond, q, hq, rfl⟩, rfl⟩ := h
    refine ⟨(p₁ ++ p₂, pos₂, grids₂), ?_, q, hq, ?_⟩
    · rw [Nat.add_comm b a]
      exact imageGroup_add (a + b) a b hfirst hsecond
    · dsimp only
      rw [List.append_assoc]
  | 1, none => cases h
  | 2, _ => cases h
  | _ + 3, _ => cases h

/-- **A block in front is gone through first**, whether or not it joins a run. -/
theorem segmentPositions_block {merge t n : Nat} {ts : List Nat} {grids : Option (List (List Nat))} {pos : Nat}
    {x : List Position × Option (List (List Nat))}
    (h : segmentPositions merge ((t, n + 1) :: runs ts) grids pos = .ok x) :
    segmentPositions merge (runs (List.replicate (n + 1) t ++ ts)) grids pos = .ok x := by
  rw [runs_block]
  cases hruns : runs ts with
  | nil =>
    rw [hruns] at h
    exact h
  | cons r rest =>
    obtain ⟨u, k⟩ := r
    rw [hruns] at h
    dsimp only
    by_cases htu : t = u
    · subst htu
      rw [if_pos rfl]
      exact segmentPositions_join h
    · rw [if_neg htu]
      exact h

/-! ## The positions of a layout -/

/-- The grid row of an image of so many tokens. -/
def RowOf (merge : Nat) (row : List Nat) (numTokens : Nat) : Prop :=
  ∃ g, gridOf row = .ok g ∧ numTokens = g.t * (g.h / merge) * (g.w / merge)

/-- A layout of text and images, each image with its row. -/
structure Layout (merge : Nat) (pieces : List Piece) (rows : List (List Nat)) : Prop where
  images : ∀ block hne hblock, Piece.image block hne hblock ∈ pieces → ∀ t ∈ block, t = 1
  rows : List.Forall₂ (RowOf merge) rows (imageTokens pieces)

/-- The positions of a layout, piece by piece. -/
def layoutPositions (merge : Nat) : List Piece → List (List Nat) → Nat → List Position
  | [], _, _ => []
  | .text n :: pieces, rows, pos => textPositions pos n ++ layoutPositions merge pieces rows (pos + n)
  | .image _ _ _ :: pieces, row :: rows, pos =>
    match gridOf row with
    | .ok g => visionPositionIds pos g merge ++ layoutPositions merge pieces rows (pos + max g.h g.w / merge)
    | .error _ => []
  | .image _ _ _ :: _, [], _ => []

theorem Layout.tail {merge : Nat} {piece : Piece} {pieces : List Piece} {rows : List (List Nat)}
    (h : Layout merge (piece :: pieces) rows) (htext : ∃ n, piece = .text n) : Layout merge pieces rows := by
  obtain ⟨n, rfl⟩ := htext
  exact ⟨fun block hne hblock hmem => h.images block hne hblock (List.mem_cons_of_mem _ hmem), h.rows⟩

/-- **A layout's runs give its positions**, whatever rows come after its own. -/
theorem segmentPositions_layout {merge : Nat} (hmerge : merge ≠ 0) : ∀ {pieces : List Piece} {rows : List (List Nat)}
    (pos : Nat), Layout merge pieces rows →
      (∀ more, segmentPositions merge (runs (typesOf pieces)) (some (rows ++ more)) pos =
        .ok (layoutPositions merge pieces rows pos, some more)) ∧
      (rows = [] → segmentPositions merge (runs (typesOf pieces)) none pos =
        .ok (layoutPositions merge pieces rows pos, none)) ∧
      (layoutPositions merge pieces rows pos).length = (typesOf pieces).length
  | [], rows, pos, h => by
    obtain rfl := List.forall₂_nil_right_iff.1 h.rows
    exact ⟨fun more => rfl, fun _ => rfl, rfl⟩
  | .text 0 :: pieces, rows, pos, h => by
    obtain ⟨hsome, hnone, hlen⟩ := segmentPositions_layout hmerge pos (h.tail ⟨0, rfl⟩)
    exact ⟨hsome, hnone, hlen⟩
  | .text (n + 1) :: pieces, rows, pos, h => by
    obtain ⟨hsome, hnone, hlen⟩ := segmentPositions_layout hmerge (pos + (n + 1)) (h.tail ⟨n + 1, rfl⟩)
    have htypes : typesOf (.text (n + 1) :: pieces) = List.replicate (n + 1) 0 ++ typesOf pieces := rfl
    rw [htypes]
    refine ⟨fun more => segmentPositions_block ?_, fun hrows => segmentPositions_block ?_, ?_⟩
    · simp only [segmentPositions, hsome more, ok_bind]
      rfl
    · simp only [segmentPositions, hnone hrows, ok_bind]
      rfl
    · rw [layoutPositions, List.length_append, hlen, List.length_append, textPositions, List.length_map, List.length_range,
        List.length_replicate]
  | .image block hne hblock :: pieces, rows, pos, h => by
    obtain ⟨row, rows', ⟨g, hg, htokens⟩, hrest, rfl⟩ := List.forall₂_cons_right_iff.1 h.rows
    have htail : Layout merge pieces rows' :=
      ⟨fun b hb hb' hmem => h.images b hb hb' (List.mem_cons_of_mem _ hmem), hrest⟩
    obtain ⟨hsome, -, hlen⟩ := segmentPositions_layout hmerge (pos + max g.h g.w / merge) htail
    obtain ⟨n, hn⟩ := Nat.exists_eq_add_one.2 (List.length_pos_iff.2 hne)
    have hones : block = List.replicate (n + 1) 1 := by
      rw [List.eq_replicate_iff]
      exact ⟨hn, h.images block hne hblock List.mem_cons_self⟩
    have hvision : (visionPositionIds pos g merge).length = n + 1 := by
      rw [length_visionPositionIds, ← htokens, hn]
    have hpositions : layoutPositions merge (.image block hne hblock :: pieces) (row :: rows') pos =
        visionPositionIds pos g merge ++ layoutPositions merge pieces rows' (pos + max g.h g.w / merge) := by
      rw [layoutPositions, hg]
    have htypes : typesOf (.image block hne hblock :: pieces) = List.replicate (n + 1) 1 ++ typesOf pieces := by
      rw [← hones]
      rfl
    refine ⟨fun more => ?_, fun hrows => absurd hrows (List.cons_ne_nil row rows'), ?_⟩
    · have hgroup : imageGroup merge (n + 1) (n + 1) (row :: (rows' ++ more)) pos =
          .ok (visionPositionIds pos g merge, pos + max g.h g.w / merge, rows' ++ more) := by
        simp only [imageGroup, hg, ok_bind, raiseUnless_of _ hmerge, hvision,
          raiseUnless_of _ (Nat.le_refl (n + 1)), Nat.sub_self, List.append_nil]
      rw [htypes, hpositions]
      refine segmentPositions_block ?_
      simp only [List.cons_append, segmentPositions, hgroup, ok_bind, hsome more]
    · rw [hpositions, htypes, List.length_append, hlen, hvision, List.length_append, List.length_replicate]

theorem runs_ne_nil : ∀ {ts : List Nat}, ts ≠ [] → runs ts ≠ []
  | [], h => absurd rfl h
  | t :: ts, _ => by
    rw [runs_cons]
    split
    · exact List.cons_ne_nil _ _
    · split
      · exact List.cons_ne_nil _ _
      · exact List.cons_ne_nil _ _

/-- Sequences of layouts, each with its rows, and some rows after them. -/
structure Sequence where
  pieces : List Piece
  rows : List (List Nat)

def Sequence.Ok (merge : Nat) (s : Sequence) : Prop := Layout merge s.pieces s.rows ∧ typesOf s.pieces ≠ []

def Sequence.positions (merge : Nat) (s : Sequence) : List Position := layoutPositions merge s.pieces s.rows 0

theorem Sequence.Ok.length {merge : Nat} (hmerge : merge ≠ 0) {s : Sequence} (h : s.Ok merge) :
    (s.positions merge).length = (typesOf s.pieces).length := (segmentPositions_layout hmerge 0 h.1).2.2

/-- **Sequence by sequence, the rows are consumed and the positions start again.** -/
theorem segments_sequences {merge : Nat} (hmerge : merge ≠ 0) : ∀ {ss : List Sequence}, (∀ s ∈ ss, s.Ok merge) →
    (∀ more, segments merge (ss.map fun s => (typesOf s.pieces).length) (ss.flatMap fun s => typesOf s.pieces)
        (some (ss.flatMap Sequence.rows ++ more)) = .ok (ss.flatMap (Sequence.positions merge), some more)) ∧
      ((∀ s ∈ ss, s.rows = []) → segments merge (ss.map fun s => (typesOf s.pieces).length)
        (ss.flatMap fun s => typesOf s.pieces) none = .ok (ss.flatMap (Sequence.positions merge), none))
  | [], _ => ⟨fun _ => rfl, fun _ => rfl⟩
  | s :: ss, h => by
    have hs := h s List.mem_cons_self
    obtain ⟨hsome, hnone⟩ := segments_sequences hmerge fun s' hs' => h s' (List.mem_cons_of_mem s hs')
    obtain ⟨hfirst, hfirst', hlen⟩ := segmentPositions_layout hmerge 0 hs.1
    have hruns := runs_ne_nil hs.2
    constructor
    · intro more
      rw [List.map_cons, List.flatMap_cons, List.flatMap_cons, List.flatMap_cons, segments, List.take_left,
        List.drop_left, List.append_assoc, hfirst, ok_bind, raiseUnless_of _ hruns, ok_bind, raiseUnless_of _ hlen,
        ok_bind, hsome more]
      rfl
    · intro hrows
      have hrest := hnone fun s' hs' => hrows s' (List.mem_cons_of_mem s hs')
      rw [List.map_cons, List.flatMap_cons, List.flatMap_cons, segments, List.take_left, List.drop_left,
        hfirst' (hrows s List.mem_cons_self), ok_bind, raiseUnless_of _ hruns, ok_bind, raiseUnless_of _ hlen, ok_bind,
        hrest]
      rfl

/-- The rows of the grid, where any sequence has one. -/
def gridRows (ss : List Sequence) (grids : Option (List (List Nat))) : Prop :=
  grids = some (ss.flatMap Sequence.rows) ∨ grids = none ∧ ∀ s ∈ ss, s.rows = []

/-- **The builder places sequences as it places each of them alone**, and consumes every row. -/
theorem buildMropePositionIds_sequences {merge : Nat} (hmerge : merge ≠ 0) {ss : List Sequence}
    (h : ∀ s ∈ ss, s.Ok merge) {grids : Option (List (List Nat))} (hgrids : gridRows ss grids) :
    buildMropePositionIds (ss.flatMap fun s => typesOf s.pieces).length (ss.flatMap fun s => typesOf s.pieces) grids merge
      (ss.map fun s => (typesOf s.pieces).length) = .ok (ss.flatMap (Sequence.positions merge)) := by
  obtain ⟨hsome, hnone⟩ := segments_sequences hmerge h
  have hpositive : ∀ n ∈ ss.map fun s => (typesOf s.pieces).length, 0 < n := by
    intro n hn
    obtain ⟨s, hs, rfl⟩ := List.mem_map.1 hn
    exact List.length_pos_iff.2 (h s hs).2
  have hsum : (ss.map fun s => (typesOf s.pieces).length).sum = (ss.flatMap fun s => typesOf s.pieces).length :=
    List.length_flatMap.symm
  rw [buildMropePositionIds, raiseUnless_of _ rfl, ok_bind, raiseUnless_of _ hpositive, ok_bind, raiseUnless_of _ hsum,
    ok_bind]
  rcases hgrids with rfl | ⟨rfl, hrows⟩
  · have hall := hsome []
    rw [List.append_nil] at hall
    rw [hall]
    rfl
  · rw [hnone hrows]
    rfl

/-! ## Padding -/

theorem typesOf_append (pieces more : List Piece) : typesOf (pieces ++ more) = typesOf pieces ++ typesOf more :=
  List.flatMap_append

theorem imageTokens_text (pieces : List Piece) (n : Nat) : imageTokens (pieces ++ [.text n]) = imageTokens pieces := by
  induction pieces with
  | nil => rfl
  | cons piece pieces ih =>
    cases piece with
    | text k => exact ih
    | image block hne hblock => exact congrArg (block.length :: ·) ih

/-- Text after a layout comes after its positions. -/
theorem layoutPositions_text {merge : Nat} (n : Nat) : ∀ {pieces : List Piece} {rows : List (List Nat)} (pos : Nat),
    Layout merge pieces rows → ∃ extra, layoutPositions merge (pieces ++ [.text n]) rows pos =
      layoutPositions merge pieces rows pos ++ extra ∧ extra.length = n
  | [], rows, pos, _ => ⟨textPositions pos n, by simp [layoutPositions], by simp [textPositions]⟩
  | .text k :: pieces, rows, pos, h => by
    obtain ⟨extra, hextra, hlen⟩ := layoutPositions_text n (pos + k) (h.tail ⟨k, rfl⟩)
    refine ⟨extra, ?_, hlen⟩
    rw [List.cons_append, layoutPositions, hextra, layoutPositions, List.append_assoc]
  | .image block hne hblock :: pieces, rows, pos, h => by
    obtain ⟨row, rows', ⟨g, hg, -⟩, hrest, rfl⟩ := List.forall₂_cons_right_iff.1 h.rows
    have htail : Layout merge pieces rows' :=
      ⟨fun b hb hb' hmem => h.images b hb hb' (List.mem_cons_of_mem _ hmem), hrest⟩
    obtain ⟨extra, hextra, hlen⟩ := layoutPositions_text n (pos + max g.h g.w / merge) htail
    refine ⟨extra, ?_, hlen⟩
    simp only [List.cons_append, layoutPositions, hg, hextra, List.append_assoc]

/-- The last sequence with so much text after it. -/
def padLast (n : Nat) : List Sequence → List Sequence
  | [] => []
  | [s] => [⟨s.pieces ++ [.text n], s.rows⟩]
  | s :: s' :: ss => s :: padLast n (s' :: ss)

/-- **Padding leaves every sequence's positions where they are**, and its rows. -/
theorem padLast_spec {merge : Nat} (n : Nat) : ∀ {ss : List Sequence}, ss ≠ [] → (∀ s ∈ ss, s.Ok merge) →
    (∀ s ∈ padLast n ss, s.Ok merge) ∧ (padLast n ss).flatMap Sequence.rows = ss.flatMap Sequence.rows ∧
      ((∀ s ∈ ss, s.rows = []) → ∀ s ∈ padLast n ss, s.rows = []) ∧
      (padLast n ss).flatMap (fun s => typesOf s.pieces) = ss.flatMap (fun s => typesOf s.pieces) ++ List.replicate n 0 ∧
      (padLast n ss).map (fun s => (typesOf s.pieces).length) = lastPlus n (ss.map fun s => (typesOf s.pieces).length) ∧
      ∃ extra, (padLast n ss).flatMap (Sequence.positions merge) = ss.flatMap (Sequence.positions merge) ++ extra ∧
        extra.length = n
  | [], h, _ => absurd rfl h
  | [s], _, h => by
    have hs := h s List.mem_cons_self
    obtain ⟨extra, hextra, hlen⟩ := layoutPositions_text n 0 hs.1
    have htypes : typesOf (s.pieces ++ [.text n]) = typesOf s.pieces ++ List.replicate n 0 := by
      rw [typesOf_append]
      congr 1
      exact List.append_nil _
    refine ⟨?_, rfl, ?_, ?_, ?_, extra, ?_, hlen⟩
    · intro s' hs'
      obtain rfl := List.mem_singleton.1 hs'
      refine ⟨⟨fun block hne hblock hmem => ?_, ?_⟩, ?_⟩
      · rcases List.mem_append.1 hmem with hmem | hmem
        · exact hs.1.images block hne hblock hmem
        · cases List.mem_singleton.1 hmem
      · rw [imageTokens_text]
        exact hs.1.rows
      · rw [htypes]
        exact List.append_ne_nil_of_left_ne_nil hs.2 _
    · intro hrows s' hs'
      obtain rfl := List.mem_singleton.1 hs'
      exact hrows s List.mem_cons_self
    · simp only [padLast, List.flatMap_singleton, htypes]
    · simp only [padLast, List.map_cons, List.map_nil, htypes, List.length_append, List.length_replicate, lastPlus]
    · simp only [padLast, List.flatMap_singleton, Sequence.positions, hextra]
  | s :: s' :: ss, _, h => by
    obtain ⟨hok, hrows, hnone, htypes, hlens, extra, hextra, hlen⟩ :=
      padLast_spec n (List.cons_ne_nil s' ss) fun t ht => h t (List.mem_cons_of_mem s ht)
    refine ⟨?_, ?_, ?_, ?_, ?_, extra, ?_, hlen⟩
    · intro t ht
      rcases List.mem_cons.1 ht with rfl | ht
      · exact h t List.mem_cons_self
      · exact hok t ht
    · exact congrArg (s.rows ++ ·) hrows
    · intro hall t ht
      rcases List.mem_cons.1 ht with rfl | ht
      · exact hall t List.mem_cons_self
      · exact hnone (fun u hu => hall u (List.mem_cons_of_mem s hu)) t ht
    · exact (congrArg (typesOf s.pieces ++ ·) htypes).trans (List.append_assoc _ _ _).symm
    · rw [padLast, List.map_cons, hlens]
      rfl
    · exact (congrArg (s.positions merge ++ ·) hextra).trans (List.append_assoc _ _ _).symm

end Mrope
end Aether
