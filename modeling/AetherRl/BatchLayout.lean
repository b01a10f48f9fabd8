import AetherRl.BatchSample
/-!
# BatchLayout — text and image placeholders, and where they may be cut

A sample's token types are runs of text and the placeholder blocks of its images, one after the other.  `wholeCut` is the
largest cut within a length that splits no block; `_truncate_mm` finds it by counting placeholders.
-/
namespace Aether
namespace Batch

open Checked

/-- A run of text, or an image's block of placeholders. -/
inductive Piece
  | text (n : Nat)
  | image (block : List Nat) (nonempty : block ≠ []) (placeholders : ∀ t ∈ block, t ≠ 0)

def Piece.types : Piece → List Nat
  | text n => List.replicate n 0
  | image block _ _ => block

def typesOf (pieces : List Piece) : List Nat := pieces.flatMap Piece.types

/-- The number of tokens of each image. -/
def imageTokens : List Piece → List Nat
  | [] => []
  | .text _ :: pieces => imageTokens pieces
  | .image block _ _ :: pieces => block.length :: imageTokens pieces

/-- Where each image's block starts and ends. -/
def spans : Nat → List Piece → List (Nat × Nat)
  | _, [] => []
  | a, .text n :: pieces => spans (a + n) pieces
  | a, .image block _ _ :: pieces => (a, a + block.length) :: spans (a + block.length) pieces

/-- A cut inside no block. -/
def SplitsNone (blocks : List (Nat × Nat)) (cut : Nat) : Prop := ∀ s ∈ blocks, ¬ (s.1 < cut ∧ cut < s.2)

/-- The largest cut within a length that splits no block, and the number of images before it. -/
def wholeCut : Nat → List Piece → Nat × Nat
  | len, [] => (len, 0)
  | len, .text n :: pieces =>
    if len ≤ n then (len, 0) else (n + (wholeCut (len - n) pieces).1, (wholeCut (len - n) pieces).2)
  | len, .image block _ _ :: pieces =>
    if block.length ≤ len then
      (block.length + (wholeCut (len - block.length) pieces).1, (wholeCut (len - block.length) pieces).2 + 1)
    else (0, 0)

/-! ## The largest whole cut -/

theorem le_of_mem_spans : ∀ {pieces : List Piece} {a : Nat} {s : Nat × Nat}, s ∈ spans a pieces → a ≤ s.1 ∧ s.1 < s.2
  | [], _, _, h => absurd h List.not_mem_nil
  | .text n :: pieces, a, s, h => by
    obtain ⟨hle, hlt⟩ := @le_of_mem_spans pieces _ _ h
    exact ⟨(Nat.le_add_right a n).trans hle, hlt⟩
  | .image block hne _ :: pieces, a, s, h => by
    have hpos : 0 < block.length := List.length_pos_iff.2 hne
    rcases List.mem_cons.1 h with rfl | h
    · exact ⟨le_rfl, Nat.lt_add_of_pos_right hpos⟩
    · obtain ⟨hle, hlt⟩ := @le_of_mem_spans pieces _ _ h
      exact ⟨(Nat.le_add_right a block.length).trans hle, hlt⟩

theorem length_spans : ∀ (pieces : List Piece) (a : Nat), (spans a pieces).length = (imageTokens pieces).length
  | [], _ => rfl
  | .text _ :: pieces, _ => length_spans pieces _
  | .image _ _ _ :: pieces, _ => congrArg Nat.succ (length_spans pieces _)

theorem wholeCut_le : ∀ (pieces : List Piece) (len : Nat), (wholeCut len pieces).1 ≤ len
  | [], len => le_rfl
  | .text n :: pieces, len => by
    rw [wholeCut]
    split
    · exact le_rfl
    · have ih := wholeCut_le pieces (len - n)
      dsimp only
      omega
  | .image block _ _ :: pieces, len => by
    rw [wholeCut]
    split
    · have ih := wholeCut_le pieces (len - block.length)
      dsimp only
      omega
    · exact Nat.zero_le len

/-- **The whole cut splits no block.** -/
theorem wholeCut_splitsNone : ∀ (pieces : List Piece) (len a : Nat),
    SplitsNone (spans a pieces) (a + (wholeCut len pieces).1)
  | [], _, _ => fun s hs => absurd hs List.not_mem_nil
  | .text n :: pieces, len, a => by
    rw [wholeCut, spans]
    split
    · rename_i hle
      rintro s hs ⟨h₁, h₂⟩
      have hs := (le_of_mem_spans hs).1
      omega
    · have ih := wholeCut_splitsNone pieces (len - n) (a + n)
      rwa [Nat.add_assoc] at ih
  | .image block _ _ :: pieces, len, a => by
    rw [wholeCut, spans]
    split
    · have ih := wholeCut_splitsNone pieces (len - block.length) (a + block.length)
      rw [Nat.add_assoc] at ih
      rintro s hs ⟨h₁, h₂⟩
      rcases List.mem_cons.1 hs with rfl | hs
      · dsimp only at h₂
        omega
      · exact ih s hs ⟨h₁, h₂⟩
    · rintro s hs ⟨h₁, h₂⟩
      rw [Nat.add_zero] at h₁
      rcases List.mem_cons.1 hs with rfl | hs
      · exact absurd h₁ (lt_irrefl a)
      · have hs := (le_of_mem_spans hs).1
        omega

/-- **No larger cut within the length splits no block.** -/
theorem le_wholeCut : ∀ (pieces : List Piece) (len a c : Nat), c ≤ len → SplitsNone (spans a pieces) (a + c) →
    c ≤ (wholeCut len pieces).1
  | [], _, _, _, hle, _ => hle
  | .text n :: pieces, len, a, c, hle, h => by
    rw [wholeCut]
    split
    · exact hle
    · by_cases hc : c ≤ n
      · dsimp only
        omega
      · have ih := le_wholeCut pieces (len - n) (a + n) (c - n) (by omega)
          (by rw [Nat.add_assoc, Nat.add_sub_cancel' (by omega)]; exact h)
        dsimp only
        omega
  | .image block _ _ :: pieces, len, a, c, hle, h => by
    have hfirst := h (a, a + block.length) List.mem_cons_self
    rw [wholeCut]
    split
    · by_cases hc : c ≤ block.length
      · dsimp only
        omega
      · have ih := le_wholeCut pieces (len - block.length) (a + block.length) (c - block.length) (by omega) (by
          rw [Nat.add_assoc, Nat.add_sub_cancel' (by omega)]
          exact fun s hs => h s (List.mem_cons_of_mem _ hs))
        dsimp only
        omega
    · dsimp only at hfirst ⊢
      omega

/-- **The images before the cut are those whose blocks end before it.** -/
theorem wholeCut_kept : ∀ (pieces : List Piece) (len a i : Nat) (s : Nat × Nat), (spans a pieces)[i]? = some s →
    (i < (wholeCut len pieces).2 ↔ s.2 ≤ a + (wholeCut len pieces).1)
  | [], _, _, _, _, h => by cases h
  | .text n :: pieces, len, a, i, s, h => by
    have hs := le_of_mem_spans (List.mem_of_getElem? h)
    rw [spans] at h
    have hs' := le_of_mem_spans (List.mem_of_getElem? h)
    rw [wholeCut]
    split
    · exact ⟨fun hi => absurd hi (Nat.not_lt_zero i), fun hle => by dsimp only at hle; omega⟩
    · have ih := wholeCut_kept pieces (len - n) (a + n) i s h
      rwa [Nat.add_assoc] at ih
  | .image block hne _ :: pieces, len, a, i, s, h => by
    have hpos : 0 < block.length := List.length_pos_iff.2 hne
    rw [spans] at h
    rw [wholeCut]
    split
    · cases i with
      | zero =>
        obtain rfl := Option.some.inj h
        exact ⟨fun _ => Nat.add_le_add_left (Nat.le_add_right _ _) a, fun _ => Nat.succ_pos _⟩
      | succ i =>
        have ih := wholeCut_kept pieces (len - block.length) (a + block.length) i s h
        rw [Nat.add_assoc] at ih
        exact Nat.succ_lt_succ_iff.trans ih
    · refine ⟨fun hi => absurd hi (Nat.not_lt_zero i), fun hle => ?_⟩
      have hs := le_of_mem_spans (List.mem_of_getElem? (show (spans a (.image block hne ‹_› :: pieces))[i]? = some s from h))
      dsimp only at hle
      omega

theorem kept_le : ∀ (pieces : List Piece) (len : Nat), (wholeCut len pieces).2 ≤ (imageTokens pieces).length
  | [], _ => le_rfl
  | .text n :: pieces, len => by
    rw [wholeCut, imageTokens]
    split
    · exact Nat.zero_le _
    · exact kept_le pieces (len - n)
  | .image block _ _ :: pieces, len => by
    rw [wholeCut, imageTokens]
    split
    · exact Nat.succ_le_succ (kept_le pieces (len - block.length))
    · exact Nat.zero_le _

/-! ## Counting placeholders finds it -/

theorem placeholders_append (xs ys : List Nat) : placeholders (xs ++ ys) = placeholders xs + placeholders ys :=
  List.countP_append

theorem placeholders_zeros (n : Nat) : placeholders (List.replicate n 0) = 0 := by
  simp [placeholders]

theorem placeholders_block {block : List Nat} (h : ∀ t ∈ block, t ≠ 0) : placeholders block = block.length := by
  rw [placeholders, List.countP_eq_length]
  simpa using h

theorem placeholderAfter_zeros (o n : Nat) (ids : List Nat) : ∀ (k i : Nat),
    placeholderAfter o n (List.replicate k 0 ++ ids) i = placeholderAfter o n ids (i + k)
  | 0, i => rfl
  | k + 1, i => by
    rw [List.replicate_succ, List.cons_append, placeholderAfter, placeholderAfter_zeros o n ids k (i + 1)]
    congr 1
    omega

theorem placeholderAfter_block (o n : Nat) (ids : List Nat) : ∀ (block : List Nat), (∀ t ∈ block, t ≠ 0) → ∀ i : Nat,
    placeholderAfter o (block.length + n) (block ++ ids) i = placeholderAfter o n ids (i + block.length)
  | [], _, i => by rw [List.length_nil, Nat.zero_add, List.nil_append, Nat.add_zero]
  | 0 :: block, h, i => absurd rfl (h 0 List.mem_cons_self)
  | (t + 1) :: block, h, i => by
    have ih := placeholderAfter_block o n ids block (fun u hu => h u (List.mem_cons_of_mem _ hu)) (i + 1)
    rw [List.length_cons, Nat.succ_add, List.cons_append, placeholderAfter, ih]
    congr 1
    omega

theorem placeholderAfter_zero (o : Nat) (ids : List Nat) (i : Nat) : ∀ {block : List Nat}, block ≠ [] →
    (∀ t ∈ block, t ≠ 0) → placeholderAfter o 0 (block ++ ids) i = i
  | [], h, _ => absurd rfl h
  | 0 :: _, _, h => absurd rfl (h 0 List.mem_cons_self)
  | (_ + 1) :: _, _, _ => rfl

/-- The placeholders of the images that a cut keeps. -/
def keptTokens (len : Nat) (pieces : List Piece) : Nat := ((imageTokens pieces).take (wholeCut len pieces).2).sum

theorem imageTokens_pos : ∀ {pieces : List Piece}, ∀ n ∈ imageTokens pieces, 0 < n
  | [], n, h => absurd h List.not_mem_nil
  | .text _ :: pieces, n, h => @imageTokens_pos pieces n h
  | .image _ hne _ :: pieces, n, h => by
    rcases List.mem_cons.1 h with rfl | h
    · exact List.length_pos_iff.2 hne
    · exact @imageTokens_pos pieces n h

theorem keepImages_none (kept acc : Nat) : ∀ {ns : List Nat}, (∀ n ∈ ns, 0 < n) →
    keepImages acc ns (kept, acc) = (kept, acc)
  | [], _ => rfl
  | n :: ns, h => by rw [keepImages, if_pos (Nat.lt_add_of_pos_right (h n List.mem_cons_self))]

/-- What survives a cut at a length, piece by piece. -/
theorem surviving_text {n len : Nat} (pieces : List Piece) : placeholders ((typesOf (.text n :: pieces)).take len) =
    if len ≤ n then 0 else placeholders ((typesOf pieces).take (len - n)) := by
  have htypes : typesOf (.text n :: pieces) = List.replicate n 0 ++ typesOf pieces := rfl
  rw [htypes, List.take_append, List.length_replicate, placeholders_append, List.take_replicate, placeholders_zeros,
    Nat.zero_add]
  split
  · rename_i hle
    rw [Nat.sub_eq_zero_of_le hle, List.take_zero]
    rfl
  · rfl

theorem surviving_image {block : List Nat} {len : Nat} (hne : block ≠ []) (hblock : ∀ t ∈ block, t ≠ 0)
    (pieces : List Piece) : placeholders ((typesOf (.image block hne hblock :: pieces)).take len) =
      if block.length ≤ len then block.length + placeholders ((typesOf pieces).take (len - block.length)) else len := by
  have htypes : typesOf (.image block hne hblock :: pieces) = block ++ typesOf pieces := rfl
  rw [htypes, List.take_append, placeholders_append,
    placeholders_block fun t ht => hblock t (List.mem_of_mem_take ht), List.length_take]
  split
  · rename_i hle
    rw [Nat.min_eq_right hle]
  · rename_i hlt
    rw [Nat.sub_eq_zero_of_le (Nat.le_of_not_le hlt), List.take_zero]
    exact Nat.min_eq_left (Nat.le_of_not_le hlt)

/-- **The images kept are those before the whole cut.** -/
theorem keepImages_whole : ∀ (pieces : List Piece) (len kept acc : Nat),
    keepImages (acc + placeholders ((typesOf pieces).take len)) (imageTokens pieces) (kept, acc) =
      (kept + (wholeCut len pieces).2, acc + keptTokens len pieces)
  | [], len, kept, acc => by simp [typesOf, keptTokens, imageTokens, wholeCut, keepImages]
  | .text n :: pieces, len, kept, acc => by
    rw [surviving_text, keptTokens, wholeCut, imageTokens]
    split
    · exact keepImages_none kept acc fun n hn => imageTokens_pos n hn
    · exact keepImages_whole pieces (len - n) kept acc
  | .image block hne hblock :: pieces, len, kept, acc => by
    rw [surviving_image, keptTokens, wholeCut, imageTokens, keepImages]
    split
    · have ih := keepImages_whole pieces (len - block.length) (kept + 1) (acc + block.length)
      rw [if_neg (by omega), ← Nat.add_assoc, ih, List.take_succ_cons, List.sum_cons, keptTokens]
      congr 1
      · dsimp only
        omega
      · omega
    · rw [if_pos (by omega)]
      rfl

/-- **The cut is at the length, or at the first placeholder that is not kept.** -/
theorem placeholderAfter_whole (o : Nat) : ∀ (pieces : List Piece) (len i : Nat),
    (if keptTokens len pieces = placeholders ((typesOf pieces).take len) then i + len
      else placeholderAfter o (keptTokens len pieces) (typesOf pieces) i) = i + (wholeCut len pieces).1
  | [], len, i => by simp [typesOf, keptTokens, imageTokens, wholeCut, placeholders]
  | .text n :: pieces, len, i => by
    have htypes : typesOf (.text n :: pieces) = List.replicate n 0 ++ typesOf pieces := rfl
    rw [surviving_text, keptTokens, wholeCut, imageTokens]
    split
    · rw [List.take_zero, List.sum_nil, if_pos rfl]
    · rename_i hlt
      have ih := placeholderAfter_whole o pieces (len - n) (i + n)
      rw [keptTokens] at ih
      dsimp only
      rw [htypes, placeholderAfter_zeros, ← Nat.add_assoc, ← ih]
      congr 1
      omega
  | .image block hne hblock :: pieces, len, i => by
    have htypes : typesOf (.image block hne hblock :: pieces) = block ++ typesOf pieces := rfl
    rw [surviving_image, keptTokens, wholeCut, imageTokens]
    split
    · have ih := placeholderAfter_whole o pieces (len - block.length) (i + block.length)
      rw [keptTokens] at ih
      dsimp only
      rw [List.take_succ_cons, List.sum_cons, htypes, placeholderAfter_block o _ _ block hblock, ← Nat.add_assoc, ← ih]
      simp only [Nat.add_left_cancel_iff]
      congr 1
      omega
    · rw [List.take_zero, List.sum_nil]
      split
      · omega
      · rw [htypes, placeholderAfter_zero o _ i hne hblock, Nat.add_zero]

end Batch
end Aether
