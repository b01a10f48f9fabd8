import AetherRl.Mamba
/-!
# MambaDocuments — the packed documents

Increasing boundaries cut the sequence into documents.  Every token lies in one of them; its sequence index is that
document's place, and the convolution at it reads tokens of that document, one channel at a time.
-/
namespace Aether
namespace Mamba

open Checked Tensor Shape

/-! ## Boundaries -/

/-- The boundaries of a sequence of `S` tokens. -/
structure Spans (boundaries : List Nat) (S : Nat) : Prop where
  increasing : boundaries.Pairwise (· < ·)
  first : boundaries.head? = some 0
  last : boundaries.getLast? = some S

@[simp] theorem documents_pair (a b : Nat) (rest : List Nat) :
    documents (a :: b :: rest) = (a, b) :: documents (b :: rest) := rfl

@[simp] theorem documents_single (a : Nat) : documents [a] = [] := rfl

/-- A document is not empty and starts at or after the first boundary. -/
theorem documents_bounds : ∀ {a : Nat} {bs : List Nat}, (a :: bs).Pairwise (· < ·) → ∀ {p : Nat × Nat},
    p ∈ documents (a :: bs) → a ≤ p.1 ∧ p.1 < p.2
  | _, [], _, _, hp => by simp at hp
  | a, b :: rest, h, p, hp => by
    rw [List.pairwise_cons] at h
    have hab : a < b := h.1 b (List.mem_cons_self ..)
    rw [documents_pair, List.mem_cons] at hp
    rcases hp with rfl | hp
    · exact ⟨Nat.le_refl a, hab⟩
    · obtain ⟨hle, hlt⟩ := documents_bounds h.2 hp
      exact ⟨hab.le.trans hle, hlt⟩

/-- Every token from the first boundary on lies in a document. -/
theorem exists_document_from : ∀ {a : Nat} {bs : List Nat} {S t : Nat}, (a :: bs).getLast? = some S → a ≤ t → t < S →
    ∃ p ∈ documents (a :: bs), p.1 ≤ t ∧ t < p.2
  | a, [], S, t, hlast, hat, htS => by
    simp only [List.getLast?_singleton, Option.some.injEq] at hlast
    omega
  | a, b :: rest, S, t, hlast, hat, htS => by
    by_cases htb : t < b
    · exact ⟨(a, b), List.mem_cons_self .., hat, htb⟩
    · rw [List.getLast?_cons_cons] at hlast
      obtain ⟨p, hp, hin⟩ := exists_document_from hlast (Nat.le_of_not_lt htb) htS
      exact ⟨p, List.mem_cons_of_mem _ hp, hin⟩

/-- **Every token lies in a document.** -/
theorem exists_document {boundaries : List Nat} {S t : Nat} (hb : Spans boundaries S) (ht : t < S) :
    ∃ p ∈ documents boundaries, p.1 ≤ t ∧ t < p.2 := by
  obtain ⟨-, hfirst, hlast⟩ := hb
  cases boundaries with
  | nil => cases hfirst
  | cons a bs =>
    simp only [List.head?_cons, Option.some.injEq] at hfirst
    subst hfirst
    exact exists_document_from hlast (Nat.zero_le t) ht

/-- The documents make up the sequence. -/
theorem sum_documents : ∀ {a : Nat} {bs : List Nat} {S : Nat}, (a :: bs).Pairwise (· < ·) →
    (a :: bs).getLast? = some S → a ≤ S ∧ ((documents (a :: bs)).map fun p => p.2 - p.1).sum = S - a
  | a, [], S, _, hlast => by
    simp only [List.getLast?_singleton, Option.some.injEq] at hlast
    subst hlast
    simp
  | a, b :: rest, S, h, hlast => by
    rw [List.pairwise_cons] at h
    rw [List.getLast?_cons_cons] at hlast
    have hab : a < b := h.1 b (List.mem_cons_self ..)
    obtain ⟨hbS, hsum⟩ := sum_documents h.2 hlast
    refine ⟨hab.le.trans hbS, ?_⟩
    rw [documents_pair, List.map_cons, List.sum_cons, hsum]
    omega

/-- A document ends within the sequence. -/
theorem document_le : ∀ {a : Nat} {bs : List Nat} {S : Nat}, (a :: bs).Pairwise (· < ·) →
    (a :: bs).getLast? = some S → ∀ {p : Nat × Nat}, p ∈ documents (a :: bs) → p.2 ≤ S
  | _, [], _, _, _, _, hp => by simp at hp
  | a, b :: rest, S, h, hlast, p, hp => by
    rw [List.pairwise_cons] at h
    rw [List.getLast?_cons_cons] at hlast
    rw [documents_pair, List.mem_cons] at hp
    rcases hp with rfl | hp
    · exact (sum_documents h.2 hlast).1
    · exact document_le h.2 hlast hp

section
variable {α : Type} [Zero α]

/-- **What was computed for each document, side by side, is read in the token's document.** -/
theorem catGet_documents {d : Nat} {out : Nat × Nat → Tensor α} : ∀ {a : Nat} {bs : List Nat},
    (a :: bs).Pairwise (· < ·) → (∀ p ∈ documents (a :: bs), (out p).size d = p.2 - p.1) → ∀ {p : Nat × Nat} {t : Nat},
    p ∈ documents (a :: bs) → p.1 ≤ t → t < p.2 → ∀ idx,
    catGet d ((documents (a :: bs)).map out) (t - a) idx = (out p).get (idx.set d (t - p.1))
  | _, [], _, _, _, _, hp, _, _, _ => by simp at hp
  | a, b :: rest, h, hsize, p, t, hp, hlo, hhi, idx => by
    have hab := (documents_bounds h (List.mem_cons_self ..)).2
    rw [documents_pair, List.map_cons, catGet, hsize (a, b) (List.mem_cons_self ..)]
    rw [documents_pair, List.mem_cons] at hp
    rw [List.pairwise_cons] at h
    simp only at hab ⊢
    rcases hp with rfl | hp
    · rw [if_pos (by simp only at hlo hhi; omega)]
    · have hb := (documents_bounds h.2 hp).1
      have hsub : t - a - (b - a) = t - b := by omega
      rw [if_neg (by omega), hsub]
      exact catGet_documents h.2 (fun q hq => hsize q (List.mem_cons_of_mem _ hq)) hp hlo hhi idx

end

/-! ## The sequence index -/

/-- The writes of the documents from `a` on, numbered from `k` on, one after the other: before `a` nothing changes, and
document `i` holds `k + i`. -/
theorem writeSeqIdx_foldlM (boundaries : List Nat) : ∀ {a k : Nat} {bs : List Nat} {S : Nat} {t : Tensor Nat},
    (a :: bs).Pairwise (· < ·) → (a :: bs).getLast? = some S → t.shape = [S] →
    ∃ u, ((documents (a :: bs)).zipIdx k).foldlM (writeSeqIdx boundaries) t = .ok u ∧ u.shape = [S] ∧
      (∀ x < a, u.get [x] = t.get [x]) ∧
      ∀ i p, (documents (a :: bs))[i]? = some p → ∀ x, p.1 ≤ x → x < p.2 → u.get [x] = k + i
  | a, k, [], S, t, _, _, ht => ⟨t, rfl, ht, fun _ _ => rfl, fun i p hp => by simp at hp⟩
  | a, k, b :: rest, S, t, h, hlast, ht => by
    have hab := (documents_bounds h (List.mem_cons_self ..)).2
    have hbS := document_le h hlast (List.mem_cons_self ..)
    simp only at hab hbS
    rw [List.pairwise_cons] at h
    rw [List.getLast?_cons_cons] at hlast
    have hw : writeSeqIdx boundaries t ((a, b), k) = .ok (t.write 0 a (ofFn [b - a] fun _ => k)) := by
      simp only [writeSeqIdx, raiseUnless, hab, if_true]
      rfl
    have hshape : (t.write 0 a (ofFn [b - a] fun _ => k)).shape = [S] := ht
    have hget : ∀ x < S, (t.write 0 a (ofFn [b - a] fun _ => k)).get [x] = if a ≤ x ∧ x < b then k else t.get [x] := by
      intro x hx
      have hin : Inside t.shape [x] := by
        rw [ht]
        exact ⟨hx, trivial⟩
      rw [write, get_ofFn hin]
      by_cases hc : a ≤ x ∧ x < b
      · have hpart : Inside [b - a] [x - a] := ⟨by omega, trivial⟩
        rw [if_pos hc, if_pos ⟨hc.1, by show x < a + (b - a); omega⟩]
        exact get_ofFn hpart
      · rw [if_neg hc, if_neg]
        rintro ⟨hlo, hhi⟩
        have hhi : x < a + (b - a) := hhi
        have hlo : a ≤ x := hlo
        exact hc ⟨hlo, by omega⟩
    obtain ⟨u, hu, hus, hbefore, hdocs⟩ := writeSeqIdx_foldlM boundaries (k := k + 1) h.2 hlast hshape
    refine ⟨u, ?_, hus, fun x hx => ?_, fun i p hp x hlo hhi => ?_⟩
    · rw [documents_pair, List.zipIdx_cons, List.foldlM_cons, hw]
      exact hu
    · rw [hbefore x (hx.trans hab), hget x (by omega), if_neg (by omega)]
    · cases i with
      | zero =>
        simp only [documents_pair, List.getElem?_cons_zero, Option.some.injEq] at hp
        subst hp
        rw [hbefore x hhi, hget x (hhi.trans_le hbS), if_pos ⟨hlo, hhi⟩, Nat.add_zero]
      | succ i =>
        rw [hdocs i p (by simpa using hp) x hlo hhi]
        omega

/-- **The sequence index of a token is the place of its document.** -/
theorem buildSeqIdx_ok {fresh : List Nat → Tensor Nat} (hfresh : ∀ s, (fresh s).shape = s) {boundaries : List Nat}
    {S : Nat} (hb : Spans boundaries S) :
    ∃ seqIdx, buildSeqIdx fresh boundaries S = .ok seqIdx ∧ seqIdx.shape = [1, S] ∧
      ∀ i p, (documents boundaries)[i]? = some p → ∀ x, p.1 ≤ x → x < p.2 → seqIdx.get [0, x] = i := by
  obtain ⟨hinc, hfirst, hlast⟩ := hb
  cases boundaries with
  | nil => cases hfirst
  | cons a bs =>
    simp only [List.head?_cons, Option.some.injEq] at hfirst
    subst hfirst
    obtain ⟨u, hu, hus, -, hdocs⟩ := writeSeqIdx_foldlM (0 :: bs) (k := 0) hinc hlast (hfresh [S])
    refine ⟨u.reshape [1, S], ?_, rfl, fun i p hp x hlo hhi => ?_⟩
    · unfold buildSeqIdx
      rw [hlast]
      simp only [List.head?_cons, raiseUnless, and_self, if_true, hu]
      rfl
    · have hx : x < S := hhi.trans_le (document_le hinc hlast (List.mem_of_getElem? hp))
      have hflat : Inside [S] [x] := ⟨hx, trivial⟩
      have hrow : Inside [1, S] [0, x] := ⟨Nat.one_pos, hx, trivial⟩
      rw [get_reshape hus hflat hrow (by simp), hdocs i p hp x hlo hhi, Nat.zero_add]

/-! ## The convolution -/

section
variable {K : Type} [Field K] {S C : Nat}

/-- One channel of the convolution at token `t` of the document that starts at `start`: `width` taps, the last of them
at `t`, and none before the document. -/
def convTap (width start : Nat) (taps : Nat → K) (bias : K) (x : Nat → K) (t : Nat) : K :=
  bias + ((List.range width).map fun k => taps k * if width - 1 ≤ t - start + k then x (t + k - (width - 1)) else 0).sum

/-- **A tap reads its own document, up to its token.** -/
theorem convTap_congr {width start t : Nat} (hs : start ≤ t) (taps : Nat → K) (bias : K) {x y : Nat → K}
    (h : ∀ i, start ≤ i → i ≤ t → x i = y i) : convTap width start taps bias x t = convTap width start taps bias y t := by
  unfold convTap
  congr 2
  refine List.map_congr_left fun k hk => ?_
  replace hk := List.mem_range.1 hk
  by_cases hin : width - 1 ≤ t - start + k
  · rw [if_pos hin, if_pos hin, h _ (by omega) (by omega)]
  · rw [if_neg hin, if_neg hin]

/-- The taps are those of the kernel's width. -/
theorem convTap_taps {width : Nat} {taps taps' : Nat → K} (h : ∀ k < width, taps k = taps' k) (start : Nat) (bias : K)
    (x : Nat → K) (t : Nat) : convTap width start taps bias x t = convTap width start taps' bias x t := by
  unfold convTap
  congr 2
  refine List.map_congr_left fun k hk => ?_
  rw [h k (List.mem_range.1 hk)]

/-- The bias of a channel. -/
def biasAt (bias : Option (Tensor K)) (c : Nat) : K := bias.elim 0 fun bias => bias.get [c]

variable {t : Tensor K}

theorem shape_turn {a b c : Nat} (ht : t.shape = [a, b, c]) : (t.permute [0, 2, 1]).shape = [a, c, b] := by
  simp only [permute, shape_ofFn, List.map_cons, List.map_nil, size, ht]
  rfl

theorem get_turn {a b c : Nat} (ht : t.shape = [a, b, c]) {i j k : Nat} (hi : i < a) (hj : j < b) (hk : k < c) :
    (t.permute [0, 2, 1]).get [i, k, j] = t.get [i, j, k] :=
  get_permuted (shape_turn ht) ⟨hi, hk, hj, trivial⟩ rfl

/-- What the convolution computes for one document. -/
def convDocument (inputs weight : Tensor K) (bias : Option (Tensor K)) (p : Nat × Nat) : Tensor K :=
  (conv1d (inputs.narrow 2 p.1 p.2) weight bias (weight.size 2 - 1)).narrow 2 0 (p.2 - p.1)

variable {h weight : Tensor K} {bias : Option (Tensor K)} {width : Nat} {p : Nat × Nat}

theorem shape_document (hh : h.shape = [1, S, C]) (hle : p.2 ≤ S) :
    ((h.permute [0, 2, 1]).narrow 2 p.1 p.2).shape = [1, C, p.2 - p.1] := by
  rw [narrow, shape_ofFn, size_of_shape (shape_turn hh), shape_turn hh]
  show [1, C, min p.2 S - p.1] = _
  rw [Nat.min_eq_left hle]

/-- A token of the document. -/
theorem get_document (hh : h.shape = [1, S, C]) (hle : p.2 ≤ S) {c i : Nat} (hc : c < C) (hi : i < p.2 - p.1) :
    ((h.permute [0, 2, 1]).narrow 2 p.1 p.2).get [0, c, i] = h.get [0, p.1 + i, c] := by
  have hout : Inside ((h.permute [0, 2, 1]).narrow 2 p.1 p.2).shape [0, c, i] := by
    rw [shape_document hh hle]
    exact ⟨Nat.one_pos, hc, hi, trivial⟩
  rw [narrow, shape_ofFn] at hout
  rw [narrow, get_ofFn hout]
  show (h.permute [0, 2, 1]).get [0, c, i + p.1] = _
  rw [get_turn hh Nat.one_pos (by omega) hc, Nat.add_comm]

theorem shape_convDocument (hh : h.shape = [1, S, C]) (hw : weight.shape = [C, 1, width]) (hle : p.2 ≤ S) :
    (convDocument (h.permute [0, 2, 1]) weight bias p).shape = [1, C, p.2 - p.1] := by
  have hwidth : weight.size 2 = width := size_of_shape hw 2
  have hlen := shape_document hh hle
  rw [convDocument, narrow, shape_ofFn, conv1d, size_of_shape (shape_ofFn _ _), shape_ofFn, size_of_shape hlen,
    size_of_shape hw, size_of_shape hlen, hwidth]
  show [1, C, min (p.2 - p.1) (p.2 - p.1 + 2 * (width - 1) - (width - 1)) - 0] = _
  rw [Nat.min_eq_left (by omega), Nat.sub_zero]

theorem get_convDocument (hh : h.shape = [1, S, C]) (hw : weight.shape = [C, 1, width]) (hle : p.2 ≤ S) {c j : Nat}
    (hc : c < C) (hj : j < p.2 - p.1) :
    (convDocument (h.permute [0, 2, 1]) weight bias p).get [0, c, j] =
      convTap width p.1 (fun k => weight.get [c, 0, k]) (biasAt bias c) (fun i => h.get [0, i, c]) (p.1 + j) := by
  have hwidth : weight.size 2 = width := size_of_shape hw 2
  have hlen := shape_document hh hle
  have hout : Inside (convDocument (h.permute [0, 2, 1]) weight bias p).shape [0, c, j] := by
    rw [shape_convDocument hh hw hle]
    exact ⟨Nat.one_pos, hc, hj, trivial⟩
  have hconv : Inside [1, C, p.2 - p.1 + 2 * (width - 1) - (width - 1)] [0, c, j] :=
    ⟨Nat.one_pos, hc, by omega, trivial⟩
  rw [convDocument, narrow, shape_ofFn] at hout
  rw [convDocument, narrow, get_ofFn hout]
  show (conv1d _ weight bias (weight.size 2 - 1)).get [0, c, j + 0] = _
  rw [conv1d, size_of_shape hlen, size_of_shape hw, size_of_shape hlen, hwidth, Nat.add_zero]
  simp only [List.getD_cons_zero, List.getD_cons_succ]
  rw [get_ofFn hconv]
  show biasAt bias c + _ = biasAt bias c + _
  congr 2
  refine List.map_congr_left fun k hk => ?_
  replace hk := List.mem_range.1 hk
  have hoff : p.1 + j - p.1 = j := Nat.add_sub_cancel_left ..
  rw [hoff]
  by_cases hin : width - 1 ≤ j + k
  · have hsum : p.1 + (j + k - (width - 1)) = p.1 + j + k - (width - 1) := by omega
    rw [if_pos ⟨hin, by omega⟩, if_pos hin, get_document hh hle hc (by omega), hsum]
  · rw [if_neg fun hc => hin hc.1, if_neg hin]

/-- **The convolution of a token is that of its channel, within its document.** -/
theorem causalConv1dVarlen_ok {boundaries : List Nat} (hb : Spans boundaries S) (hS : 0 < S)
    (hh : h.shape = [1, S, C]) (hw : weight.shape = [C, 1, width]) (bias : Option (Tensor K)) :
    ∃ out, causalConv1dVarlen h weight bias boundaries = .ok out ∧ out.shape = [1, S, C] ∧
      ∀ p ∈ documents boundaries, ∀ t, p.1 ≤ t → t < p.2 → ∀ c < C, out.get [0, t, c] =
        convTap width p.1 (fun k => weight.get [c, 0, k]) (biasAt bias c) (fun i => h.get [0, i, c]) t := by
  obtain ⟨hinc, hfirst, hlast⟩ := hb
  have hbatch : h.size 0 = 1 := size_of_shape hh 0
  cases boundaries with
  | nil => cases hfirst
  | cons a bs =>
    simp only [List.head?_cons, Option.some.injEq] at hfirst
    subst hfirst
    have hle : ∀ p ∈ documents (0 :: bs), p.2 ≤ S := fun p hp => document_le hinc hlast hp
    have hshape : ∀ p ∈ documents (0 :: bs),
        (convDocument (h.permute [0, 2, 1]) weight bias p).shape = [1, C, p.2 - p.1] :=
      fun p hp => shape_convDocument hh hw (hle p hp)
    have hsize : ∀ p ∈ documents (0 :: bs), (convDocument (h.permute [0, 2, 1]) weight bias p).size 2 = p.2 - p.1 :=
      fun p hp => size_of_shape (hshape p hp) 2
    obtain ⟨p₀, hp₀, -⟩ := exists_document_from hlast (Nat.zero_le 0) hS
    have hne : (documents (0 :: bs)).length ≠ 0 := Nat.ne_of_gt (List.length_pos_of_mem hp₀)
    have hcat : (cat 2 ((documents (0 :: bs)).map (convDocument (h.permute [0, 2, 1]) weight bias))).shape = [1, C, S] := by
      have hsum : (((documents (0 :: bs)).map (convDocument (h.permute [0, 2, 1]) weight bias)).map (·.size 2)).sum = S := by
        rw [List.map_map, ← Nat.sub_zero S, ← (sum_documents hinc hlast).2]
        exact congrArg List.sum (List.map_congr_left hsize)
      rw [cat, shape_ofFn, hsum]
      cases hdocs : documents (0 :: bs) with
      | nil => rw [hdocs] at hp₀; simp at hp₀
      | cons p ps =>
        rw [List.map_cons, List.headD_cons, hshape p (by rw [hdocs]; exact List.mem_cons_self ..)]
        rfl
    refine ⟨_, ?_, shape_turn hcat, fun p hp t hlo hhi c hc => ?_⟩
    · unfold causalConv1dVarlen
      simp only [raiseUnless, hbatch, if_true, List.length_map, hne, ne_eq, not_false_eq_true]
      rfl
    · have htS : t < S := hhi.trans_le (hle p hp)
      have hin : Inside (cat 2 ((documents (0 :: bs)).map (convDocument (h.permute [0, 2, 1]) weight bias))).shape
          [0, c, t] := by
        rw [hcat]
        exact ⟨Nat.one_pos, hc, htS, trivial⟩
      rw [get_turn hcat Nat.one_pos hc htS]
      rw [cat, shape_ofFn] at hin
      rw [cat, get_ofFn hin]
      have hpick := catGet_documents hinc hsize hp hlo hhi [0, c, t]
      rw [Nat.sub_zero] at hpick
      refine hpick.trans ?_
      show (convDocument _ weight bias p).get [0, c, t - p.1] = _
      rw [get_convDocument hh hw (hle p hp) hc (by omega), Nat.add_sub_cancel' hlo]

/-- An empty sequence has no document to convolve. -/
theorem causalConv1dVarlen_empty {boundaries : List Nat} (hb : Spans boundaries 0) (hh : h.size 0 = 1) :
    causalConv1dVarlen h weight bias boundaries = .error "torch.cat(): expected a non-empty list of Tensors" := by
  obtain ⟨hinc, hfirst, hlast⟩ := hb
  match boundaries, hfirst with
  | [a], _ =>
    unfold causalConv1dVarlen
    simp only [raiseUnless, hh, if_true, documents_single]
    rfl
  | a :: b :: rest, _ =>
    have hlt := (documents_bounds hinc (List.mem_cons_self ..)).2
    have hle := document_le hinc hlast (List.mem_cons_self ..)
    simp only at hlt hle
    omega

end

end Mamba
end Aether
