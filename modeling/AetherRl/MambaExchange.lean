import AetherRl.Mamba
/-!
# MambaExchange — rows for features and back

The exchange of `[B, S, D]`: a rank that sends its rows gets its features of every row, and the other way round.
-/
namespace Aether
namespace Mamba

open Checked Tensor Shape

variable {K : Type} [Field K]

section
variable {n b S w r : Nat} {t : Tensor K}

/-- The `r`-th of `n` equal groups of features. -/
abbrev features (n r : Nat) (t : Tensor K) : Tensor K := piece 2 n r t

theorem shape_features {s : List Nat} (ht : t.shape = b :: S :: n * w :: s) (hr : r < n) :
    (features n r t).shape = b :: S :: w :: s := by
  have hn : 0 < n := Nat.zero_lt_of_lt hr
  have hle : (r + 1) * w ≤ n * w := Nat.mul_le_mul_right w hr
  have hsub : (r + 1) * w - r * w = w := by
    rw [Nat.succ_mul]
    omega
  rw [features, piece, narrow, shape_ofFn, size_of_shape ht, ht]
  show b :: S :: (min ((r + 1) * (n * w / n)) (n * w) - r * (n * w / n)) :: s = _
  rw [Nat.mul_div_cancel_left w hn, Nat.min_eq_left hle, hsub]

theorem get_features {s : List Nat} (ht : t.shape = b :: S :: n * w :: s) (hr : r < n) {i x e : Nat} {idx : List Nat}
    (hi : i < b) (hx : x < S) (he : e < w) (hin : Inside s idx) :
    (features n r t).get (i :: x :: e :: idx) = t.get (i :: x :: (r * w + e) :: idx) := by
  have hn : 0 < n := Nat.zero_lt_of_lt hr
  have hout : Inside (features n r t).shape (i :: x :: e :: idx) := by
    rw [shape_features ht hr]
    exact ⟨hi, hx, he, hin⟩
  rw [features, piece, narrow, shape_ofFn] at hout
  rw [features, piece, narrow, get_ofFn hout, size_of_shape ht]
  show t.get (i :: x :: (e + r * (n * w / n)) :: idx) = _
  rw [Nat.mul_div_cancel_left w hn, Nat.add_comm]

end

section
variable {n b S w : Nat} {t : Tensor K}

/-- What a rank with rows `t` sends. -/
def sentFeatures (n b S w : Nat) (t : Tensor K) : Tensor K := (t.reshape [b, S, n, w]).permute [2, 0, 1, 3]

theorem get_sentFeatures (ht : t.shape = [b, S, n * w]) {r i x e : Nat} (hr : r < n) (hi : i < b) (hx : x < S)
    (he : e < w) : (sentFeatures n b S w t).get [r, i, x, e] = t.get [i, x, r * w + e] := by
  have hin : Inside [n, b, S, w] [r, i, x, e] := ⟨hr, hi, hx, he, trivial⟩
  have hsplit : Inside [b, S, n, w] [i, x, r, e] := ⟨hi, hx, hr, he, trivial⟩
  have hsrc : Inside [b, S, n * w] [i, x, r * w + e] := ⟨hi, hx, place_lt hr he, trivial⟩
  have hravel : ravel [b, S, n, w] [i, x, r, e] = ravel [b, S, n * w] [i, x, r * w + e] := by
    simp only [ravel_cons, ravel_nil, List.prod_cons, List.prod_nil]
    ring
  have hperm : (sentFeatures n b S w t).get [r, i, x, e] = (t.reshape [b, S, n, w]).get [i, x, r, e] :=
    get_permuted rfl hin rfl
  rw [hperm, get_reshape ht hsrc hsplit hravel]

/-- **Rows for features.** -/
theorem allToAllSeqToHead_eq (hn : 0 < n) (ht : t.shape = [b, n * S, n * w]) :
    allToAllSeqToHead n (shardsAt 1 n t) = shardsAt 2 n t := by
  have hrow : ∀ i < n, (piece 1 n i t).shape = [b, S, n * w] := fun i hi => shape_heads ht hi
  have hsent : (shardsAt 1 n t).map (fun x => (x.reshape [x.size 0, x.size 1, n, x.size 2 / n]).permute [2, 0, 1, 3]) =
      (List.range n).map fun i => sentFeatures n b S w (piece 1 n i t) := by
    simp only [shardsAt, List.map_map]
    refine List.map_congr_left fun i hi => ?_
    have hs := hrow i (List.mem_range.1 hi)
    show ((piece 1 n i t).reshape [_, _, n, _]).permute [2, 0, 1, 3] = _
    rw [size_of_shape hs, size_of_shape hs, size_of_shape hs]
    simp only [List.getD_cons_zero, List.getD_cons_succ]
    rw [Nat.mul_div_cancel_left w hn, sentFeatures]
  unfold allToAllSeqToHead
  dsimp only
  rw [hsent, allToAllSingle_range, shardsAt, List.zipWith_map, List.zipWith_self]
  refine List.map_congr_left fun r hr => ?_
  replace hr := List.mem_range.1 hr
  rw [size_of_shape (hrow r hr), size_of_shape (hrow r hr), size_of_shape (hrow r hr)]
  simp only [List.getD_cons_zero, List.getD_cons_succ]
  rw [Nat.mul_div_cancel_left w hn]
  have hslots : ∀ i < n, (sentFeatures n b S w (piece 1 n i t)).shape = [n, b, S, w] := fun _ _ => rfl
  refine ext₃ (shape_reshape _ _) (shape_features ht hr) fun i hi x hx e he => ?_
  have hS : 0 < S := Nat.pos_of_mul_pos_left (Nat.zero_lt_of_lt hx)
  have hc : x / S < n := Nat.div_lt_of_lt_mul (Nat.mul_comm n S ▸ hx)
  have hs : x % S < S := Nat.mod_lt x hS
  have hlow : Inside [b, S, w] [i, x % S, e] := ⟨hi, hs, he, trivial⟩
  have hback : Inside [b, n, S, w] [i, x / S, x % S, e] := ⟨hi, hc, hs, he, trivial⟩
  have hout : Inside [b, n * S, w] [i, x, e] := ⟨hi, hx, he, trivial⟩
  have hfeature : Inside [n * w] [r * w + e] := ⟨place_lt hr he, trivial⟩
  have hravel : ravel [b, n * S, w] [i, x, e] = ravel [b, n, S, w] [i, x / S, x % S, e] := by
    simp only [ravel_cons, ravel_nil, List.prod_cons, List.prod_nil]
    conv => lhs; rw [← Nat.div_add_mod' x S]
    ring
  have hnil : Inside [] [] := trivial
  have hslot := shape_slots hslots hr
  rw [get_reshape (shape_permute hslot) hback hout hravel, get_permute hslot hc hi hs he, get_slots hslots hr hc hlow,
    get_sentFeatures (hrow _ hc) hr hi hs he, get_piece ht hc hi hs hfeature, Nat.div_add_mod',
    get_features ht hr hi hx he hnil]

/-- **Features for rows.** -/
theorem allToAllHeadToSeq_eq (hn : 0 < n) (ht : t.shape = [b, n * S, n * w]) :
    allToAllHeadToSeq n (shardsAt 2 n t) = shardsAt 1 n t := by
  have hfeat : ∀ i < n, (features n i t).shape = [b, n * S, w] := fun i hi => shape_features ht hi
  have hsent : (shardsAt 2 n t).map (fun x => (x.reshape [x.size 0, n, x.size 1 / n, x.size 2]).permute [1, 0, 2, 3]) =
      (List.range n).map fun i => ((features n i t).reshape [b, n, S, w]).permute [1, 0, 2, 3] := by
    simp only [shardsAt, List.map_map]
    refine List.map_congr_left fun i hi => ?_
    have hs := hfeat i (List.mem_range.1 hi)
    show ((features n i t).reshape [_, n, _, _]).permute [1, 0, 2, 3] = _
    rw [size_of_shape hs, size_of_shape hs, size_of_shape hs]
    simp only [List.getD_cons_zero, List.getD_cons_succ]
    rw [Nat.mul_div_cancel_left S hn]
  unfold allToAllHeadToSeq
  dsimp only
  rw [hsent, allToAllSingle_range, shardsAt, List.zipWith_map, List.zipWith_self]
  refine List.map_congr_left fun r hr => ?_
  replace hr := List.mem_range.1 hr
  rw [size_of_shape (hfeat r hr), size_of_shape (hfeat r hr), size_of_shape (hfeat r hr)]
  simp only [List.getD_cons_zero, List.getD_cons_succ]
  rw [Nat.mul_div_cancel_left S hn]
  have hslots : ∀ i < n, (((features n i t).reshape [b, n, S, w]).permute [1, 0, 2, 3]).shape = [n, b, S, w] :=
    fun _ _ => rfl
  refine ext₃ (shape_reshape _ _) (shape_heads ht hr) fun i hi x hx e he => ?_
  have hw : 0 < w := Nat.pos_of_mul_pos_left (Nat.zero_lt_of_lt he)
  have hc : e / w < n := Nat.div_lt_of_lt_mul (Nat.mul_comm n w ▸ he)
  have hm : e % w < w := Nat.mod_lt e hw
  have hlow : Inside [b, S, w] [i, x, e % w] := ⟨hi, hx, hm, trivial⟩
  have hback : Inside [b, S, n, w] [i, x, e / w, e % w] := ⟨hi, hx, hc, hm, trivial⟩
  have hout : Inside [b, S, n * w] [i, x, e] := ⟨hi, hx, he, trivial⟩
  have hfeature : Inside [n * w] [e] := ⟨he, trivial⟩
  have hravel : ravel [b, S, n * w] [i, x, e] = ravel [b, S, n, w] [i, x, e / w, e % w] := by
    simp only [ravel_cons, ravel_nil, List.prod_cons, List.prod_nil]
    conv => lhs; rw [← Nat.div_add_mod' e w]
    ring
  have hsrc : Inside [b, n * S, w] [i, r * S + x, e % w] := ⟨hi, place_lt hr hx, hm, trivial⟩
  have hsrcOut : Inside [b, n, S, w] [i, r, x, e % w] := ⟨hi, hr, hx, hm, trivial⟩
  have hsrcRavel : ravel [b, n, S, w] [i, r, x, e % w] = ravel [b, n * S, w] [i, r * S + x, e % w] := by
    simp only [ravel_cons, ravel_nil, List.prod_cons, List.prod_nil]
    ring
  have hnil : Inside [] [] := trivial
  have hslot := shape_slots hslots hr
  have hpermShape : [1, 2, 0, 3].map (cat 0 ((List.range n).map fun i =>
      chunk n r (((features n i t).reshape [b, n, S, w]).permute [1, 0, 2, 3]))).size = [b, S, n, w] := by
    simp only [List.map_cons, List.map_nil, size, hslot]
    rfl
  rw [get_reshape hpermShape hback hout hravel, get_permuted hpermShape hback rfl]
  show (cat 0 _).get [e / w, i, x, e % w] = _
  rw [get_slots hslots hr hc hlow, get_permute rfl hi hr hx hm, get_reshape (hfeat _ hc) hsrc hsrcOut hsrcRavel,
    get_features ht hc hi (place_lt hr hx) hm hnil, Nat.div_add_mod', get_piece ht hr hi hx hfeature]

/-- Pieces of one shape, side by side in dimension one, and their shards. -/
theorem shardsAt_cat {f : Nat → Tensor K} (hn : 0 < n) (hf : ∀ r < n, (f r).shape = [b, S, w]) :
    (cat 1 ((List.range n).map f)).shape = [b, n * S, w] ∧
      shardsAt 1 n (cat 1 ((List.range n).map f)) = (List.range n).map f := by
  have hsize : ∀ r < n, (f r).size 1 = S := fun r hr => size_of_shape (hf r hr) 1
  have hshape : (cat 1 ((List.range n).map f)).shape = [b, n * S, w] := by
    rw [cat, shape_ofFn, sum_size hsize, head_range hn, hf 0 hn]
    rfl
  refine ⟨hshape, List.map_congr_left fun r hr => ?_⟩
  replace hr := List.mem_range.1 hr
  refine ext₃ (shape_heads hshape hr) (hf r hr) fun i hi x hx e he => ?_
  have hin : Inside [w] [e] := ⟨he, trivial⟩
  have hplace : Inside (cat 1 ((List.range n).map f)).shape [i, r * S + x, e] := by
    rw [hshape]
    exact ⟨hi, place_lt hr hx, hin⟩
  rw [get_piece hshape hr hi hx hin]
  rw [cat, shape_ofFn] at hplace
  rw [cat, get_ofFn hplace]
  exact catGet_range f hsize hr hx _

/-- **Back and forth is the identity on every rank.** -/
theorem exchange_roundtrip {xs : List (Tensor K)} (hn : 0 < n) (hlen : xs.length = n)
    (hxs : ∀ x ∈ xs, x.shape = [b, S, n * w]) :
    headToSeqParallel n (seqToHeadParallel n xs) = xs := by
  have hrange : xs = (List.range n).map fun r => xs.getD r empty := by
    refine List.ext_getElem (by simp [hlen]) fun i hi _ => ?_
    simp [List.getD_eq_getElem?_getD, List.getElem?_eq_getElem hi]
  have hf : ∀ r < n, (xs.getD r empty).shape = [b, S, n * w] := by
    intro r hr
    rw [List.getD_eq_getElem?_getD, List.getElem?_eq_getElem (hlen ▸ hr)]
    exact hxs _ (List.getElem_mem _)
  obtain ⟨hshape, hshards⟩ := shardsAt_cat hn hf
  rw [← hrange] at hshape hshards
  unfold seqToHeadParallel headToSeqParallel
  rw [← hshards, allToAllSeqToHead_eq hn hshape, allToAllHeadToSeq_eq hn hshape]

end

end Mamba
end Aether
