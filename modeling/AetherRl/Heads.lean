import AetherRl.Collective
/-!
# Heads — tensors of rows, heads and elements

`[S, H, D]` holds `S` rows of `H` heads of `D` elements.  An attention that computes each query head from its KV head
computes a group of heads from that group: what a split of the heads needs.
-/
namespace Tensor

open Shape

variable {α : Type} [Zero α]

/-- The `r`-th of `n` equal groups of heads. -/
abbrev heads (n r : Nat) (t : Tensor α) : Tensor α := piece 1 n r t

section
variable {n S h D r : Nat} {t : Tensor α}

theorem shape_heads {a : Nat} {s : List Nat} (ht : t.shape = a :: n * h :: s) (hr : r < n) :
    (heads n r t).shape = a :: h :: s := by
  have hn : 0 < n := Nat.zero_lt_of_lt hr
  have hle : (r + 1) * h ≤ n * h := Nat.mul_le_mul_right h hr
  have hsub : (r + 1) * h - r * h = h := by
    rw [Nat.succ_mul]
    omega
  rw [heads, piece, narrow, shape_ofFn, size_of_shape ht, ht]
  show a :: (min ((r + 1) * (n * h / n)) (n * h) - r * (n * h / n)) :: s = a :: h :: s
  rw [Nat.mul_div_cancel_left h hn, Nat.min_eq_left hle, hsub]

theorem get_piece {a : Nat} {s : List Nat} (ht : t.shape = a :: n * h :: s) (hr : r < n) {i j : Nat} {idx : List Nat}
    (hi : i < a) (hj : j < h) (hin : Inside s idx) :
    (heads n r t).get (i :: j :: idx) = t.get (i :: (r * h + j) :: idx) := by
  have hn : 0 < n := Nat.zero_lt_of_lt hr
  have hout : Inside (heads n r t).shape (i :: j :: idx) := by
    rw [shape_heads ht hr]
    exact ⟨hi, hj, hin⟩
  rw [heads, piece, narrow, shape_ofFn] at hout
  rw [heads, piece, narrow, get_ofFn hout, size_of_shape ht]
  show t.get (i :: (j + r * (n * h / n)) :: idx) = _
  rw [Nat.mul_div_cancel_left h hn, Nat.add_comm]

theorem get_heads (ht : t.shape = [S, n * h, D]) (hr : r < n) {i j d : Nat} (hi : i < S) (hj : j < h) (hd : d < D) :
    (heads n r t).get [i, j, d] = t.get [i, r * h + j, d] := by
  have hin : Inside [D] [d] := ⟨hd, trivial⟩
  exact get_piece ht hr hi hj hin

/-- A slice of whole groups is a group. -/
theorem narrow_heads {a : Nat} {s : List Nat} (ht : t.shape = a :: n * h :: s) (hn : 0 < n) :
    t.narrow 1 (r * h) ((r + 1) * h) = heads n r t := by
  have hsize : t.size 1 / n = h := by
    rw [size_of_shape ht]
    exact Nat.mul_div_cancel_left h hn
  rw [heads, piece, hsize]

/-- A place among `n` groups of `m`. -/
theorem place_lt {m x : Nat} (hr : r < n) (hx : x < m) : r * m + x < n * m := by
  calc r * m + x < r * m + m := Nat.add_lt_add_left hx _
    _ = (r + 1) * m := (Nat.succ_mul r m).symm
    _ ≤ n * m := Nat.mul_le_mul_right m hr

end

section
variable {n S H h D r : Nat} {t : Tensor α}

/-! ## Rows of a group of heads -/

theorem shape_rows {a : Nat} {s : List Nat} (ht : t.shape = a :: s) (start stop : Nat) :
    (t.narrow 0 start stop).shape = (min stop a - start) :: s := by
  rw [narrow, shape_ofFn, size_of_cons ht, ht]
  rfl

theorem get_rows {a : Nat} {s : List Nat} (ht : t.shape = a :: s) {start stop i : Nat} {idx : List Nat}
    (hi : i < min stop a - start) (hin : Inside s idx) :
    (t.narrow 0 start stop).get (i :: idx) = t.get ((start + i) :: idx) := by
  have hout : Inside (t.narrow 0 start stop).shape (i :: idx) := by
    rw [shape_rows ht]
    exact ⟨hi, hin⟩
  rw [narrow, shape_ofFn] at hout
  rw [narrow, get_ofFn hout]
  show t.get ((i + start) :: idx) = _
  rw [Nat.add_comm]

/-- **Rows of a group are the group of the rows.** -/
theorem rows_heads (ht : t.shape = [S, n * h, D]) (hr : r < n) (start stop : Nat) :
    (heads n r t).narrow 0 start stop = heads n r (t.narrow 0 start stop) := by
  have hheads := shape_heads ht hr
  have hrows := shape_rows ht start stop
  refine ext₃ (shape_rows hheads start stop) (shape_heads hrows hr) fun i hi j hj d hd => ?_
  have hlow : Inside [h, D] [j, d] := ⟨hj, hd, trivial⟩
  have hwide : Inside [n * h, D] [r * h + j, d] := ⟨place_lt hr hj, hd, trivial⟩
  have hrow : start + i < S := by omega
  rw [get_rows hheads hi hlow, get_heads ht hr hrow hj hd, get_heads hrows hr hi hj hd, get_rows ht hi hwide]

/-- **A gather of a group is the group of the gather.** -/
theorem cat_heads_rows {f : Nat → Tensor α} {w : Nat} (hw : 0 < w) (hf : ∀ i < w, (f i).shape = [S, n * h, D]) (hr : r < n) :
    cat 0 ((List.range w).map fun i => heads n r (f i)) = heads n r (cat 0 ((List.range w).map f)) := by
  have hpiece : ∀ i < w, (heads n r (f i)).shape = [S, h, D] := fun i hi => shape_heads (hf i hi) hr
  have hcat := shape_cat hw hf
  refine ext₃ (shape_cat hw hpiece) (shape_heads hcat hr) fun x hx j hj d hd => ?_
  have hS : 0 < S := Nat.pos_of_mul_pos_left (Nat.zero_lt_of_lt hx)
  have hi : x / S < w := Nat.div_lt_of_lt_mul (Nat.mul_comm w S ▸ hx)
  have hs : x % S < S := Nat.mod_lt x hS
  have hlow : Inside [h, D] [j, d] := ⟨hj, hd, trivial⟩
  have hwide : Inside [n * h, D] [r * h + j, d] := ⟨place_lt hr hj, hd, trivial⟩
  have hlhs := get_cat hpiece hi hs hlow
  have hrhs := get_cat hf hi hs hwide
  rw [Nat.div_add_mod'] at hlhs hrhs
  rw [hlhs, get_heads (hf _ hi) hr hs hj hd, get_heads hcat hr hx hj hd, hrhs]

/-- **The groups of a tensor, side by side, are the tensor.** -/
theorem cat_heads (hn : 0 < n) (ht : t.shape = [S, n * h, D]) : cat 1 ((List.range n).map fun r => heads n r t) = t := by
  have hpiece : ∀ r < n, (heads n r t).shape = [S, h, D] := fun r hr => shape_heads ht hr
  have hsize : ∀ r < n, (heads n r t).size 1 = h := fun r hr => size_of_shape (hpiece r hr) 1
  have hshape : (cat 1 ((List.range n).map fun r => heads n r t)).shape = [S, n * h, D] := by
    rw [cat, shape_ofFn, sum_size hsize, head_range hn, hpiece 0 hn]
    rfl
  refine ext₃ hshape ht fun i hi j hj d hd => ?_
  have hh : 0 < h := Nat.pos_of_mul_pos_left (Nat.zero_lt_of_lt hj)
  have hr : j / h < n := Nat.div_lt_of_lt_mul (Nat.mul_comm n h ▸ hj)
  have hm : j % h < h := Nat.mod_lt j hh
  have hin : Inside (cat 1 ((List.range n).map fun r => heads n r t)).shape [i, j, d] := by
    rw [hshape]
    exact ⟨hi, hj, hd, trivial⟩
  have hpick := catGet_range (fun r => heads n r t) hsize hr hm [i, j, d]
  rw [Nat.div_add_mod'] at hpick
  rw [cat, shape_ofFn] at hin
  rw [cat, get_ofFn hin]
  refine hpick.trans ?_
  show (heads n (j / h) t).get [i, j % h, d] = _
  rw [get_heads ht hr hi hm hd, Nat.div_add_mod']

end

/-! ## One head at a time -/

/-- The attention computes each query head from its KV head, independently of the other heads: query heads are grouped
contiguously, `hq / hk` to a KV head. -/
def Headwise (attend : Tensor α → Tensor α → Tensor α → Tensor α) : Prop :=
  ∃ head : Tensor α → Tensor α → Tensor α → Tensor α,
    ∀ (q k v : Tensor α) (sq hq d sk hk dv : Nat), q.shape = [sq, hq, d] → k.shape = [sk, hk, d] →
      v.shape = [sk, hk, dv] → hk ∣ hq →
      (attend q k v).shape = [sq, hq, dv] ∧
      ∀ j < hq, (attend q k v).select 1 j =
        head (q.select 1 j) (k.select 1 (j / (hq / hk))) (v.select 1 (j / (hq / hk)))

theorem Headwise.shape {attend : Tensor α → Tensor α → Tensor α → Tensor α} (ha : Headwise attend) {q k v : Tensor α}
    {sq hq d sk hk dv : Nat} (hqs : q.shape = [sq, hq, d]) (hks : k.shape = [sk, hk, d]) (hvs : v.shape = [sk, hk, dv])
    (hdvd : hk ∣ hq) : (attend q k v).shape = [sq, hq, dv] := by
  obtain ⟨head, ha⟩ := ha
  exact (ha q k v sq hq d sk hk dv hqs hks hvs hdvd).1

section
variable {S H D j : Nat} {t u : Tensor α}

theorem shape_select (ht : t.shape = [S, H, D]) : (t.select 1 j).shape = [S, D] := by
  rw [select, shape_ofFn, ht]
  rfl

theorem get_select (ht : t.shape = [S, H, D]) (i d : Nat) : (t.select 1 j).get [i, d] = t.get [i, j, d] := by
  by_cases hin : i < S ∧ d < D
  · refine get_ofFn ?_
    rw [ht]
    exact ⟨hin.1, hin.2, trivial⟩
  · rw [(t.select 1 j).outside _ (by rw [shape_select ht]; exact fun h => hin ⟨h.1, h.2.1⟩),
      t.outside _ (by rw [ht]; exact fun h => hin ⟨h.1, h.2.2.1⟩)]

/-- **Tensors with the same heads are equal.** -/
theorem ext_heads (ht : t.shape = [S, H, D]) (hu : u.shape = [S, H, D]) (h : ∀ j < H, t.select 1 j = u.select 1 j) :
    t = u := by
  refine ext₃ ht hu fun i hi j hj d hd => ?_
  rw [← get_select ht, h j hj, get_select hu]

/-- Head `j` of group `r`. -/
theorem select_heads {n h r : Nat} (ht : t.shape = [S, n * h, D]) (hr : r < n) (hj : j < h) :
    (heads n r t).select 1 j = t.select 1 (r * h + j) := by
  refine ext₂ (shape_select (shape_heads ht hr)) (shape_select ht) fun i hi d hd => ?_
  rw [get_select (shape_heads ht hr), get_heads ht hr hi hj hd, get_select ht]

/-- A row of a matrix. -/
theorem shape_select_row {a b : Nat} (ht : t.shape = [a, b]) : (t.select 0 j).shape = [b] := by
  rw [select, shape_ofFn, ht]
  rfl

theorem get_select_row {a b : Nat} (ht : t.shape = [a, b]) {i : Nat} (hi : i < b) :
    (t.select 0 j).get [i] = t.get [j, i] := by
  refine get_ofFn ?_
  rw [ht]
  exact ⟨hi, trivial⟩

/-- **Matrices with the same rows are equal.** -/
theorem ext_rows {a b : Nat} (ht : t.shape = [a, b]) (hu : u.shape = [a, b])
    (h : ∀ i < a, t.select 0 i = u.select 0 i) : t = u := by
  refine ext₂ ht hu fun i hi k hk => ?_
  rw [← get_select_row ht hk, h i hi, get_select_row hu hk]

/-- Row `j` of chunk `r`. -/
theorem select_chunk {n h r b : Nat} (ht : t.shape = [n * h, b]) (hr : r < n) (hj : j < h) :
    (chunk n r t).select 0 j = t.select 0 (r * h + j) := by
  refine ext_inside ((shape_select_row (shape_chunk ht hr)).trans (shape_select_row ht).symm) fun idx hi => ?_
  rw [shape_select_row (shape_chunk ht hr)] at hi
  match idx, hi with
  | [i], hi =>
    have hin : Inside [b] [i] := hi
    rw [get_select_row (shape_chunk ht hr) hi.1, get_chunk ht hr hj hin, get_select_row ht hi.1]

end

end Tensor
