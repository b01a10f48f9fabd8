import AetherRl.Tensor
/-!
# Collective — what a group of ranks exchanges

The tensors of a group are the list of each rank's, in rank order.  An exchange takes such a list to another: the chunks
of dimension zero all to all, a gather of every rank's rows, a reduction that leaves each rank its chunk of the sum.
-/
namespace Tensor

open Shape

variable {α : Type} [Zero α] {t u : Tensor α}

/-- The `r`-th of `n` equal pieces of dimension `d`. -/
def piece (d n r : Nat) (t : Tensor α) : Tensor α :=
  t.narrow d (r * (t.size d / n)) ((r + 1) * (t.size d / n))

/-- The `r`-th of `n` equal chunks of dimension zero. -/
abbrev chunk (n r : Nat) (t : Tensor α) : Tensor α := piece 0 n r t

/-- A tensor split over `n` ranks in dimension `d`. -/
def shardsAt (d n : Nat) (t : Tensor α) : List (Tensor α) := (List.range n).map fun r => piece d n r t

/-- A tensor split by rows over `n` ranks. -/
abbrev shards (n : Nat) (t : Tensor α) : List (Tensor α) := shardsAt 0 n t

/-- Chunk `j` of rank `i` goes into slot `i` of rank `j`. -/
def allToAllSingle (ts : List (Tensor α)) : List (Tensor α) :=
  (List.range ts.length).map fun r => cat 0 (ts.map (chunk ts.length r))

/-- The element-wise sum of tensors of one shape. -/
def sumAll {β : Type} [AddCommMonoid β] (ts : List (Tensor β)) : Tensor β :=
  ofFn (ts.headD empty).shape fun idx => (ts.map (·.get idx)).sum

/-- Each rank's chunk of the sum. -/
def reduceScatter {β : Type} [AddCommMonoid β] (ts : List (Tensor β)) : List (Tensor β) := shards ts.length (sumAll ts)

@[simp] theorem length_shardsAt (d n : Nat) (t : Tensor α) : (shardsAt d n t).length = n := by
  rw [shardsAt, List.length_map, List.length_range]

@[simp] theorem length_allToAllSingle (ts : List (Tensor α)) : (allToAllSingle ts).length = ts.length := by
  rw [allToAllSingle, List.length_map, List.length_range]

/-! ### Chunks -/

section
variable {n m r : Nat} {s : List Nat}

theorem size_of_cons (h : t.shape = m :: s) : t.size 0 = m := by
  rw [size, h]
  rfl

theorem shape_chunk (h : t.shape = n * m :: s) (hr : r < n) : (chunk n r t).shape = m :: s := by
  have hn : 0 < n := Nat.zero_lt_of_lt hr
  have hle : (r + 1) * m ≤ n * m := Nat.mul_le_mul_right m hr
  have hsub : (r + 1) * m - r * m = m := by
    rw [Nat.succ_mul]
    omega
  rw [chunk, piece, narrow, shape_ofFn, size_of_cons h, h, Nat.mul_div_cancel_left m hn, Nat.min_eq_left hle, hsub]
  rfl

theorem get_chunk (h : t.shape = n * m :: s) (hr : r < n) {j : Nat} {idx : List Nat} (hj : j < m) (hi : Inside s idx) :
    (chunk n r t).get (j :: idx) = t.get ((r * m + j) :: idx) := by
  have hn : 0 < n := Nat.zero_lt_of_lt hr
  have hin : Inside (chunk n r t).shape (j :: idx) := by
    rw [shape_chunk h hr]
    exact ⟨hj, hi⟩
  rw [chunk, piece, narrow, shape_ofFn] at hin
  rw [chunk, piece, narrow, get_ofFn hin, size_of_cons h, Nat.mul_div_cancel_left m hn]
  show t.get ((j + r * m) :: idx) = _
  rw [Nat.add_comm]

theorem sum_size {f : Nat → Tensor α} {d : Nat} (hf : ∀ r < n, (f r).size d = m) :
    (((List.range n).map f).map (·.size d)).sum = n * m := by
  have hsize : ((List.range n).map f).map (·.size d) = List.replicate n m := by
    rw [List.map_map, List.eq_replicate_iff]
    refine ⟨by simp, fun x hx => ?_⟩
    obtain ⟨r, hr, rfl⟩ := List.mem_map.1 hx
    exact hf r (List.mem_range.1 hr)
  rw [hsize, List.sum_replicate_nat]

theorem head_range {f : Nat → Tensor α} (hn : 0 < n) : ((List.range n).map f).headD empty = f 0 := by
  cases n with
  | zero => exact absurd hn (Nat.lt_irrefl 0)
  | succ n => rw [List.range_succ_eq_map, List.map_cons, List.headD_cons]

/-- **Pieces of one shape, one after the other.** -/
theorem shape_cat {f : Nat → Tensor α} (hn : 0 < n) (hf : ∀ r < n, (f r).shape = m :: s) :
    (cat 0 ((List.range n).map f)).shape = n * m :: s := by
  rw [cat, shape_ofFn, sum_size fun r hr => size_of_cons (hf r hr), head_range hn, hf 0 hn]
  rfl

theorem get_cat {f : Nat → Tensor α} (hf : ∀ r < n, (f r).shape = m :: s) (hr : r < n) {j : Nat} {idx : List Nat}
    (hj : j < m) (hi : Inside s idx) : (cat 0 ((List.range n).map f)).get ((r * m + j) :: idx) = (f r).get (j :: idx) := by
  have hin : Inside (cat 0 ((List.range n).map f)).shape ((r * m + j) :: idx) := by
    rw [shape_cat (Nat.zero_lt_of_lt hr) hf]
    refine ⟨?_, hi⟩
    calc r * m + j < r * m + m := Nat.add_lt_add_left hj _
      _ = (r + 1) * m := (Nat.succ_mul r m).symm
      _ ≤ n * m := Nat.mul_le_mul_right m hr
  rw [cat, shape_ofFn] at hin
  rw [cat, get_ofFn hin]
  exact catGet_range f (fun k hk => size_of_cons (hf k hk)) hr hj _

/-- **The shards of a tensor, one after the other, are the tensor.** -/
theorem cat_shards (hn : 0 < n) (h : t.shape = n * m :: s) : cat 0 (shards n t) = t := by
  have hf : ∀ r < n, (chunk n r t).shape = m :: s := fun r hr => shape_chunk h hr
  refine ext_inside ((shape_cat hn hf).trans h.symm) fun idx hi => ?_
  rw [shards, shardsAt, shape_cat hn hf] at hi
  match idx, hi with
  | i :: idx, hi =>
    have hm : 0 < m := by
      rcases Nat.eq_zero_or_pos m with rfl | hm
      · exact absurd hi.1 (Nat.not_lt_zero i)
      · exact hm
    have hr : i / m < n := Nat.div_lt_of_lt_mul (Nat.mul_comm n m ▸ hi.1)
    have hi' : i = i / m * m + i % m := (Nat.div_add_mod' i m).symm
    conv => lhs; rw [hi']
    rw [shards, shardsAt, get_cat hf hr (Nat.mod_lt i hm) hi.2, get_chunk h hr (Nat.mod_lt i hm) hi.2, ← hi']

/-- **Pieces of one shape are the shards of what they make.** -/
theorem shards_cat {f : Nat → Tensor α} (hf : ∀ r < n, (f r).shape = m :: s) :
    shards n (cat 0 ((List.range n).map f)) = (List.range n).map f := by
  refine List.map_congr_left fun r hr => ?_
  replace hr := List.mem_range.1 hr
  have hcat := shape_cat (Nat.zero_lt_of_lt hr) hf
  refine ext_inside ((shape_chunk hcat hr).trans (hf r hr).symm) fun idx hi => ?_
  rw [shape_chunk hcat hr] at hi
  match idx, hi with
  | j :: idx, hi => rw [get_chunk hcat hr hi.1 hi.2, get_cat hf hr hi.1 hi.2]

/-! ### All to all -/

theorem allToAllSingle_range (f : Nat → Tensor α) : allToAllSingle ((List.range n).map f) =
    (List.range n).map fun r => cat 0 ((List.range n).map fun i => chunk n r (f i)) := by
  rw [allToAllSingle, List.length_map, List.length_range]
  simp only [List.map_map]
  rfl

variable {f : Nat → Tensor α}

theorem shape_slots (hf : ∀ i < n, (f i).shape = n :: s) (hr : r < n) :
    (cat 0 ((List.range n).map fun i => chunk n r (f i))).shape = n :: s := by
  have hf' : ∀ i < n, (chunk n r (f i)).shape = 1 :: s := fun i hi =>
    shape_chunk (by rw [hf i hi, Nat.mul_one]) hr
  rw [shape_cat (Nat.zero_lt_of_lt hr) hf', Nat.mul_one]

/-- **Slot `i` of rank `r` is chunk `r` of rank `i`.** -/
theorem get_slots (hf : ∀ i < n, (f i).shape = n :: s) (hr : r < n) {i : Nat} (hi : i < n) {idx : List Nat}
    (hin : Inside s idx) : (cat 0 ((List.range n).map fun i => chunk n r (f i))).get (i :: idx) = (f i).get (r :: idx) := by
  have hf' : ∀ i < n, (f i).shape = n * 1 :: s := fun i hi => by rw [hf i hi, Nat.mul_one]
  have hpiece : ∀ i < n, (chunk n r (f i)).shape = 1 :: s := fun i hi => shape_chunk (hf' i hi) hr
  have hget := get_cat hpiece hi Nat.one_pos hin
  rw [Nat.mul_one, Nat.add_zero] at hget
  rw [hget, get_chunk (hf' i hi) hr Nat.one_pos hin, Nat.mul_one, Nat.add_zero]

end

end Tensor
