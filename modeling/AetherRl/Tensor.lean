import Mathlib.Algebra.BigOperators.Group.List.Basic
import Mathlib.Tactic.Ring
/-!
# Tensor — dense arrays of any rank

A tensor is a shape and an element at every index inside it; outside it reads zero, so two tensors that agree inside are
equal.  Elements lie in row-major order: that is what a change of shape keeps.  The operations are those a program writes
(`reshape`, `permute`, `narrow` for a slice, `select`, `cat`, `repeatInterleave`), each with the element it reads.
-/

/-! ## Indices -/

namespace Shape

/-- One coordinate for each dimension, below its size. -/
def Inside : List Nat → List Nat → Prop
  | [], [] => True
  | n :: s, i :: idx => i < n ∧ Inside s idx
  | [], _ :: _ => False
  | _ :: _, [] => False

instance decidableInside : ∀ s idx : List Nat, Decidable (Inside s idx)
  | [], [] => isTrue trivial
  | n :: s, i :: idx => @instDecidableAnd (i < n) (Inside s idx) _ (decidableInside s idx)
  | [], _ :: _ => isFalse id
  | _ :: _, [] => isFalse id

@[simp] theorem inside_nil : Inside [] [] ↔ True := Iff.rfl

@[simp] theorem inside_cons {n i : Nat} {s idx : List Nat} : Inside (n :: s) (i :: idx) ↔ i < n ∧ Inside s idx := Iff.rfl

@[simp] theorem not_inside_nil_cons {i : Nat} {idx : List Nat} : ¬ Inside [] (i :: idx) := id

@[simp] theorem not_inside_cons_nil {n : Nat} {s : List Nat} : ¬ Inside (n :: s) [] := id

/-- The place of an index in row-major order. -/
def ravel : List Nat → List Nat → Nat
  | _ :: s, i :: idx => i * s.prod + ravel s idx
  | _, _ => 0

/-- The index at a place in row-major order. -/
def unravel : List Nat → Nat → List Nat
  | [], _ => []
  | _ :: s, k => k / s.prod :: unravel s (k % s.prod)

@[simp] theorem ravel_nil (idx : List Nat) : ravel [] idx = 0 := rfl

@[simp] theorem ravel_cons (n i : Nat) (s idx : List Nat) : ravel (n :: s) (i :: idx) = i * s.prod + ravel s idx := rfl

theorem ravel_lt : ∀ {s idx : List Nat}, Inside s idx → ravel s idx < s.prod
  | [], [], _ => by simp
  | n :: s, i :: idx, h => by
    have hi : i + 1 ≤ n := h.1
    have hr := ravel_lt h.2
    rw [ravel_cons, List.prod_cons]
    calc i * s.prod + ravel s idx < i * s.prod + s.prod := Nat.add_lt_add_left hr _
      _ = (i + 1) * s.prod := (Nat.succ_mul i s.prod).symm
      _ ≤ n * s.prod := Nat.mul_le_mul_right _ hi

theorem unravel_ravel : ∀ {s idx : List Nat}, Inside s idx → unravel s (ravel s idx) = idx
  | [], [], _ => rfl
  | n :: s, i :: idx, h => by
    have hr := ravel_lt h.2
    have hpos : 0 < s.prod := Nat.lt_of_le_of_lt (Nat.zero_le _) hr
    rw [ravel_cons, unravel, Nat.mul_comm i, Nat.mul_add_div hpos, Nat.div_eq_of_lt hr, Nat.mul_add_mod,
      Nat.mod_eq_of_lt hr, unravel_ravel h.2, Nat.add_zero]

end Shape

open Shape

structure Tensor (α : Type) [Zero α] where
  shape : List Nat
  get : List Nat → α
  outside : ∀ idx, ¬ Inside shape idx → get idx = 0

namespace Tensor

variable {α : Type} [Zero α] {t u : Tensor α}

/-- **Tensors of one shape that agree inside it are equal.** -/
theorem ext_inside (hs : t.shape = u.shape) (h : ∀ idx, Inside t.shape idx → t.get idx = u.get idx) : t = u := by
  have hg : t.get = u.get := by
    funext idx
    by_cases hi : Inside t.shape idx
    · exact h idx hi
    · rw [t.outside idx hi, u.outside idx (hs ▸ hi)]
  cases t
  cases u
  simp only at hs hg
  subst hs
  subst hg
  rfl

/-- The tensor of the given shape that reads `f`. -/
def ofFn (shape : List Nat) (f : List Nat → α) : Tensor α where
  shape := shape
  get idx := if Inside shape idx then f idx else 0
  outside _ h := if_neg h

@[simp] theorem shape_ofFn (s : List Nat) (f : List Nat → α) : (ofFn s f).shape = s := rfl

theorem get_ofFn {s idx : List Nat} {f : List Nat → α} (h : Inside s idx) : (ofFn s f).get idx = f idx := if_pos h

/-- The size of a dimension. -/
def size (t : Tensor α) (d : Nat) : Nat := t.shape.getD d 0

theorem size_of_shape {s : List Nat} (ht : t.shape = s) (d : Nat) : t.size d = s.getD d 0 := by rw [size, ht]

def empty : Tensor α := ofFn [0] fun _ => 0

/-! ### Ranks two and three -/

theorem ext₂ {a b : Nat} (ht : t.shape = [a, b]) (hu : u.shape = [a, b])
    (h : ∀ i < a, ∀ j < b, t.get [i, j] = u.get [i, j]) : t = u := by
  refine ext_inside (ht.trans hu.symm) fun idx hi => ?_
  rw [ht] at hi
  match idx, hi with
  | [i, j], hi => exact h i hi.1 j hi.2.1

theorem ext₃ {a b c : Nat} (ht : t.shape = [a, b, c]) (hu : u.shape = [a, b, c])
    (h : ∀ i < a, ∀ j < b, ∀ k < c, t.get [i, j, k] = u.get [i, j, k]) : t = u := by
  refine ext_inside (ht.trans hu.symm) fun idx hi => ?_
  rw [ht] at hi
  match idx, hi with
  | [i, j, k], hi => exact h i hi.1 j hi.2.1 k hi.2.2.1

/-! ## The operations -/

/-- The same elements, in the same row-major order, under another shape. -/
def reshape (t : Tensor α) (s : List Nat) : Tensor α := ofFn s fun idx => t.get (unravel t.shape (ravel s idx))

@[simp] theorem shape_reshape (t : Tensor α) (s : List Nat) : (t.reshape s).shape = s := rfl

/-- **A change of shape reads the element of the same place.** -/
theorem get_reshape {s s' idx idx' : List Nat} (ht : t.shape = s) (hi : Inside s idx) (hi' : Inside s' idx')
    (h : ravel s' idx' = ravel s idx) : (t.reshape s').get idx' = t.get idx := by
  subst ht
  rw [reshape, get_ofFn hi', h, unravel_ravel hi]

/-- Dimension `k` of the result is dimension `p[k]`. -/
def permute (p : List Nat) (t : Tensor α) : Tensor α :=
  ofFn (p.map t.size) fun idx => t.get ((List.range p.length).map fun d => idx.getD (p.idxOf d) 0)

/-- **A permuted index is read in the old order.** -/
theorem get_permuted {p idx idx' s : List Nat} (hs : p.map t.size = s) (hin : Inside s idx')
    (h : ((List.range p.length).map fun d => idx'.getD (p.idxOf d) 0) = idx) : (t.permute p).get idx' = t.get idx := by
  subst hs
  rw [permute, get_ofFn hin, h]

theorem shape_permute {a b c d : Nat} (ht : t.shape = [a, b, c, d]) : (t.permute [1, 0, 2, 3]).shape = [b, a, c, d] := by
  simp only [permute, shape_ofFn, List.map_cons, List.map_nil, size, ht]
  rfl

theorem get_permute {a b c d : Nat} (ht : t.shape = [a, b, c, d]) {i j k l : Nat} (hi : i < a) (hj : j < b) (hk : k < c)
    (hl : l < d) : (t.permute [1, 0, 2, 3]).get [j, i, k, l] = t.get [i, j, k, l] :=
  get_permuted (shape_permute ht) ⟨hj, hi, hk, hl, trivial⟩ rfl

/-- `t[..., start:stop, ...]` in dimension `d`. -/
def narrow (d start stop : Nat) (t : Tensor α) : Tensor α :=
  ofFn (t.shape.set d (min stop (t.size d) - start)) fun idx => t.get (idx.modify d (· + start))

/-- `t[..., i, ...]` in dimension `d`. -/
def select (d i : Nat) (t : Tensor α) : Tensor α :=
  ofFn (t.shape.eraseIdx d) fun idx => t.get (idx.insertIdx d i)

/-- `t[..., start:start + n, ...] = part` in dimension `d`, for `n` entries of `part`. -/
def write (d start : Nat) (t part : Tensor α) : Tensor α :=
  ofFn t.shape fun idx =>
    if start ≤ idx.getD d 0 ∧ idx.getD d 0 < start + part.size d then part.get (idx.modify d (· - start)) else t.get idx

/-- Each entry of dimension `d`, `n` times in a row. -/
def repeatInterleave (d n : Nat) (t : Tensor α) : Tensor α :=
  ofFn (t.shape.set d (t.size d * n)) fun idx => t.get (idx.modify d (· / n))

/-- What the tensors side by side in dimension `d` read where their index has `x` there. -/
def catGet (d : Nat) : List (Tensor α) → Nat → List Nat → α
  | [], _, _ => 0
  | t :: ts, x, idx => if x < t.size d then t.get (idx.set d x) else catGet d ts (x - t.size d) idx

/-- The tensors side by side in dimension `d`. -/
def cat (d : Nat) (ts : List (Tensor α)) : Tensor α :=
  ofFn ((ts.headD empty).shape.set d (ts.map (·.size d)).sum) fun idx => catGet d ts (idx.getD d 0) idx

/-- **Side by side, pieces of one size are read by division.** -/
theorem catGet_range {d m : Nat} : ∀ {n : Nat} (f : Nat → Tensor α), (∀ r < n, (f r).size d = m) → ∀ {r j : Nat},
    r < n → j < m → ∀ idx, catGet d ((List.range n).map f) (r * m + j) idx = (f r).get (idx.set d j)
  | 0, _, _, r, _, hr, _, _ => absurd hr (Nat.not_lt_zero r)
  | n + 1, f, hf, 0, j, _, hj, idx => by
    rw [List.range_succ_eq_map, List.map_cons, catGet, hf 0 (Nat.succ_pos n), Nat.zero_mul, Nat.zero_add, if_pos hj]
  | n + 1, f, hf, r + 1, j, hr, hj, idx => by
    have hge : ¬ (r + 1) * m + j < m := by
      rw [Nat.succ_mul]
      omega
    have hsub : (r + 1) * m + j - m = r * m + j := by
      rw [Nat.succ_mul]
      omega
    rw [List.range_succ_eq_map, List.map_cons, List.map_map, catGet, hf 0 (Nat.succ_pos n), if_neg hge, hsub]
    exact catGet_range (f ∘ Nat.succ) (fun k hk => hf (k + 1) (Nat.succ_lt_succ hk)) (Nat.lt_of_succ_lt_succ hr) hj idx

end Tensor
