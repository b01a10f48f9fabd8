import Mathlib.Data.List.Basic
import Mathlib.Algebra.BigOperators.Intervals
/-!
# Blocks — a loop over a range in steps

`for start in range(0, n, c)` takes a range in blocks `[start, min (start + c) n)`.  What holds before the first block and
is carried over a block holds after the last.
-/
namespace Blocks

/-- `range(0, n, c)`. -/
def starts (n c : Nat) : List Nat := (List.range ((n + c - 1) / c)).map (· * c)

section
variable {β : Type} {n c : Nat}

/-- The blocks cover the range. -/
theorem le_blocks (hc : 0 < c) : n ≤ (n + c - 1) / c * c := by
  have hmod := Nat.mod_lt (n + c - 1) hc
  have hdiv := Nat.div_add_mod' (n + c - 1) c
  omega

/-- A block starts inside the range. -/
theorem block_lt (hc : 0 < c) {k : Nat} (hk : k < (n + c - 1) / c) : k * c < n := by
  have hle : (k + 1) * c ≤ n + c - 1 := (Nat.mul_le_mul_right c hk).trans (Nat.div_mul_le_self _ _)
  rw [Nat.succ_mul] at hle
  omega

/-- **The invariant rule**: what holds before the first block and is carried over every block holds after the last. -/
theorem foldl_starts (hc : 0 < c) {f : β → Nat → β} {P : Nat → β → Prop} {b : β} (h0 : P 0 b)
    (hstep : ∀ b start, start < n → P start b → P (min (start + c) n) (f b start)) : P n ((starts n c).foldl f b) := by
  have hprefix : ∀ k ≤ (n + c - 1) / c, P (min (k * c) n) (((List.range k).map (· * c)).foldl f b) := by
    intro k hk
    induction k with
    | zero =>
      rw [Nat.zero_mul, Nat.zero_min]
      exact h0
    | succ k ih =>
      have hlt := block_lt hc hk
      have hp := ih (Nat.le_of_succ_le hk)
      rw [Nat.min_eq_left hlt.le] at hp
      rw [List.range_succ, List.map_append, List.foldl_append, Nat.succ_mul]
      exact hstep _ _ hlt hp
  have hall := hprefix _ (Nat.le_refl _)
  rw [Nat.min_eq_right (le_blocks hc)] at hall
  exact hall

end

section
variable {M : Type} [AddCommMonoid M] (f : Nat → M)

/-- A sum up to a block and over it. -/
theorem sum_block {a b : Nat} (h : a ≤ b) :
    ∑ i ∈ Finset.range b, f i = ∑ i ∈ Finset.range a, f i + ∑ j ∈ Finset.range (b - a), f (a + j) := by
  obtain ⟨d, rfl⟩ := Nat.exists_eq_add_of_le h
  rw [Finset.sum_range_add, Nat.add_sub_cancel_left]

end

end Blocks
