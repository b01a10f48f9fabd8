import Mathlib.Analysis.SpecialFunctions.Log.Deriv
import Mathlib.Analysis.SpecialFunctions.ExpDeriv
import Mathlib.Analysis.Calculus.FDeriv.Add
import Mathlib.Algebra.BigOperators.Field
/-!
# LogSumExp — the logarithm of a sum of exponentials

The log-softmax, the softmax and the entropy over a finite set of logits; the recurrence that computes them block by block
without an overflow, whatever shift it takes in each block; and the derivative of the log-softmax.
-/
namespace LogSumExp

open Finset

section
variable {ι : Type} {u v : Finset ι} {x : ι → ℝ}

noncomputable def logSumExp (u : Finset ι) (x : ι → ℝ) : ℝ := Real.log (∑ j ∈ u, Real.exp (x j))

noncomputable def softmax (u : Finset ι) (x : ι → ℝ) (j : ι) : ℝ := Real.exp (x j) / ∑ k ∈ u, Real.exp (x k)

noncomputable def logSoftmax (u : Finset ι) (x : ι → ℝ) (j : ι) : ℝ := x j - logSumExp u x

noncomputable def entropy (u : Finset ι) (x : ι → ℝ) : ℝ := logSumExp u x - ∑ j ∈ u, softmax u x j * x j

theorem sum_exp_pos (hu : u.Nonempty) (x : ι → ℝ) : 0 < ∑ j ∈ u, Real.exp (x j) :=
  Finset.sum_pos (fun j _ => Real.exp_pos (x j)) hu

theorem logSumExp_congr {y : ι → ℝ} (h : ∀ j ∈ u, x j = y j) : logSumExp u x = logSumExp u y := by
  rw [logSumExp, logSumExp, Finset.sum_congr rfl fun j hj => by rw [h j hj]]

theorem logSoftmax_congr {y : ι → ℝ} (h : ∀ j ∈ u, x j = y j) {j : ι} (hj : j ∈ u) :
    logSoftmax u x j = logSoftmax u y j := by
  rw [logSoftmax, logSoftmax, logSumExp_congr h, h j hj]

theorem softmax_congr {y : ι → ℝ} (h : ∀ j ∈ u, x j = y j) {j : ι} (hj : j ∈ u) : softmax u x j = softmax u y j := by
  rw [softmax, softmax, h j hj, Finset.sum_congr rfl fun k hk => by rw [h k hk]]

theorem entropy_congr {y : ι → ℝ} (h : ∀ j ∈ u, x j = y j) : entropy u x = entropy u y := by
  rw [entropy, entropy, logSumExp_congr h, Finset.sum_congr rfl fun j hj => by rw [softmax_congr h hj, h j hj]]

/-- The probability of an entry is the exponential of its log-softmax. -/
theorem exp_logSoftmax (hu : u.Nonempty) (x : ι → ℝ) (j : ι) : Real.exp (x j - logSumExp u x) = softmax u x j := by
  rw [Real.exp_sub, logSumExp, Real.exp_log (sum_exp_pos hu x), softmax]

/-! ## Block by block -/

/-- `exp (a - b)`, where nothing stands for minus infinity. -/
noncomputable def expSub : WithBot ℝ → WithBot ℝ → ℝ
  | some a, some b => Real.exp (a - b)
  | _, _ => 0

@[simp] theorem expSub_coe (a b : ℝ) : expSub (a : WithBot ℝ) (b : WithBot ℝ) = Real.exp (a - b) := rfl

@[simp] theorem expSub_bot (b : WithBot ℝ) : expSub ⊥ b = 0 := rfl

/-- The state of the recurrence over the entries of `u`: a shift, the shifted sum and the shifted weighted sum. -/
inductive Absorbed (u : Finset ι) (x : ι → ℝ) : WithBot ℝ → ℝ → ℝ → Prop
  | start : u = ∅ → Absorbed u x ⊥ 0 0
  | shifted (m : ℝ) : Absorbed u x m (∑ j ∈ u, Real.exp (x j - m)) (∑ j ∈ u, Real.exp (x j - m) * x j)

/-- The state depends on the entries absorbed. -/
theorem Absorbed.congr {y : ι → ℝ} (hxy : ∀ j ∈ u, x j = y j) {m : WithBot ℝ} {s t : ℝ} (h : Absorbed u x m s t) :
    Absorbed u y m s t := by
  cases h with
  | start hu => exact .start hu
  | shifted m =>
    have hs : ∑ j ∈ u, Real.exp (x j - m) = ∑ j ∈ u, Real.exp (y j - m) :=
      Finset.sum_congr rfl fun j hj => by rw [hxy j hj]
    have ht : ∑ j ∈ u, Real.exp (x j - m) * x j = ∑ j ∈ u, Real.exp (y j - m) * y j :=
      Finset.sum_congr rfl fun j hj => by rw [hxy j hj]
    rw [hs, ht]
    exact .shifted m

/-- A change of shift. -/
theorem sum_shift (m m' : ℝ) (g : ι → ℝ) : (∑ j ∈ u, Real.exp (x j - m) * g j) * Real.exp (m - m') =
    ∑ j ∈ u, Real.exp (x j - m') * g j := by
  rw [Finset.sum_mul]
  refine Finset.sum_congr rfl fun j _ => ?_
  have hshift : x j - m' = (x j - m) + (m - m') := by ring
  rw [hshift, Real.exp_add]
  ring

/-- **A block absorbed**: the old sums are rescaled to the new shift and the block's entries added, whatever the shift. -/
theorem Absorbed.block [DecidableEq ι] {m : WithBot ℝ} {s t : ℝ} (h : Absorbed u x m s t) (huv : Disjoint u v)
    (m' : ℝ) :
    Absorbed (u ∪ v) x m' (s * expSub m m' + ∑ j ∈ v, Real.exp (x j - m'))
      (t * expSub m m' + ∑ j ∈ v, Real.exp (x j - m') * x j) := by
  cases h with
  | start hu =>
    rw [hu, Finset.empty_union]
    simp only [zero_mul, zero_add]
    exact .shifted m'
  | shifted m =>
    have hs := sum_shift (u := u) (x := x) m m' fun _ => 1
    simp only [mul_one] at hs
    rw [expSub_coe, hs, sum_shift, ← Finset.sum_union huv, ← Finset.sum_union huv]
    exact .shifted m'

/-- **What the last state gives**: the log-sum-exp and the mean of the entries under the softmax. -/
theorem Absorbed.final {m : WithBot ℝ} {s t : ℝ} (h : Absorbed u x m s t) (hu : u.Nonempty) :
    m.unbotD 0 + Real.log s = logSumExp u x ∧ t / s = ∑ j ∈ u, softmax u x j * x j := by
  cases h with
  | start he => exact absurd he hu.ne_empty
  | shifted m =>
    have hsum : ∑ j ∈ u, Real.exp (x j - m) = (∑ j ∈ u, Real.exp (x j)) * Real.exp (-m) := by
      rw [Finset.sum_mul]
      refine Finset.sum_congr rfl fun j _ => ?_
      rw [sub_eq_add_neg, Real.exp_add]
    have hpos := sum_exp_pos hu x
    refine ⟨?_, ?_⟩
    · rw [WithBot.unbotD_coe, hsum, Real.log_mul hpos.ne' (Real.exp_ne_zero _), Real.log_exp, logSumExp]
      ring
    · rw [hsum, Finset.sum_div]
      refine Finset.sum_congr rfl fun j _ => ?_
      rw [sub_eq_add_neg, Real.exp_add, softmax]
      field_simp

end

/-! ## The derivative -/

section
variable {ι E : Type} [NormedAddCommGroup E] [NormedSpace ℝ E] {u : Finset ι} {z : ι → E → ℝ} {z' : ι → E →L[ℝ] ℝ} {x : E}

/-- **The derivative of a log-softmax**: that of its entry less the mean of all of them under the softmax. -/
theorem hasFDerivAt_logSoftmax (hu : u.Nonempty) {l : ι} (hl : HasFDerivAt (z l) (z' l) x)
    (hz : ∀ j ∈ u, HasFDerivAt (z j) (z' j) x) :
    HasFDerivAt (fun y => logSoftmax u (fun j => z j y) l)
      (z' l - ∑ j ∈ u, softmax u (fun j => z j x) j • z' j) x := by
  have hsum : HasFDerivAt (fun y => ∑ j ∈ u, Real.exp (z j y)) (∑ j ∈ u, Real.exp (z j x) • z' j) x :=
    HasFDerivAt.fun_sum fun j hj => (hz j hj).exp
  have hpos := sum_exp_pos hu fun j => z j x
  have hlog := hsum.log hpos.ne'
  have hmean : (∑ j ∈ u, Real.exp (z j x))⁻¹ • ∑ j ∈ u, Real.exp (z j x) • z' j =
      ∑ j ∈ u, softmax u (fun j => z j x) j • z' j := by
    rw [Finset.smul_sum]
    refine Finset.sum_congr rfl fun j _ => ?_
    rw [smul_smul, softmax, div_eq_inv_mul]
  rw [hmean] at hlog
  exact hl.sub hlog

end

end LogSumExp
