import AetherRl.LmHeadBackward
import Mathlib.Topology.Algebra.Module.ModuleTopology
/-!
# LmHeadGradient — the backward returns the derivatives

The gradient the loops accumulate for a logit is the derivative of the token's log-softmax in it, so what they sum for the
hidden states and for the weight is the derivative of the log-probabilities contracted with the incoming gradient.
-/
namespace Aether
namespace LmHead

open Tensor Shape Checked Blocks LogSumExp

/-- The cap's chain rule is that of its derivative. -/
def Cap.Smooth (cap : Cap) : Prop := ∀ x, ∃ d, HasDerivAt cap.apply d x ∧ ∀ grad, cap.chain x grad = grad * d

theorem noCap_smooth : noCap.Smooth := fun x => ⟨1, hasDerivAt_id x, fun grad => (mul_one grad).symm⟩

theorem hasDerivAt_tanh (x : ℝ) : HasDerivAt Real.tanh (1 - Real.tanh x ^ 2) x := by
  have hcosh : Real.cosh x ≠ 0 := (Real.cosh_pos x).ne'
  have hdiv := (Real.hasDerivAt_sinh x).div (Real.hasDerivAt_cosh x) hcosh
  have hval : (Real.cosh x * Real.cosh x - Real.sinh x * Real.sinh x) / Real.cosh x ^ 2 = 1 - Real.tanh x ^ 2 := by
    rw [Real.tanh_eq_sinh_div_cosh]
    field_simp
  rw [hval] at hdiv
  refine hdiv.congr_of_eventuallyEq (Filter.Eventually.of_forall fun y => ?_)
  exact Real.tanh_eq_sinh_div_cosh y

theorem softCap_smooth {softcap : ℝ} (hs : softcap ≠ 0) : (softCap softcap).Smooth := by
  intro x
  refine ⟨1 - Real.tanh (x / softcap) ^ 2, ?_, fun grad => rfl⟩
  have hin : HasDerivAt (fun x : ℝ => x / softcap) (1 / softcap) x := (hasDerivAt_id x).div_const softcap
  have hout := ((hasDerivAt_tanh (x / softcap)).comp x hin).const_mul softcap
  have hval : softcap * ((1 - Real.tanh (x / softcap) ^ 2) * (1 / softcap)) = 1 - Real.tanh (x / softcap) ^ 2 := by
    field_simp
  rw [hval] at hout
  exact hout

section
variable {E : Type} [NormedAddCommGroup E] [NormedSpace ℝ E] {cap : Cap} {v l : Nat} {logits : Nat → E → ℝ}
  {L : Nat → E →L[ℝ] ℝ} {x : E}

/-- **The derivative of a token's log-probability**: its logits' derivatives, weighted with what the backward computes
for them. -/
theorem hasFDerivAt_token (hcap : cap.Smooth) (hl : l < v) (hL : ∀ j < v, HasFDerivAt (logits j) (L j) x) (g t : ℝ) :
    HasFDerivAt (fun y => g * logSoftmax (Finset.range v) (fun j => cap.apply (logits j y) * t) l)
      (∑ j ∈ Finset.range v, gradOf cap (logits j x) g t
        (logSumExp (Finset.range v) fun j => cap.apply (logits j x) * t) (j = l) • L j) x := by
  choose d hd hchain using hcap
  have hne : (Finset.range v).Nonempty := ⟨l, Finset.mem_range.2 hl⟩
  have hz : ∀ j < v, HasFDerivAt (fun y => cap.apply (logits j y) * t) (t • d (logits j x) • L j) x :=
    fun j hj => ((hd _).comp_hasFDerivAt x (hL j hj)).mul_const t
  have hsoft := (hasFDerivAt_logSoftmax hne (hz l hl) fun j hj => hz j (Finset.mem_range.1 hj)).const_mul g
  refine hsoft.congr_fderiv ?_
  have hterm : ∀ j ∈ Finset.range v, gradOf cap (logits j x) g t
      (logSumExp (Finset.range v) fun j => cap.apply (logits j x) * t) (j = l) • L j =
      (if j = l then g • t • d (logits l x) • L l else 0) -
        g • softmax (Finset.range v) (fun j => cap.apply (logits j x) * t) j • t • d (logits j x) • L j := by
    intro j _
    rw [gradOf, hchain, exp_logSoftmax hne fun j => cap.apply (logits j x) * t]
    by_cases hjl : j = l
    · subst hjl
      rw [if_pos rfl, if_pos rfl]
      module
    · rw [if_neg hjl, if_neg hjl]
      module
  rw [Finset.sum_congr rfl hterm, Finset.sum_sub_distrib, Finset.sum_ite_eq' , if_pos (Finset.mem_range.2 hl),
    smul_sub, Finset.smul_sum]

end

/-! ## The two gradients -/

/-- A matrix as a tensor. -/
noncomputable def tensorOf {n h : Nat} (x : Fin n → Fin h → ℝ) : Tensor ℝ :=
  ofFn [n, h] fun idx =>
    match idx with
    | [i, k] => if hi : i < n then if hk : k < h then x ⟨i, hi⟩ ⟨k, hk⟩ else 0 else 0
    | _ => 0

section
variable {n h v : Nat}

@[simp] theorem shape_tensorOf (x : Fin n → Fin h → ℝ) : (tensorOf x).shape = [n, h] := rfl

theorem get_tensorOf (x : Fin n → Fin h → ℝ) (i : Fin n) (k : Fin h) : (tensorOf x).get [i, k] = x i k := by
  have hin : Inside [n, h] [i.1, k.1] := ⟨i.2, k.2, trivial⟩
  rw [tensorOf, get_ofFn hin]
  dsimp only
  rw [dif_pos i.2, dif_pos k.2]

/-- The entry at `i` and `k`. -/
noncomputable def entry (i : Fin n) (k : Fin h) : (Fin n → Fin h → ℝ) →L[ℝ] ℝ :=
  (ContinuousLinearMap.proj (R := ℝ) (φ := fun _ : Fin h => ℝ) k).comp
    (ContinuousLinearMap.proj (R := ℝ) (φ := fun _ : Fin n => Fin h → ℝ) i)

theorem entry_apply (i : Fin n) (k : Fin h) (x : Fin n → Fin h → ℝ) : entry i k x = x i k := rfl

/-- The linear form of a gradient. -/
noncomputable def pairing (n h : Nat) (g : Tensor ℝ) : (Fin n → Fin h → ℝ) →L[ℝ] ℝ :=
  ∑ i : Fin n, ∑ k : Fin h, g.get [i.1, k.1] • entry i k

theorem hasFDerivAt_logit_hidden (weight : Tensor ℝ) (x : Fin n → Fin h → ℝ) (i : Fin n) (j : Nat) :
    HasFDerivAt (fun x => logit (tensorOf x) weight i j) (∑ k : Fin h, weight.get [j, k.1] • entry i k) x := by
  have hlogit : (fun x : Fin n → Fin h → ℝ => logit (tensorOf x) weight i j) =
      fun x => ∑ k : Fin h, entry i k x * weight.get [j, k.1] := by
    funext x
    rw [logit, size_of_shape (shape_tensorOf x)]
    show ∑ k ∈ Finset.range h, _ = _
    rw [Finset.sum_range]
    refine Finset.sum_congr rfl fun k _ => ?_
    rw [get_tensorOf, entry_apply]
  rw [hlogit]
  exact HasFDerivAt.fun_sum fun k _ => (entry i k).hasFDerivAt.mul_const _

theorem hasFDerivAt_logit_weight (hidden : Tensor ℝ) {m : Nat} (hh : hidden.shape = [m, h]) (y : Fin v → Fin h → ℝ) (i : Nat)
    (j : Fin v) :
    HasFDerivAt (fun y => logit hidden (tensorOf y) i j) (∑ k : Fin h, hidden.get [i, k.1] • entry j k) y := by
  have hlogit : (fun y : Fin v → Fin h → ℝ => logit hidden (tensorOf y) i j) =
      fun y => ∑ k : Fin h, hidden.get [i, k.1] * entry j k y := by
    funext y
    rw [logit, size_of_shape hh]
    show ∑ k ∈ Finset.range h, _ = _
    rw [Finset.sum_range]
    refine Finset.sum_congr rfl fun k _ => ?_
    rw [get_tensorOf, entry_apply]
  rw [hlogit]
  exact HasFDerivAt.fun_sum fun k _ => (entry j k).hasFDerivAt.const_mul _

end

section
variable {n h v vc c : Nat} {cap : Cap} {fresh : List Nat → Tensor ℝ} {labels : Tensor Nat} {invT grad : Tensor ℝ}

/-- The log-probabilities contracted with the incoming gradient. -/
noncomputable def contracted (grad logprobs : Tensor ℝ) (n : Nat) : ℝ :=
  ∑ i ∈ Finset.range n, grad.get [i] * logprobs.get [i]

/-- The contraction is that of the tokens' log-softmaxes. -/
theorem contracted_eq (hc : 0 < c) (hvc : 0 < vc) (hv : 0 < v) (hfresh : ∀ s, (fresh s).shape = s)
    {hidden weight : Tensor ℝ} (hh : hidden.shape = [n, h]) (hw : weight.shape = [v, h]) (hl : labels.shape = [n])
    (ht : invT.shape = [n]) (hlabels : ∀ i < n, labels.get [i] < v) :
    contracted grad (chunkedForward cap vc fresh hidden weight labels invT c).logprobs n =
      ∑ i ∈ Finset.range n, grad.get [i] * logSoftmax (Finset.range v)
        (fun j => cap.apply (logit hidden weight i j) * invT.get [i]) (labels.get [i]) := by
  have hspec := chunkedForward_spec cap hc hvc hv hfresh hh hw hl ht hlabels
  refine Finset.sum_congr rfl fun i hi => ?_
  rw [hspec.logprobs i (Finset.mem_range.1 hi)]
  rfl

/-- **The gradient returned for the hidden states is the derivative in them.** -/
theorem hasFDerivAt_hidden (hcap : cap.Smooth) (hc : 0 < c) (hvc : 0 < vc) (hv : 0 < v)
    (hfresh : ∀ s, (fresh s).shape = s) {weight : Tensor ℝ} (hw : weight.shape = [v, h]) (hl : labels.shape = [n])
    (ht : invT.shape = [n]) (hg : grad.shape = [n]) (hlabels : ∀ i < n, labels.get [i] < v) (x : Fin n → Fin h → ℝ) :
    HasFDerivAt (fun x => contracted grad (chunkedForward cap vc fresh (tensorOf x) weight labels invT c).logprobs n)
      (pairing n h (chunkedBackward cap vc (tensorOf x) weight labels invT
        (chunkedForward cap vc fresh (tensorOf x) weight labels invT c).logz c grad).hidden) x := by
  have hfun : (fun x : Fin n → Fin h → ℝ =>
      contracted grad (chunkedForward cap vc fresh (tensorOf x) weight labels invT c).logprobs n) = fun x =>
      ∑ i : Fin n, grad.get [i.1] * logSoftmax (Finset.range v)
        (fun j => cap.apply (logit (tensorOf x) weight i j) * invT.get [i.1]) (labels.get [i.1]) := by
    funext x
    rw [contracted_eq hc hvc hv hfresh (shape_tensorOf x) hw hl ht hlabels, Finset.sum_range]
  have hspec := chunkedForward_spec cap hc hvc hv hfresh (shape_tensorOf x) hw hl ht hlabels
  obtain ⟨-, -, hgrad, -⟩ := chunkedBackward_spec cap hc hvc (shape_tensorOf x) hw hl hg ht hspec.shapeLogz
  rw [hfun]
  refine (HasFDerivAt.fun_sum fun i _ => hasFDerivAt_token hcap (hlabels i.1 i.2)
    (fun j _ => hasFDerivAt_logit_hidden weight x i j) (grad.get [i.1]) (invT.get [i.1])).congr_fderiv ?_
  refine Finset.sum_congr rfl fun i _ => ?_
  have hcell : ∀ k : Fin h, (chunkedBackward cap vc (tensorOf x) weight labels invT
      (chunkedForward cap vc fresh (tensorOf x) weight labels invT c).logz c grad).hidden.get [i.1, k.1] = _ :=
    fun k => hgrad i.1 i.2 k.1 k.2
  simp only [hcell, Finset.sum_smul, Finset.smul_sum, smul_smul]
  rw [Finset.sum_comm]
  refine Finset.sum_congr rfl fun k _ => Finset.sum_congr rfl fun j _ => ?_
  rw [gradAt, hspec.logz i.1 i.2]
  rfl

/-- **The gradient returned for the weight is the derivative in it.** -/
theorem hasFDerivAt_weight (hcap : cap.Smooth) (hc : 0 < c) (hvc : 0 < vc) (hv : 0 < v)
    (hfresh : ∀ s, (fresh s).shape = s) {hidden : Tensor ℝ} (hh : hidden.shape = [n, h]) (hl : labels.shape = [n])
    (ht : invT.shape = [n]) (hg : grad.shape = [n]) (hlabels : ∀ i < n, labels.get [i] < v) (y : Fin v → Fin h → ℝ) :
    HasFDerivAt (fun y => contracted grad (chunkedForward cap vc fresh hidden (tensorOf y) labels invT c).logprobs n)
      (pairing v h (chunkedBackward cap vc hidden (tensorOf y) labels invT
        (chunkedForward cap vc fresh hidden (tensorOf y) labels invT c).logz c grad).weight) y := by
  have hfun : (fun y : Fin v → Fin h → ℝ =>
      contracted grad (chunkedForward cap vc fresh hidden (tensorOf y) labels invT c).logprobs n) = fun y =>
      ∑ i ∈ Finset.range n, grad.get [i] * logSoftmax (Finset.range v)
        (fun j => cap.apply (logit hidden (tensorOf y) i j) * invT.get [i]) (labels.get [i]) := by
    funext y
    rw [contracted_eq hc hvc hv hfresh hh (shape_tensorOf y) hl ht hlabels]
  have hspec := chunkedForward_spec cap hc hvc hv hfresh hh (shape_tensorOf y) hl ht hlabels
  obtain ⟨-, -, -, hgrad⟩ := chunkedBackward_spec cap hc hvc hh (shape_tensorOf y) hl hg ht hspec.shapeLogz
  let L : Nat → Nat → (Fin v → Fin h → ℝ) →L[ℝ] ℝ := fun i j =>
    if hj : j < v then ∑ k : Fin h, hidden.get [i, k.1] • entry ⟨j, hj⟩ k else 0
  have hL : ∀ i, ∀ j < v, HasFDerivAt (fun y => logit hidden (tensorOf y) i j) (L i j) y := by
    intro i j hj
    show HasFDerivAt _ (if hj : j < v then _ else _) y
    rw [dif_pos hj]
    exact hasFDerivAt_logit_weight hidden hh y i ⟨j, hj⟩
  rw [hfun]
  refine (HasFDerivAt.fun_sum fun i hi => hasFDerivAt_token hcap (hlabels i (Finset.mem_range.1 hi)) (hL i)
    (grad.get [i]) (invT.get [i])).congr_fderiv ?_
  rw [Finset.sum_comm, Finset.sum_range]
  refine Finset.sum_congr rfl fun j _ => ?_
  have hcell : ∀ k : Fin h, (chunkedBackward cap vc hidden (tensorOf y) labels invT
      (chunkedForward cap vc fresh hidden (tensorOf y) labels invT c).logz c grad).weight.get [j.1, k.1] = _ :=
    fun k => hgrad j.1 j.2 k.1 k.2
  have hLj : ∀ i, L i j.1 = ∑ k : Fin h, hidden.get [i, k.1] • entry j k := fun i => dif_pos j.2
  simp only [hcell, hLj, Finset.sum_smul, Finset.smul_sum, smul_smul]
  rw [Finset.sum_comm]
  refine Finset.sum_congr rfl fun k _ => Finset.sum_congr rfl fun i hi => ?_
  rw [gradAt, hspec.logz i (Finset.mem_range.1 hi)]
  rfl

end

end LmHead
end Aether
