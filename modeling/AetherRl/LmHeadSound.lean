import AetherRl.LmHeadGradient
/-!
# LmHeadSound — the fused head is the plain one

The outputs of the chunked loops depend on neither chunk size: they are `selective_log_softmax` and `compute_entropy` of
the plain head's logits over the temperature.  The gradients are their derivatives.
-/
namespace Aether
namespace LmHead

open Tensor Shape Checked Blocks LogSumExp

section
variable {b s h v c n vc : Nat} {weight hiddenStates temperature : Tensor ℝ} {labels : Tensor Nat} {cap : Cap}
  {fresh : List Nat → Tensor ℝ}

/-- A token of a flattened batch. -/
theorem get_flat {α : Type} [Zero α] {t : Tensor α} (ht : t.shape = [b, s]) {x y : Nat} (hx : x < b) (hy : y < s) :
    (t.reshape [b * s]).get [x * s + y] = t.get [x, y] := by
  have hsrc : Inside [b, s] [x, y] := ⟨hx, hy, trivial⟩
  have hdst : Inside [b * s] [x * s + y] := ⟨place_lt hx hy, trivial⟩
  exact get_reshape ht hsrc hdst (by simp)

theorem get_unflat {α : Type} [Zero α] {t : Tensor α} (ht : t.shape = [b * s]) {x y : Nat} (hx : x < b) (hy : y < s) :
    (t.reshape [b, s]).get [x, y] = t.get [x * s + y] := by
  have hsrc : Inside [b * s] [x * s + y] := ⟨place_lt hx hy, trivial⟩
  have hdst : Inside [b, s] [x, y] := ⟨hx, hy, trivial⟩
  exact get_reshape ht hsrc hdst (by simp)

theorem get_flat_hidden (hh : hiddenStates.shape = [b, s, h]) {x y k : Nat} (hx : x < b) (hy : y < s) (hk : k < h) :
    (hiddenStates.reshape [b * s, h]).get [x * s + y, k] = hiddenStates.get [x, y, k] := by
  have hsrc : Inside [b, s, h] [x, y, k] := ⟨hx, hy, hk, trivial⟩
  have hdst : Inside [b * s, h] [x * s + y, k] := ⟨place_lt hx hy, hk, trivial⟩
  refine get_reshape hh hsrc hdst ?_
  simp only [ravel_cons, ravel_nil, List.prod_cons, List.prod_nil]
  ring

/-- The logits of a token, as the plain head has them. -/
theorem get_scaleLogits (hh : hiddenStates.shape = [b, s, h]) (hw : weight.shape = [v, h]) {x y j : Nat} (hx : x < b)
    (hy : y < s) (hj : j < v) :
    (scaleLogits (plainLogits cap weight hiddenStates) temperature).get [x, y, j] =
      cap.apply (∑ k ∈ Finset.range h, hiddenStates.get [x, y, k] * weight.get [j, k]) / temperature.get [x, y] := by
  have hshape : (plainLogits cap weight hiddenStates).shape = [b, s, v] := by
    rw [plainLogits, shape_ofFn, size_of_shape hh, size_of_shape hh, size_of_shape hw]
    rfl
  have hin : Inside (plainLogits cap weight hiddenStates).shape [x, y, j] := by
    rw [hshape]
    exact ⟨hx, hy, hj, trivial⟩
  rw [scaleLogits, get_ofFn hin]
  rw [plainLogits, shape_ofFn] at hin
  rw [plainLogits, get_ofFn hin, size_of_shape hh]
  rfl

/-! ## The forward -/

/-- The checks pass on matching sizes. -/
theorem capForward_ok {hidden invT : Tensor ℝ} {labels : Tensor Nat} (cap : Cap) (fresh : List Nat → Tensor ℝ) (hc : 0 < c)
    (hh : hidden.shape = [n, h]) (hw : weight.shape = [v, h]) (hl : labels.shape = [n]) (ht : invT.shape = [n]) :
    capForward cap fresh hidden weight labels invT c =
      .ok (⟨hidden, weight, labels, invT,
          (chunkedForward cap (min v 8192) fresh hidden weight labels invT c).logz, c⟩,
        (chunkedForward cap (min v 8192) fresh hidden weight labels invT c).logprobs,
        (chunkedForward cap (min v 8192) fresh hidden weight labels invT c).entropy) := by
  have hcheck : checkForward hidden weight labels invT c = .ok () := by
    unfold checkForward
    rw [raiseUnless_of _ (by rw [hh]; rfl), raiseUnless_of _ (by rw [hw]; rfl), raiseUnless_of _ (by rw [hl]; rfl),
      raiseUnless_of _ (by rw [ht]; rfl), raiseUnless_of _ (by rw [size_of_shape hh, size_of_shape hl]; rfl),
      raiseUnless_of _ (by rw [size_of_shape hh, size_of_shape hw]; rfl),
      raiseUnless_of _ (by rw [size_of_shape hh, size_of_shape ht]; rfl), raiseUnless_of _ hc]
    rfl
  unfold capForward
  rw [hcheck, size_of_shape hw]
  rfl

/-- **A head over chunks is the plain head.** -/
theorem headForward_eq (cap : Cap) (name : String) (hc : 0 < c) (hv : 0 < v) (hfresh : ∀ s, (fresh s).shape = s)
    (hw : weight.shape = [v, h]) (hh : hiddenStates.shape = [b, s, h]) (hl : labels.shape = [b, s])
    (ht : temperature.shape = [b, s]) (hlabels : ∀ x < b, ∀ y < s, labels.get [x, y] < v) :
    headForward (capForward cap fresh) name weight c hiddenStates (some labels) (some temperature) =
      .ok (plainOutput (plainLogits cap weight hiddenStates) labels temperature) := by
  let invT : Tensor ℝ := ofFn [b * s] fun idx => 1 / (temperature.reshape [b * s]).get idx
  have hvc : 0 < min v 8192 := by omega
  have hflat : ∀ i < b * s, (labels.reshape [b * s]).get [i] < v := by
    intro i hi
    have hs : 0 < s := Nat.pos_of_mul_pos_left (Nat.zero_lt_of_lt hi)
    have hx : i / s < b := Nat.div_lt_of_lt_mul (Nat.mul_comm b s ▸ hi)
    have := hlabels (i / s) hx (i % s) (Nat.mod_lt i hs)
    rw [← get_flat hl hx (Nat.mod_lt i hs), Nat.div_add_mod'] at this
    exact this
  have hspec : (chunkedForward cap (min v 8192) fresh (hiddenStates.reshape [b * s, h]) weight (labels.reshape [b * s])
      invT c).Upto _ _ _ _ _ :=
    chunkedForward_spec cap hc hvc hv hfresh (shape_reshape hiddenStates [b * s, h]) hw (shape_reshape labels [b * s]) rfl
      hflat
  have hrow : ∀ x < b, ∀ y < s, ∀ j ∈ Finset.range v, capped cap (hiddenStates.reshape [b * s, h]) weight invT (x * s + y) j =
      (scaleLogits (plainLogits cap weight hiddenStates) temperature).get [x, y, j] := by
    intro x hx y hy j hj
    have hin : Inside [b * s] [x * s + y] := ⟨place_lt hx hy, trivial⟩
    rw [get_scaleLogits hh hw hx hy (Finset.mem_range.1 hj), capped, get_ofFn hin, get_flat ht hx hy, mul_one_div, logit]
    congr 2
    refine Finset.sum_congr rfl fun k hk => ?_
    rw [get_flat_hidden hh hx hy (Finset.mem_range.1 hk)]
  have hlogits : (scaleLogits (plainLogits cap weight hiddenStates) temperature).shape = [b, s, v] := by
    rw [scaleLogits, shape_ofFn, plainLogits, shape_ofFn, size_of_shape hh, size_of_shape hh, size_of_shape hw]
    rfl
  have hlogprobs : (chunkedForward cap (min v 8192) fresh (hiddenStates.reshape [b * s, h]) weight
      (labels.reshape [b * s]) invT c).logprobs.reshape [b, s] =
      selectiveLogSoftmax (scaleLogits (plainLogits cap weight hiddenStates) temperature) labels := by
    refine ext₂ (shape_reshape _ _) hl fun x hx y hy => ?_
    have hlt := hlabels x hx y hy
    have hin : Inside labels.shape [x, y] := by
      rw [hl]
      exact ⟨hx, hy, trivial⟩
    have hcell : Inside (scaleLogits (plainLogits cap weight hiddenStates) temperature).shape [x, y, labels.get [x, y]] := by
      rw [hlogits]
      exact ⟨hx, hy, hlt, trivial⟩
    rw [get_unflat hspec.shapeLogprobs hx hy, hspec.logprobs _ (place_lt hx hy), get_flat hl hx hy,
      logSoftmax_congr (hrow x hx y hy) (Finset.mem_range.2 hlt), selectiveLogSoftmax, get_ofFn hin]
    show _ = (ofFn _ _).get [x, y, labels.get [x, y]]
    rw [get_ofFn hcell, size_of_shape hlogits]
    rfl
  have hentropy : (chunkedForward cap (min v 8192) fresh (hiddenStates.reshape [b * s, h]) weight
      (labels.reshape [b * s]) invT c).entropy.reshape [b, s] =
      computeEntropy (scaleLogits (plainLogits cap weight hiddenStates) temperature) := by
    have hshape : (computeEntropy (scaleLogits (plainLogits cap weight hiddenStates) temperature)).shape = [b, s] := by
      rw [computeEntropy, shape_ofFn, size_of_shape hlogits, size_of_shape hlogits]
      rfl
    refine ext₂ (shape_reshape _ _) hshape fun x hx y hy => ?_
    have hin : Inside (computeEntropy (scaleLogits (plainLogits cap weight hiddenStates) temperature)).shape [x, y] := by
      rw [hshape]
      exact ⟨hx, hy, trivial⟩
    rw [get_unflat hspec.shapeEntropy hx hy, hspec.entropy _ (place_lt hx hy), entropy_congr (hrow x hx y hy)]
    rw [computeEntropy, shape_ofFn] at hin
    rw [computeEntropy, get_ofFn hin, size_of_shape hlogits]
    rfl
  unfold headForward
  dsimp only [Option.elim]
  rw [size_of_shape hh, size_of_shape hh, size_of_shape hh]
  show (do let r ← capForward cap fresh (hiddenStates.reshape [b * s, h]) weight (labels.reshape [b * s]) invT c
           _ : Except String PrimeLmOutput) = _
  rw [capForward_ok cap fresh hc (shape_reshape hiddenStates [b * s, h]) hw (shape_reshape labels [b * s]) rfl]
  exact congrArg₂ (fun logprobs entropy => Except.ok (PrimeLmOutput.mk logprobs entropy)) hlogprobs hentropy

/-! ## The chunks -/

/-- Outputs computed up to the last token are determined by the logits and the labels. -/
theorem Outputs.Upto.unique {out out' : Outputs} {x : Nat → Nat → ℝ} {labels : Tensor Nat} (h : out.Upto n v x labels n)
    (h' : out'.Upto n v x labels n) : out = out' := by
  have hvec : ∀ {t u : Tensor ℝ}, t.shape = [n] → u.shape = [n] → (∀ i < n, t.get [i] = u.get [i]) → t = u := by
    intro t u ht hu hget
    refine ext_inside (ht.trans hu.symm) fun idx hin => ?_
    rw [ht] at hin
    match idx, hin with
    | [i], hin => exact hget i hin.1
  have hlogprobs := hvec h.shapeLogprobs h'.shapeLogprobs fun i hi => by rw [h.logprobs i hi, h'.logprobs i hi]
  have hentropy := hvec h.shapeEntropy h'.shapeEntropy fun i hi => by rw [h.entropy i hi, h'.entropy i hi]
  have hlogz := hvec h.shapeLogz h'.shapeLogz fun i hi => by rw [h.logz i hi, h'.logz i hi]
  cases out
  cases out'
  simp only at hlogprobs hentropy hlogz
  rw [hlogprobs, hentropy, hlogz]

/-- **The chunk sizes do not matter.** -/
theorem chunkedForward_chunks (cap : Cap) (hc : 0 < c) (hvc : 0 < vc) {c' vc' : Nat} (hc' : 0 < c') (hvc' : 0 < vc')
    (hv : 0 < v) (hfresh : ∀ s, (fresh s).shape = s) {hidden invT : Tensor ℝ} {labels : Tensor Nat}
    (hh : hidden.shape = [n, h]) (hw : weight.shape = [v, h]) (hl : labels.shape = [n]) (ht : invT.shape = [n])
    (hlabels : ∀ i < n, labels.get [i] < v) :
    chunkedForward cap vc fresh hidden weight labels invT c = chunkedForward cap vc' fresh hidden weight labels invT c' :=
  (chunkedForward_spec cap hc hvc hv hfresh hh hw hl ht hlabels).unique
    (chunkedForward_spec cap hc' hvc' hv hfresh hh hw hl ht hlabels)

end

/-! ## The gradients -/

/-- The log-probabilities a forward returns. -/
def logprobsOf (r : Except String (Ctx × Tensor ℝ × Tensor ℝ)) : Tensor ℝ :=
  match r with
  | .ok (_, logprobs, _) => logprobs
  | .error _ => empty

/-- `gradHidden` and `gradWeight` are the derivatives of a forward's log-probabilities contracted with `grad`, in the
hidden states and in the weight. -/
structure Derivatives {n v h : Nat} (forward : Tensor ℝ → Tensor ℝ → Except String (Ctx × Tensor ℝ × Tensor ℝ))
    (grad : Tensor ℝ) (x : Fin n → Fin h → ℝ) (y : Fin v → Fin h → ℝ) (gradHidden gradWeight : Tensor ℝ) : Prop where
  shapeHidden : gradHidden.shape = [n, h]
  shapeWeight : gradWeight.shape = [v, h]
  hidden : HasFDerivAt (fun x : Fin n → Fin h → ℝ => contracted grad (logprobsOf (forward (tensorOf x) (tensorOf y))) n)
    (pairing n h gradHidden) x
  weight : HasFDerivAt (fun y : Fin v → Fin h → ℝ => contracted grad (logprobsOf (forward (tensorOf x) (tensorOf y))) n)
    (pairing v h gradWeight) y

section
variable {n v h c : Nat} {cap : Cap} {fresh : List Nat → Tensor ℝ} {labels : Tensor Nat} {invT grad : Tensor ℝ}

/-- **The backward of a forward returns its derivatives.** -/
theorem capBackward_derivatives (hcap : cap.Smooth) (name : String) (hc : 0 < c) (hv : 0 < v)
    (hfresh : ∀ s, (fresh s).shape = s) (hl : labels.shape = [n]) (ht : invT.shape = [n]) (hg : grad.shape = [n])
    (hlabels : ∀ i < n, labels.get [i] < v) {gradEntropy : Option (Tensor ℝ)}
    (hentropy : ∀ g ∈ gradEntropy, ∀ idx, g.get idx = 0) (x : Fin n → Fin h → ℝ) (y : Fin v → Fin h → ℝ) :
    ∃ ctx logprobs entropy grads, capForward cap fresh (tensorOf x) (tensorOf y) labels invT c =
        .ok (ctx, logprobs, entropy) ∧
      capBackward cap name ctx grad gradEntropy = .ok grads ∧
      Derivatives (fun hidden weight => capForward cap fresh hidden weight labels invT c) grad x y grads.hidden
        grads.weight := by
  have hvc : 0 < min v 8192 := by omega
  have hforward : ∀ (x : Fin n → Fin h → ℝ) (y : Fin v → Fin h → ℝ), logprobsOf (capForward cap fresh (tensorOf x)
      (tensorOf y) labels invT c) = (chunkedForward cap (min v 8192) fresh (tensorOf x) (tensorOf y) labels invT
        c).logprobs :=
    fun x y => by rw [capForward_ok cap fresh hc (shape_tensorOf x) (shape_tensorOf y) hl ht, logprobsOf]
  have hspec := chunkedForward_spec cap hc hvc hv hfresh (shape_tensorOf x) (shape_tensorOf y) hl ht hlabels
  obtain ⟨hsh, hsw, -, -⟩ := chunkedBackward_spec cap hc hvc (shape_tensorOf x) (shape_tensorOf y) hl hg ht
    hspec.shapeLogz
  refine ⟨_, _, _, chunkedBackward cap (min v 8192) (tensorOf x) (tensorOf y) labels invT _ c grad,
    capForward_ok cap fresh hc (shape_tensorOf x) (shape_tensorOf y) hl ht, ?_, hsh, hsw, ?_, ?_⟩
  · classical
    unfold capBackward
    rw [raiseUnless_of _ hentropy, size_of_shape (shape_tensorOf y)]
    rfl
  · simp only [hforward]
    exact hasFDerivAt_hidden hcap hc hvc hv hfresh (shape_tensorOf y) hl ht hg hlabels x
  · simp only [hforward]
    exact hasFDerivAt_weight hcap hc hvc hv hfresh (shape_tensorOf x) hl ht hg hlabels y

end

/-- **The fused heads are the plain ones**: their outputs are those computed of the plain head's logits over the
temperature, whatever the chunks, and their gradients are the derivatives of the log-probabilities. -/
theorem fused_eq_plain {fresh : List Nat → Tensor ℝ} (hfresh : ∀ s, (fresh s).shape = s) {softcap : ℝ}
    (hsoftcap : softcap ≠ 0) {v h c : Nat} (hv : 0 < v) (hc : 0 < c) :
    (∀ (b s : Nat) (weight hiddenStates temperature : Tensor ℝ) (labels : Tensor Nat), weight.shape = [v, h] →
      hiddenStates.shape = [b, s, h] → labels.shape = [b, s] → temperature.shape = [b, s] →
      (∀ x < b, ∀ y < s, labels.get [x, y] < v) →
      FusedOutputLinear.forward fresh weight c hiddenStates (some labels) (some temperature) =
          .ok (plainOutput (VanillaOutputLinear.forward weight hiddenStates) labels temperature) ∧
        GemmaFusedOutputLinear.forward fresh weight c softcap hiddenStates (some labels) (some temperature) =
          .ok (plainOutput (GemmaVanillaOutputLinear.forward softcap weight hiddenStates) labels temperature)) ∧
    (∀ (n : Nat) (weight hidden invT : Tensor ℝ) (labels : Tensor Nat), weight.shape = [v, h] → hidden.shape = [n, h] →
      labels.shape = [n] → invT.shape = [n] → (∀ i < n, labels.get [i] < v) → ∀ (cap : Cap) (c' vc vc' : Nat), 0 < c' →
      0 < vc → 0 < vc' → chunkedForward cap vc fresh hidden weight labels invT c =
        chunkedForward cap vc' fresh hidden weight labels invT c') ∧
    ∀ (n : Nat) (x : Fin n → Fin h → ℝ) (y : Fin v → Fin h → ℝ) (labels : Tensor Nat) (invT grad : Tensor ℝ)
      (gradEntropy : Option (Tensor ℝ)), labels.shape = [n] → invT.shape = [n] → grad.shape = [n] →
      (∀ i < n, labels.get [i] < v) → (∀ g ∈ gradEntropy, ∀ idx, g.get idx = 0) →
      (∃ ctx logprobs entropy gradHidden gradWeight,
        SequenceChunkedLogProbEntropyFn.forward fresh (tensorOf x) (tensorOf y) labels invT c =
          .ok (ctx, logprobs, entropy) ∧
        (∀ needsHidden needsWeight : Bool,
          SequenceChunkedLogProbEntropyFn.backward ctx needsHidden needsWeight grad gradEntropy =
            .ok (if needsHidden then some gradHidden else none, if needsWeight then some gradWeight else none)) ∧
        Derivatives (fun hidden weight => SequenceChunkedLogProbEntropyFn.forward fresh hidden weight labels invT c) grad
          x y gradHidden gradWeight) ∧
      ∃ ctx logprobs entropy grads,
        GemmaChunkedLogProbEntropyFn.forward fresh (tensorOf x) (tensorOf y) labels invT c softcap =
          .ok (ctx, logprobs, entropy) ∧
        GemmaChunkedLogProbEntropyFn.backward ctx softcap grad gradEntropy = .ok grads ∧
        Derivatives (fun hidden weight => GemmaChunkedLogProbEntropyFn.forward fresh hidden weight labels invT c softcap)
          grad x y grads.hidden grads.weight := by
  refine ⟨?_, ?_, ?_⟩
  · intro b s weight hiddenStates temperature labels hw hh hl ht hlabels
    exact ⟨headForward_eq noCap "FusedOutputLinear" hc hv hfresh hw hh hl ht hlabels,
      headForward_eq (softCap softcap) "GemmaFusedOutputLinear" hc hv hfresh hw hh hl ht hlabels⟩
  · intro n weight hidden invT labels hw hh hl ht hlabels cap c' vc vc' hc' hvc hvc'
    exact chunkedForward_chunks cap hc hvc hc' hvc' hv hfresh hh hw hl ht hlabels
  · intro n x y labels invT grad gradEntropy hl ht hg hlabels hentropy
    refine ⟨?_, capBackward_derivatives (softCap_smooth hsoftcap) "GemmaFusedOutputLinear" hc hv hfresh hl ht hg hlabels
      hentropy x y⟩
    obtain ⟨ctx, logprobs, entropy, grads, hforward, hbackward, hder⟩ :=
      capBackward_derivatives noCap_smooth "FusedOutputLinear" hc hv hfresh hl ht hg hlabels hentropy x y
    refine ⟨ctx, logprobs, entropy, grads.hidden, grads.weight, hforward, fun needsHidden needsWeight => ?_, hder⟩
    unfold SequenceChunkedLogProbEntropyFn.backward
    rw [hbackward]
    rfl

namespace Sample

/-- The weights of a vocabulary that takes two chunks, a row each. -/
noncomputable def vocabulary (v : Fin 8193) (k : Fin 2) : ℝ := if k = 0 then v else 1 - v

noncomputable def hiddens (i k : Fin 2) : ℝ := i - 2 * k

noncomputable def hiddenStates : Tensor ℝ := ofFn [1, 2, 2] fun idx => idx.getD 1 0 - 2 * idx.getD 2 0

/-- A label in the first chunk of the vocabulary, and one in the second. -/
def labels : Tensor Nat := ofFn [1, 2] fun idx => 8192 * idx.getD 1 0

noncomputable def temperature : Tensor ℝ := ofFn [1, 2] fun idx => 1 + idx.getD 1 0

end Sample

open Sample in
/-- Two tokens in chunks of one, and a vocabulary of two chunks; chunks of other sizes give the same. -/
theorem fused_two_tokens :
    FusedOutputLinear.forward (fun s => ofFn s fun _ => 0) (tensorOf vocabulary) 1 hiddenStates (some labels)
        (some temperature) =
      .ok (plainOutput (VanillaOutputLinear.forward (tensorOf vocabulary) hiddenStates) labels temperature) ∧
    GemmaFusedOutputLinear.forward (fun s => ofFn s fun _ => 0) (tensorOf vocabulary) 1 30 hiddenStates (some labels)
        (some temperature) =
      .ok (plainOutput (GemmaVanillaOutputLinear.forward 30 (tensorOf vocabulary) hiddenStates) labels temperature) ∧
    chunkedForward (softCap 30) 8192 (fun s => ofFn s fun _ => 0) (tensorOf hiddens) (tensorOf vocabulary)
        (labels.reshape [2]) (temperature.reshape [2]) 1 =
      chunkedForward (softCap 30) 3 (fun s => ofFn s fun _ => 0) (tensorOf hiddens) (tensorOf vocabulary)
        (labels.reshape [2]) (temperature.reshape [2]) 2 ∧
    ∃ gradHidden gradWeight, Derivatives (fun hidden weight => SequenceChunkedLogProbEntropyFn.forward
      (fun s => ofFn s fun _ => 0) hidden weight (labels.reshape [2]) (temperature.reshape [2]) 1)
        (temperature.reshape [2]) hiddens vocabulary gradHidden gradWeight := by
  have hsoftcap : (30 : ℝ) ≠ 0 := by norm_num
  have hlabels : ∀ x < 1, ∀ y < 2, labels.get [x, y] < 8193 := by decide +kernel
  have hflat : ∀ i < 2, (labels.reshape [2]).get [i] < 8193 := by decide +kernel
  obtain ⟨hheads, hchunks, hgradients⟩ :=
    @fused_eq_plain (fun s => ofFn s fun _ => 0) (fun _ => rfl) 30 hsoftcap 8193 2 1 (by decide) Nat.one_pos
  obtain ⟨hfused, hgemma⟩ := hheads 1 2 (tensorOf vocabulary) hiddenStates temperature labels rfl rfl rfl rfl hlabels
  obtain ⟨⟨_, _, _, gradHidden, gradWeight, -, -, hderivatives⟩, -⟩ :=
    hgradients 2 hiddens vocabulary _ (temperature.reshape [2]) (temperature.reshape [2]) none rfl rfl rfl hflat
      (fun g hg => by cases hg)
  refine ⟨hfused, hgemma, ?_, gradHidden, gradWeight, hderivatives⟩
  exact hchunks 2 (tensorOf vocabulary) (tensorOf hiddens) _ _ rfl rfl rfl rfl hflat _ 2 8192 3 (by decide) (by decide)
    (by decide)

end LmHead
end Aether
