import AetherRl.LmHeadForward
/-!
# LmHeadBackward — what the backward accumulates

Each chunk of tokens and of the vocabulary adds its part to the rows of its tokens and of its vocabulary entries.  Over
all of them a token has the sum over the vocabulary, and a vocabulary entry the sum over the tokens.
-/
namespace Aether
namespace LmHead

open Tensor Shape Checked Blocks LogSumExp

section
variable {n m p : Nat} {a b : Tensor ℝ}

theorem shape_matmul (ha : a.shape = [n, m]) (hb : b.shape = [m, p]) : (matmul a b).shape = [n, p] := by
  rw [matmul, shape_ofFn, size_of_shape ha, size_of_shape hb]
  rfl

theorem get_matmul (ha : a.shape = [n, m]) (hb : b.shape = [m, p]) {i j : Nat} (hi : i < n) (hj : j < p) :
    (matmul a b).get [i, j] = ∑ k ∈ Finset.range m, a.get [i, k] * b.get [k, j] := by
  have hin : Inside (matmul a b).shape [i, j] := by
    rw [shape_matmul ha hb]
    exact ⟨hi, hj, trivial⟩
  rw [matmul, shape_ofFn] at hin
  rw [matmul, get_ofFn hin, size_of_shape ha]
  rfl

end

/-- **Rows are added to in their place.** -/
theorem get_addRows {t part : Tensor ℝ} {m w start i k : Nat} {h : Nat} (ht : t.shape = [m, h]) (hp : part.shape = [w, h])
    (hw : start + w ≤ m) (hi : i < m) (hk : k < h) :
    (addRows start t part).get [i, k] =
      t.get [i, k] + if start ≤ i ∧ i < start + w then part.get [i - start, k] else 0 := by
  have hin : Inside [h] [k] := ⟨hk, trivial⟩
  have hsize : part.size 0 = w := size_of_shape hp 0
  have hsum : (ofFn part.shape fun idx => (t.narrow 0 start (start + part.size 0)).get idx + part.get idx).shape =
      [w, h] := hp
  rw [addRows, get_write ht hsum hi hin]
  by_cases hrow : start ≤ i ∧ i < start + w
  · have hcell : Inside part.shape [i - start, k] := by
      rw [hp]
      exact ⟨by omega, hk, trivial⟩
    have hback : start + (i - start) = i := by omega
    rw [if_pos hrow, if_pos hrow, get_ofFn hcell, hsize, get_rows ht (by omega) hin, hback]
  · rw [if_neg hrow, if_neg hrow, add_zero]

/-! ## The gradient of a logit -/

/-- The gradient of a scaled logit, where `isLabel` says whether it is the label's. -/
noncomputable def gradOf (cap : Cap) (logit grad invT logz : ℝ) (isLabel : Prop) [Decidable isLabel] : ℝ :=
  let prob := Real.exp (cap.apply logit * invT - logz)
  cap.chain logit ((if isLabel then -grad * prob + grad else -grad * prob) * invT)

/-- The gradient of the logit of vocabulary entry `j` at token `i`. -/
noncomputable def gradAt (cap : Cap) (hidden weight invT : Tensor ℝ) (labels : Tensor Nat) (grad logz : Tensor ℝ)
    (i j : Nat) : ℝ :=
  gradOf cap (logit hidden weight i j) (grad.get [i]) (invT.get [i]) (logz.get [i]) (j = labels.get [i])

section
variable {n v h vc c : Nat} {hidden weight invT grad logz : Tensor ℝ} {labels : Tensor Nat}

theorem shape_gradLogits (cap : Cap) (hh : hidden.shape = [n, h]) (hw : weight.shape = [v, h]) (start stop : Nat) :
    (gradLogits cap hidden weight labels grad invT logz start stop).shape = [n, v] := shape_logits hh hw

theorem get_gradLogits (cap : Cap) (hh : hidden.shape = [n, h]) (hw : weight.shape = [v, h]) (start stop : Nat)
    {i j : Nat} (hi : i < n) (hj : j < v) :
    (gradLogits cap hidden weight labels grad invT logz start stop).get [i, j] =
      gradOf cap (logit hidden weight i j) (grad.get [i]) (invT.get [i]) (logz.get [i])
        ((labels.get [i] ≥ start ∧ labels.get [i] < stop) ∧ j = labels.get [i] - start) := by
  have hscaled : Inside (scaledLogits cap hidden weight invT).shape [i, j] := by
    rw [shape_scaled cap invT hh hw]
    exact ⟨hi, hj, trivial⟩
  have hgrad : Inside (gradScaled labels grad (ofFn (scaledLogits cap hidden weight invT).shape fun idx =>
      Real.exp ((scaledLogits cap hidden weight invT).get idx - logz.get [idx.headD 0])) start stop).shape [i, j] := hscaled
  unfold gradLogits
  dsimp only
  rw [get_ofFn hgrad, get_logits hh hw hi hj, gradScaled, get_ofFn (by exact hscaled)]
  dsimp only
  rw [get_ofFn hscaled, get_scaled cap invT hh hw hi hj]
  rfl

/-- **A chunk's gradients are those of its tokens and its vocabulary entries.** -/
theorem get_gradLogits_block (cap : Cap) (hh : hidden.shape = [n, h]) (hw : weight.shape = [v, h])
    (hl : labels.shape = [n]) (hg : grad.shape = [n]) (ht : invT.shape = [n]) (hz : logz.shape = [n])
    {start vstart i j : Nat} (hi : i < min (start + c) n - start) (hj : j < min (vstart + vc) v - vstart) :
    (gradLogits cap (hidden.narrow 0 start (min (start + c) n)) (weight.narrow 0 vstart (min (vstart + vc) v))
      (labels.narrow 0 start (min (start + c) n)) (grad.narrow 0 start (min (start + c) n))
      (invT.narrow 0 start (min (start + c) n)) (logz.narrow 0 start (min (start + c) n)) vstart
      (min (vstart + vc) v)).get [i, j] = gradAt cap hidden weight invT labels grad logz (start + i) (vstart + j) := by
  have hnil : Inside [] [] := trivial
  have hmask : ((labels.get [start + i] ≥ vstart ∧ labels.get [start + i] < min (vstart + vc) v) ∧
      j = labels.get [start + i] - vstart) ↔ vstart + j = labels.get [start + i] := by omega
  rw [get_gradLogits cap (shape_block hh) (shape_block hw) _ _ hi hj, logit_block _ hh hi, logit_vocab hh hw hj,
    get_block hg hi hnil, get_block ht hi hnil, get_block hz hi hnil, get_block hl hi hnil, gradAt, gradOf, gradOf]
  simp only [hmask]

/-! ## The loops -/

/-- What the loop over the vocabulary has added for the tokens from `start` to `stop` to the gradients `g`, below entry
`K`. -/
structure Grads.Added (grads g : Grads) (hidden weight : Tensor ℝ) (G : Nat → Nat → ℝ) (n v h start stop K : Nat) :
    Prop where
  shapeHidden : grads.hidden.shape = [n, h]
  shapeWeight : grads.weight.shape = [v, h]
  tokens : ∀ i < n, ∀ k < h, grads.hidden.get [i, k] =
    g.hidden.get [i, k] + if start ≤ i ∧ i < stop then ∑ j ∈ Finset.range K, G i j * weight.get [j, k] else 0
  entries : ∀ j < v, ∀ k < h, grads.weight.get [j, k] =
    g.weight.get [j, k] + if j < K then ∑ i ∈ Finset.range (stop - start), G (start + i) j * hidden.get [start + i, k] else 0

/-- **The loop over the vocabulary** adds the whole sum to the tokens of the chunk, and their part to every entry. -/
theorem gradTokenStep_spec (cap : Cap) (hvc : 0 < vc) (hh : hidden.shape = [n, h]) (hw : weight.shape = [v, h])
    (hl : labels.shape = [n]) (hg : grad.shape = [n]) (ht : invT.shape = [n]) (hz : logz.shape = [n]) {g : Grads}
    (hgh : g.hidden.shape = [n, h]) (hgw : g.weight.shape = [v, h]) {start : Nat} (hstart : start < n) :
    (gradTokenStep cap vc c hidden weight labels grad invT logz g start).Added g hidden weight
      (gradAt cap hidden weight invT labels grad logz) n v h start (min (start + c) n) v := by
  have hn : hidden.size 0 = n := size_of_shape hh 0
  have hv : weight.size 0 = v := size_of_shape hw 0
  unfold gradTokenStep
  dsimp only
  rw [hn, hv]
  refine foldl_starts hvc (P := fun K (grads : Grads) => grads.Added g hidden weight
    (gradAt cap hidden weight invT labels grad logz) n v h start (min (start + c) n) K) ?_ ?_
  · refine ⟨hgh, hgw, fun i _ k _ => ?_, fun j _ k _ => ?_⟩
    · rw [Finset.range_zero, Finset.sum_empty, ite_self, add_zero]
    · rw [if_neg (Nat.not_lt_zero j), add_zero]
  · intro grads vstart hvstart ⟨hsh, hsw, hgets, hgetsW⟩
    obtain ⟨w, hwidth⟩ : ∃ w, min (start + c) n - start = w := ⟨_, rfl⟩
    obtain ⟨u, hcols⟩ : ∃ u, min (vstart + vc) v - vstart = u := ⟨_, rfl⟩
    have hhs : (hidden.narrow 0 start (min (start + c) n)).shape = [w, h] := hwidth ▸ shape_block hh
    have hws : (weight.narrow 0 vstart (min (vstart + vc) v)).shape = [u, h] := hcols ▸ shape_block hw
    let G := gradLogits cap (hidden.narrow 0 start (min (start + c) n)) (weight.narrow 0 vstart (min (vstart + vc) v))
      (labels.narrow 0 start (min (start + c) n)) (grad.narrow 0 start (min (start + c) n))
      (invT.narrow 0 start (min (start + c) n)) (logz.narrow 0 start (min (start + c) n)) vstart (min (vstart + vc) v)
    have hG : G.shape = [w, u] := shape_gradLogits cap hhs hws _ _
    have hget : ∀ i < w, ∀ j < u, G.get [i, j] =
        gradAt cap hidden weight invT labels grad logz (start + i) (vstart + j) :=
      fun i hi j hj => get_gradLogits_block cap hh hw hl hg ht hz (hwidth ▸ hi) (hcols ▸ hj)
    have hpart := shape_matmul hG hws
    have hpartW := shape_matmul (shape_transpose hG) hhs
    have hrows : start + w ≤ n := by omega
    have hcolsLe : vstart + u ≤ v := by omega
    unfold gradVocabStep
    dsimp only
    rw [hv]
    refine ⟨hsh, hsw, fun i hi k hk => ?_, fun j hj k hk => ?_⟩
    · show (addRows start grads.hidden (matmul G _)).get [i, k] = _
      rw [get_addRows hsh hpart hrows hi hk, hgets i hi k hk, add_assoc]
      congr 1
      by_cases hin : start ≤ i ∧ i < min (start + c) n
      · have hback : start + (i - start) = i := by omega
        rw [if_pos hin, if_pos hin, if_pos (by omega), get_matmul hG hws (by omega) hk,
          sum_block _ (show vstart ≤ min (vstart + vc) v by omega), hcols]
        congr 1
        refine Finset.sum_congr rfl fun j hj => ?_
        have hj := Finset.mem_range.1 hj
        have hk' : Inside [h] [k] := ⟨hk, trivial⟩
        rw [hget _ (by omega) j hj, hback, get_block hw (hcols ▸ hj) hk']
      · rw [if_neg hin, if_neg hin, if_neg (by omega), add_zero]
    · show (addRows vstart grads.weight (matmul (transpose G) _)).get [j, k] = _
      rw [get_addRows hsw hpartW hcolsLe hj hk, hgetsW j hj k hk, add_assoc]
      congr 1
      by_cases hin : vstart ≤ j ∧ j < vstart + u
      · have hback : vstart + (j - vstart) = j := by omega
        rw [if_pos hin, if_neg (by omega), if_pos (by omega), zero_add, get_matmul (shape_transpose hG) hhs (by omega) hk,
          hwidth]
        refine Finset.sum_congr rfl fun i hi => ?_
        have hi := Finset.mem_range.1 hi
        have hk' : Inside [h] [k] := ⟨hk, trivial⟩
        rw [get_transpose hG hi (by omega), hget i hi _ (by omega), hback, get_block hh (hwidth ▸ hi) hk']
      · rw [if_neg hin, add_zero]
        by_cases hlt : j < vstart
        · rw [if_pos hlt, if_pos (by omega)]
        · rw [if_neg hlt, if_neg (by omega)]

/-- **What the backward returns**: a token's gradient sums the vocabulary, an entry's sums the tokens. -/
theorem chunkedBackward_spec (cap : Cap) (hc : 0 < c) (hvc : 0 < vc) (hh : hidden.shape = [n, h])
    (hw : weight.shape = [v, h]) (hl : labels.shape = [n]) (hg : grad.shape = [n]) (ht : invT.shape = [n])
    (hz : logz.shape = [n]) :
    (chunkedBackward cap vc hidden weight labels invT logz c grad).hidden.shape = [n, h] ∧
    (chunkedBackward cap vc hidden weight labels invT logz c grad).weight.shape = [v, h] ∧
    (∀ i < n, ∀ k < h, (chunkedBackward cap vc hidden weight labels invT logz c grad).hidden.get [i, k] =
      ∑ j ∈ Finset.range v, gradAt cap hidden weight invT labels grad logz i j * weight.get [j, k]) ∧
    ∀ j < v, ∀ k < h, (chunkedBackward cap vc hidden weight labels invT logz c grad).weight.get [j, k] =
      ∑ i ∈ Finset.range n, gradAt cap hidden weight invT labels grad logz i j * hidden.get [i, k] := by
  have hn : hidden.size 0 = n := size_of_shape hh 0
  have hrule := foldl_starts (n := n) (c := c) hc
    (f := gradTokenStep cap vc c hidden weight labels grad invT logz)
    (P := fun pos (grads : Grads) => grads.hidden.shape = [n, h] ∧ grads.weight.shape = [v, h] ∧
      (∀ i < n, ∀ k < h, grads.hidden.get [i, k] = if i < pos then
        ∑ j ∈ Finset.range v, gradAt cap hidden weight invT labels grad logz i j * weight.get [j, k] else 0) ∧
      ∀ j < v, ∀ k < h, grads.weight.get [j, k] =
        ∑ i ∈ Finset.range pos, gradAt cap hidden weight invT labels grad logz i j * hidden.get [i, k])
    (b := ⟨ofFn hidden.shape fun _ => 0, ofFn weight.shape fun _ => 0⟩) ?_ ?_
  · obtain ⟨hsh, hsw, htok, hent⟩ := hrule
    unfold chunkedBackward
    rw [hn]
    refine ⟨hsh, hsw, fun i hi k hk => ?_, hent⟩
    rw [htok i hi k hk, if_pos hi]
  · refine ⟨hh, hw, fun i hi k hk => ?_, fun j hj k hk => ?_⟩
    · have hin : Inside hidden.shape [i, k] := by
        rw [hh]
        exact ⟨hi, hk, trivial⟩
      rw [if_neg (Nat.not_lt_zero i)]
      exact get_ofFn hin
    · have hin : Inside weight.shape [j, k] := by
        rw [hw]
        exact ⟨hj, hk, trivial⟩
      rw [Finset.range_zero, Finset.sum_empty]
      exact get_ofFn hin
  · intro g start hstart ⟨hsh, hsw, htok, hent⟩
    obtain ⟨hsh', hsw', htok', hent'⟩ := gradTokenStep_spec (c := c) cap hvc hh hw hl hg ht hz hsh hsw hstart
    refine ⟨hsh', hsw', fun i hi k hk => ?_, fun j hj k hk => ?_⟩
    · rw [htok' i hi k hk, htok i hi k hk]
      by_cases hbefore : i < start
      · rw [if_pos hbefore, if_neg (by omega), if_pos (by omega), add_zero]
      · by_cases hin : i < min (start + c) n
        · rw [if_neg hbefore, if_pos ⟨by omega, hin⟩, if_pos hin, zero_add]
        · rw [if_neg hbefore, if_neg (by omega), if_neg hin, add_zero]
    · rw [hent' j hj k hk, hent j hj k hk, if_pos hj, ← sum_block _ (show start ≤ min (start + c) n by omega)]

end

end LmHead
end Aether
