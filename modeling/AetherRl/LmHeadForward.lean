import AetherRl.LmHead
import AetherRl.Heads
/-!
# LmHeadForward — the loops compute the log-softmax and the entropy

After each chunk of the vocabulary the state of a token is that of the recurrence over the logits so far, and its target
logit is its label's once the label has passed; after each chunk of tokens the entries so far are computed.
-/
namespace Aether
namespace LmHead

open Tensor Shape Checked Blocks LogSumExp

/-! ## Entries -/

section
variable {n v h : Nat} {a b : Tensor ℝ}

/-- The logit of vocabulary entry `j` at token `i`. -/
noncomputable def logit (hidden weight : Tensor ℝ) (i j : Nat) : ℝ :=
  ∑ k ∈ Finset.range (hidden.size 1), hidden.get [i, k] * weight.get [j, k]

theorem shape_transpose (hb : b.shape = [v, h]) : (transpose b).shape = [h, v] := by
  simp only [transpose, permute, shape_ofFn, List.map_cons, List.map_nil, size, hb]
  rfl

theorem get_transpose (hb : b.shape = [v, h]) {j k : Nat} (hj : j < v) (hk : k < h) :
    (transpose b).get [k, j] = b.get [j, k] :=
  get_permuted (shape_transpose hb) ⟨hk, hj, trivial⟩ rfl

theorem shape_logits (ha : a.shape = [n, h]) (hb : b.shape = [v, h]) : (matmul a (transpose b)).shape = [n, v] := by
  rw [matmul, shape_ofFn, size_of_shape ha, size_of_shape (shape_transpose hb)]
  rfl

theorem get_logits (ha : a.shape = [n, h]) (hb : b.shape = [v, h]) {i j : Nat} (hi : i < n) (hj : j < v) :
    (matmul a (transpose b)).get [i, j] = logit a b i j := by
  have hin : Inside (matmul a (transpose b)).shape [i, j] := by
    rw [shape_logits ha hb]
    exact ⟨hi, hj, trivial⟩
  rw [matmul, shape_ofFn] at hin
  rw [matmul, get_ofFn hin, logit, size_of_shape ha]
  refine Finset.sum_congr rfl fun k hk => ?_
  rw [get_transpose hb hj (Finset.mem_range.1 hk)]

theorem shape_scaled (cap : Cap) (t : Tensor ℝ) (ha : a.shape = [n, h]) (hb : b.shape = [v, h]) :
    (scaledLogits cap a b t).shape = [n, v] := shape_logits ha hb

theorem get_scaled (cap : Cap) (t : Tensor ℝ) (ha : a.shape = [n, h]) (hb : b.shape = [v, h]) {i j : Nat} (hi : i < n)
    (hj : j < v) : (scaledLogits cap a b t).get [i, j] = cap.apply (logit a b i j) * t.get [i] := by
  have hin : Inside (matmul a (transpose b)).shape [i, j] := by
    rw [shape_logits ha hb]
    exact ⟨hi, hj, trivial⟩
  rw [scaledLogits, get_ofFn hin, get_logits ha hb hi hj]
  rfl

/-- A write reads the part inside it. -/
theorem get_write {α : Type} [Zero α] {t part : Tensor α} {m w start i : Nat} {s idx : List Nat} (ht : t.shape = m :: s)
    (hp : part.shape = w :: s) (hi : i < m) (hin : Inside s idx) :
    (t.write 0 start part).get (i :: idx) =
      if start ≤ i ∧ i < start + w then part.get ((i - start) :: idx) else t.get (i :: idx) := by
  have hout : Inside t.shape (i :: idx) := by
    rw [ht]
    exact ⟨hi, hin⟩
  rw [write, get_ofFn hout, size_of_shape hp]
  rfl

/-- The rows of a block. -/
theorem shape_block {α : Type} [Zero α] {t : Tensor α} {m start c : Nat} {s : List Nat} (ht : t.shape = m :: s) :
    (t.narrow 0 start (min (start + c) m)).shape = (min (start + c) m - start) :: s := by
  rw [shape_rows ht, Nat.min_eq_left (Nat.min_le_right _ _)]

theorem get_block {α : Type} [Zero α] {t : Tensor α} {m start c i : Nat} {s idx : List Nat} (ht : t.shape = m :: s)
    (hi : i < min (start + c) m - start) (hin : Inside s idx) :
    (t.narrow 0 start (min (start + c) m)).get (i :: idx) = t.get ((start + i) :: idx) := by
  refine get_rows ht ?_ hin
  rw [Nat.min_eq_left (Nat.min_le_right _ _)]
  exact hi

end

/-! ## The vocabulary -/

/-- The state of the recurrence for `w` tokens with logits `x`, after the entries below `K`. -/
structure Online.After (o : Online) (w K : Nat) (x : Nat → Nat → ℝ) : Prop where
  shapeM : o.m.shape = [w]
  shapeS : o.s.shape = [w]
  shapeT : o.t.shape = [w]
  absorbed : ∀ i < w, Absorbed (Finset.range K) (x i) (o.m.get [i]) (o.s.get [i]) (o.t.get [i])

section
variable {o : Online} {w c K : Nat} {x : Nat → Nat → ℝ} {chunk : Tensor ℝ}

/-- **A chunk of logits is absorbed.** -/
theorem Online.After.update (h : o.After w K x) (hc : 0 < c) (hs : chunk.shape = [w, c])
    (hx : ∀ i < w, ∀ j < c, chunk.get [i, j] = x i (K + j)) :
    (onlineLogsumexpAndWeightedUpdate o chunk).After w (K + c) x := by
  obtain ⟨hm, hss, ht, habs⟩ := h
  refine ⟨hm, hm, hm, fun i hi => ?_⟩
  have hin : Inside o.m.shape [i] := by
    rw [hm]
    exact ⟨hi, trivial⟩
  have hsize : chunk.size 1 = c := size_of_shape hs 1
  have hcell : ∀ j < c, Inside chunk.shape [i, j] := by
    intro j hj
    rw [hs]
    exact ⟨hi, hj, trivial⟩
  obtain ⟨M, hM⟩ : ∃ M : ℝ, max (o.m.get [i]) ((Finset.range c).sup fun j => (chunk.get [i, j] : WithBot ℝ)) = M := by
    have hle : (chunk.get [i, 0] : WithBot ℝ) ≤ (Finset.range c).sup fun j => (chunk.get [i, j] : WithBot ℝ) :=
      Finset.le_sup (f := fun j => (chunk.get [i, j] : WithBot ℝ)) (Finset.mem_range.2 hc)
    have hne : max (o.m.get [i]) ((Finset.range c).sup fun j => (chunk.get [i, j] : WithBot ℝ)) ≠ ⊥ := by
      intro hbot
      have hbot := (hle.trans (le_max_right (o.m.get [i]) _)).trans_eq hbot
      exact WithBot.coe_ne_bot (le_bot_iff.1 hbot)
    obtain ⟨M, hM⟩ := WithBot.ne_bot_iff_exists.1 hne
    exact ⟨M, hM.symm⟩
  have hdisj : Disjoint (Finset.range K) (Finset.Ico K (K + c)) := by
    rw [Finset.disjoint_left]
    intro j hj hj'
    simp only [Finset.mem_range, Finset.mem_Ico] at hj hj'
    omega
  have hunion : Finset.range K ∪ Finset.Ico K (K + c) = Finset.range (K + c) := by
    ext j
    simp only [Finset.mem_union, Finset.mem_range, Finset.mem_Ico]
    omega
  have hstep := (habs i hi).block hdisj M
  rw [hunion, Finset.sum_Ico_eq_sum_range, Finset.sum_Ico_eq_sum_range, Nat.add_sub_cancel_left] at hstep
  let mNew : Tensor (WithBot ℝ) := ofFn o.m.shape fun idx => max (o.m.get idx)
    ((ofFn o.m.shape fun idx => (Finset.range c).sup fun j => (chunk.get (idx ++ [j]) : WithBot ℝ)).get idx)
  have hnew : mNew.get [i] = M := by
    rw [get_ofFn hin, get_ofFn hin]
    exact hM
  let expOld := ofFn o.m.shape fun idx => expSub (o.m.get idx) (mNew.get idx)
  let chunkExp := ofFn chunk.shape fun idx => expSub (chunk.get idx : WithBot ℝ) (mNew.get idx.dropLast)
  have hold : expOld.get [i] = expSub (o.m.get [i]) M := by rw [get_ofFn hin, hnew]
  have hexp : ∀ j < c, chunkExp.get [i, j] = Real.exp (x i (K + j) - M) := by
    intro j hj
    rw [get_ofFn (hcell j hj)]
    show expSub _ (mNew.get [i]) = _
    rw [hnew, expSub_coe, hx i hi j hj]
  have hplain : ∑ j ∈ Finset.range c, chunkExp.get [i, j] = ∑ j ∈ Finset.range c, Real.exp (x i (K + j) - M) :=
    Finset.sum_congr rfl fun j hj => hexp j (Finset.mem_range.1 hj)
  have hweighted : ∑ j ∈ Finset.range c, chunkExp.get [i, j] * chunk.get [i, j] =
      ∑ j ∈ Finset.range c, Real.exp (x i (K + j) - M) * x i (K + j) :=
    Finset.sum_congr rfl fun j hj => by rw [hexp j (Finset.mem_range.1 hj), hx i hi j (Finset.mem_range.1 hj)]
  have hs' : (ofFn o.m.shape fun idx => o.s.get idx * expOld.get idx +
      ∑ j ∈ Finset.range c, chunkExp.get (idx ++ [j])).get [i] =
      o.s.get [i] * expOld.get [i] + ∑ j ∈ Finset.range c, chunkExp.get [i, j] := get_ofFn hin
  have ht' : (ofFn o.m.shape fun idx => o.t.get idx * expOld.get idx +
      ∑ j ∈ Finset.range c, chunkExp.get (idx ++ [j]) * chunk.get (idx ++ [j])).get [i] =
      o.t.get [i] * expOld.get [i] + ∑ j ∈ Finset.range c, chunkExp.get [i, j] * chunk.get [i, j] := get_ofFn hin
  rw [hold, hplain] at hs'
  rw [hold, hweighted] at ht'
  rw [← hs', ← ht', ← hnew] at hstep
  unfold onlineLogsumexpAndWeightedUpdate
  dsimp only
  rw [hsize]
  exact hstep

end

/-- The logits the heads compute. -/
noncomputable def capped (cap : Cap) (hidden weight invT : Tensor ℝ) (i j : Nat) : ℝ :=
  cap.apply (logit hidden weight i j) * invT.get [i]

section
variable {n v h vc : Nat} {hidden weight : Tensor ℝ}

/-- The logits of a block of tokens. -/
theorem logit_block (weight : Tensor ℝ) (hh : hidden.shape = [n, h]) {start c i : Nat} (hi : i < min (start + c) n - start)
    (j : Nat) : logit (hidden.narrow 0 start (min (start + c) n)) weight i j = logit hidden weight (start + i) j := by
  rw [logit, logit, size_of_shape (shape_block hh), size_of_shape hh]
  refine Finset.sum_congr rfl fun k hk => ?_
  have hk' : Inside [h] [k] := ⟨Finset.mem_range.1 hk, trivial⟩
  rw [get_block hh hi hk']

theorem capped_block (cap : Cap) (weight : Tensor ℝ) {invT : Tensor ℝ} (hh : hidden.shape = [n, h]) (ht : invT.shape = [n])
    {start c i : Nat} (hi : i < min (start + c) n - start) (j : Nat) :
    capped cap (hidden.narrow 0 start (min (start + c) n)) weight (invT.narrow 0 start (min (start + c) n)) i j =
      capped cap hidden weight invT (start + i) j := by
  have hnil : Inside [] [] := trivial
  rw [capped, capped, logit_block weight hh hi, get_block ht hi hnil]

/-- The logits of a block of the vocabulary. -/
theorem logit_vocab (hh : hidden.shape = [n, h]) {weight : Tensor ℝ} (hw : weight.shape = [v, h]) {start c j : Nat}
    (hj : j < min (start + c) v - start) (i : Nat) :
    logit hidden (weight.narrow 0 start (min (start + c) v)) i j = logit hidden weight i (start + j) := by
  rw [logit, logit]
  refine Finset.sum_congr rfl fun k hk => ?_
  rw [size_of_shape hh] at hk
  have hk' : Inside [h] [k] := ⟨Finset.mem_range.1 hk, trivial⟩
  rw [get_block hw hj hk']

/-- **The loop over the vocabulary** leaves the recurrence's state over all logits, and the logit of each label. -/
theorem vocabLoop_spec (cap : Cap) (labels : Tensor Nat) (invT : Tensor ℝ) (hvc : 0 < vc) (hh : hidden.shape = [n, h]) (hw : weight.shape = [v, h]) :
    (vocabLoop cap vc hidden weight labels invT).1.After n v (capped cap hidden weight invT) ∧
      (vocabLoop cap vc hidden weight labels invT).2.shape = [n] ∧
      ∀ i < n, labels.get [i] < v →
        (vocabLoop cap vc hidden weight labels invT).2.get [i] = capped cap hidden weight invT i (labels.get [i]) := by
  have hn : hidden.size 0 = n := size_of_shape hh 0
  have hv : weight.size 0 = v := size_of_shape hw 0
  have hrule := foldl_starts (n := v) (c := vc) hvc
    (f := vocabStep cap vc hidden weight labels invT)
    (P := fun K acc => acc.1.After n K (capped cap hidden weight invT) ∧ acc.2.shape = [n] ∧
      ∀ i < n, labels.get [i] < K → acc.2.get [i] = capped cap hidden weight invT i (labels.get [i]))
    (b := (⟨ofFn [n] fun _ => ⊥, ofFn [n] fun _ => 0, ofFn [n] fun _ => 0⟩, ofFn [n] fun _ => 0)) ?_ ?_
  · unfold vocabLoop
    rw [hn, hv]
    exact hrule
  · refine ⟨⟨rfl, rfl, rfl, fun i hi => ?_⟩, rfl, fun i _ hlt => absurd hlt (Nat.not_lt_zero _)⟩
    have hin : Inside [n] [i] := ⟨hi, trivial⟩
    show Absorbed _ _ ((ofFn [n] fun _ => ⊥).get [i]) ((ofFn [n] fun _ => 0).get [i]) ((ofFn [n] fun _ => 0).get [i])
    rw [get_ofFn hin, get_ofFn hin]
    exact .start rfl
  · intro acc start hstart ⟨hafter, hshape, htarget⟩
    have hblock : (weight.narrow 0 start (min (start + vc) v)).shape = [min (start + vc) v - start, h] := shape_block hw
    have hc : 0 < min (start + vc) v - start := by omega
    have hend : start + (min (start + vc) v - start) = min (start + vc) v := by omega
    have hscaled : ∀ i < n, ∀ j < min (start + vc) v - start,
        (scaledLogits cap hidden (weight.narrow 0 start (min (start + vc) v)) invT).get [i, j] =
          capped cap hidden weight invT i (start + j) := by
      intro i hi j hj
      rw [get_scaled cap invT hh hblock hi hj, capped, logit_vocab hh hw hj]
    have hupdate := hafter.update hc (shape_scaled cap invT hh hblock) hscaled
    rw [hend] at hupdate
    unfold vocabStep
    dsimp only
    rw [hv]
    refine ⟨hupdate, hshape, fun i hi hlt => ?_⟩
    have hin : Inside acc.2.shape [i] := by
      rw [hshape]
      exact ⟨hi, trivial⟩
    rw [get_ofFn hin]
    by_cases hpast : labels.get [i] < start
    · rw [if_neg (by omega), htarget i hi hpast]
    · have hsub : start + (labels.get [i] - start) = labels.get [i] := by omega
      rw [if_pos ⟨by omega, hlt⟩]
      show (scaledLogits _ _ _ _).get [i, labels.get [i] - start] = _
      rw [hscaled i hi _ (by omega), hsub]

end

/-! ## The tokens -/

/-- The entries of the first `pos` tokens are those of the full logits `x`. -/
structure Outputs.Upto (out : Outputs) (n v : Nat) (x : Nat → Nat → ℝ) (labels : Tensor Nat) (pos : Nat) : Prop where
  shapeLogprobs : out.logprobs.shape = [n]
  shapeEntropy : out.entropy.shape = [n]
  shapeLogz : out.logz.shape = [n]
  logprobs : ∀ i < pos, out.logprobs.get [i] = logSoftmax (Finset.range v) (x i) (labels.get [i])
  entropy : ∀ i < pos, out.entropy.get [i] = LogSumExp.entropy (Finset.range v) (x i)
  logz : ∀ i < pos, out.logz.get [i] = logSumExp (Finset.range v) (x i)

section
variable {n v h vc c : Nat} {hidden weight invT : Tensor ℝ} {labels : Tensor Nat} {fresh : List Nat → Tensor ℝ}

/-- A write at `start` extends what is computed. -/
theorem get_write_upto {t part : Tensor ℝ} {f : Nat → ℝ} {start w : Nat} (ht : t.shape = [n]) (hp : part.shape = [w])
    (hw : start + w ≤ n) (hbefore : ∀ i < start, t.get [i] = f i) (hpart : ∀ i < w, part.get [i] = f (start + i)) :
    ∀ i < start + w, (t.write 0 start part).get [i] = f i := by
  intro i hi
  have hnil : Inside [] [] := trivial
  rw [get_write ht hp (hi.trans_le hw) hnil]
  by_cases hin : start ≤ i
  · rw [if_pos ⟨hin, hi⟩, hpart _ (by omega), Nat.add_sub_cancel' hin]
  · rw [if_neg fun h => hin h.1, hbefore i (Nat.lt_of_not_le hin)]

/-- **The loop over the tokens** computes the log-softmax, the entropy and the normaliser of every token. -/
theorem chunkedForward_spec (cap : Cap) (hc : 0 < c) (hvc : 0 < vc) (hv : 0 < v) (hfresh : ∀ s, (fresh s).shape = s)
    (hh : hidden.shape = [n, h]) (hw : weight.shape = [v, h]) (hl : labels.shape = [n]) (ht : invT.shape = [n])
    (hlabels : ∀ i < n, labels.get [i] < v) :
    (chunkedForward cap vc fresh hidden weight labels invT c).Upto n v (capped cap hidden weight invT) labels n := by
  have hn : hidden.size 0 = n := size_of_shape hh 0
  unfold chunkedForward
  dsimp only
  rw [hn]
  refine foldl_starts hc (P := fun pos (out : Outputs) => out.Upto n v (capped cap hidden weight invT) labels pos) ?_ ?_
  · exact ⟨hfresh _, hfresh _, hfresh _, fun i hi => absurd hi (Nat.not_lt_zero i),
      fun i hi => absurd hi (Nat.not_lt_zero i), fun i hi => absurd hi (Nat.not_lt_zero i)⟩
  · intro out start hstart hout
    obtain ⟨w, hwidth⟩ : ∃ w, min (start + c) n - start = w := ⟨_, rfl⟩
    have hstop : min (start + c) n = start + w := by omega
    have hin : start + w ≤ n := by omega
    have hhs : (hidden.narrow 0 start (min (start + c) n)).shape = [w, h] := hwidth ▸ shape_block hh
    have hnil : Inside [] [] := trivial
    obtain ⟨hafter, htshape, htarget⟩ := vocabLoop_spec cap (labels.narrow 0 start (min (start + c) n))
      (invT.narrow 0 start (min (start + c) n)) hvc hhs hw
    have hcapped : ∀ i < w, ∀ j, capped cap (hidden.narrow 0 start (min (start + c) n)) weight
        (invT.narrow 0 start (min (start + c) n)) i j = capped cap hidden weight invT (start + i) j :=
      fun i hi j => capped_block cap weight hh ht (hwidth ▸ hi) j
    unfold tokenStep
    dsimp only
    rw [hn]
    generalize vocabLoop cap vc (hidden.narrow 0 start (min (start + c) n)) weight
      (labels.narrow 0 start (min (start + c) n)) (invT.narrow 0 start (min (start + c) n)) = acc at hafter htshape htarget
    obtain ⟨o, target⟩ := acc
    dsimp only at hafter htshape htarget ⊢
    have hlabel : ∀ i < w, (labels.narrow 0 start (min (start + c) n)).get [i] = labels.get [start + i] :=
      fun i hi => get_block hl (hwidth ▸ hi) hnil
    have hrow : ∀ i < w, ∀ j ∈ Finset.range v, capped cap (hidden.narrow 0 start (min (start + c) n)) weight
        (invT.narrow 0 start (min (start + c) n)) i j = capped cap hidden weight invT (start + i) j :=
      fun i hi j _ => hcapped i hi j
    have hfinal : ∀ i < w, (o.m.get [i]).unbotD 0 + Real.log (o.s.get [i]) =
          logSumExp (Finset.range v) (capped cap hidden weight invT (start + i)) ∧
        o.t.get [i] / o.s.get [i] = ∑ j ∈ Finset.range v,
          softmax (Finset.range v) (capped cap hidden weight invT (start + i)) j *
            capped cap hidden weight invT (start + i) j :=
      fun i hi => ((hafter.absorbed i hi).congr (hrow i hi)).final (Finset.nonempty_range_iff.2 hv.ne')
    let logzChunk := ofFn o.m.shape fun idx => (o.m.get idx).unbotD 0 + Real.log (o.s.get idx)
    have hcell : ∀ i < w, Inside o.m.shape [i] := by
      intro i hi
      rw [hafter.shapeM]
      exact ⟨hi, trivial⟩
    have hlogz : ∀ i < w, logzChunk.get [i] =
        logSumExp (Finset.range v) (capped cap hidden weight invT (start + i)) :=
      fun i hi => (get_ofFn (hcell i hi)).trans (hfinal i hi).1
    have hprob : ∀ i < w, (ofFn o.m.shape fun idx => target.get idx - logzChunk.get idx).get [i] =
        logSoftmax (Finset.range v) (capped cap hidden weight invT (start + i)) (labels.get [start + i]) := by
      intro i hi
      have hlt := hlabels (start + i) (by omega)
      have hchunk := htarget i hi (by rw [hlabel i hi]; exact hlt)
      rw [hlabel i hi, hcapped i hi] at hchunk
      rw [get_ofFn (hcell i hi), hchunk, hlogz i hi, logSoftmax]
    have hentropy : ∀ i < w, (ofFn o.m.shape fun idx => logzChunk.get idx - o.t.get idx / o.s.get idx).get [i] =
        LogSumExp.entropy (Finset.range v) (capped cap hidden weight invT (start + i)) := by
      intro i hi
      rw [get_ofFn (hcell i hi), hlogz i hi, (hfinal i hi).2, LogSumExp.entropy]
    rw [hstop]
    exact ⟨hout.shapeLogprobs, hout.shapeEntropy, hout.shapeLogz,
      get_write_upto hout.shapeLogprobs hafter.shapeM hin hout.logprobs hprob,
      get_write_upto hout.shapeEntropy hafter.shapeM hin hout.entropy hentropy,
      get_write_upto hout.shapeLogz hafter.shapeM hin hout.logz hlogz⟩

end

end LmHead
end Aether
