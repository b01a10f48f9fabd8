import AetherRl.MambaScan
import Mathlib.Analysis.SpecialFunctions.Log.Basic
import Mathlib.Analysis.SpecialFunctions.Sqrt
/-!
# MambaRecurrence — the state-space recurrence keeps the scan's contract

`mamba_chunk_scan_combined` computes, head by head, `h_t = exp (dt_t * A) * h_{t-1} + dt_t * B_t * x_t` and
`y_t = C_t * h_t + D * x_t`, and starts from zero where the sequence index changes.
-/
namespace Aether
namespace Mamba

open Tensor Shape

/-- The elementary functions over the reals. -/
noncomputable def realFunctions : Functions ℝ where
  exp := Real.exp
  silu x := x / (1 + Real.exp (-x))
  rsqrt x := (Real.sqrt x)⁻¹

/-- The step size of a token: its bias, the softplus, the limit. -/
noncomputable def stepSize (o : ScanOptions ℝ) (i : HeadInputs ℝ) (b t : Nat) : ℝ :=
  let dt := i.dt.get [b, t] + i.dtBias
  let dt := if o.dtSoftplus then Real.log (1 + Real.exp dt) else dt
  o.dtLimit.elim dt fun limit => max limit.1 (min limit.2 dt)

/-- The state of element `e` and state dimension `s` after token `t`. -/
noncomputable def headState (o : ScanOptions ℝ) (i : HeadInputs ℝ) (b e s : Nat) : Nat → ℝ
  | 0 => stepSize o i b 0 * i.B.get [b, 0, s] * i.x.get [b, 0, e]
  | t + 1 =>
    (if i.seqIdx.get [b, t + 1] = i.seqIdx.get [b, t] then Real.exp (stepSize o i b (t + 1) * i.A) * headState o i b e s t
      else 0) + stepSize o i b (t + 1) * i.B.get [b, t + 1, s] * i.x.get [b, t + 1, e]

/-- The output of element `e` of token `t`. -/
noncomputable def headOutput (o : ScanOptions ℝ) (i : HeadInputs ℝ) (b t e : Nat) : ℝ :=
  ((List.range (i.B.size 2)).map fun s => i.C.get [b, t, s] * headState o i b e s t).sum + i.D * i.x.get [b, t, e]

/-- The recurrence of one head. -/
noncomputable def headScan (o : ScanOptions ℝ) (i : HeadInputs ℝ) : Tensor ℝ :=
  ofFn i.x.shape fun idx =>
    match idx with
    | [b, t, e] => headOutput o i b t e
    | _ => 0

/-- The recurrence of every head. -/
noncomputable def recurrence : Scan ℝ := fun o i =>
  ofFn i.x.shape fun idx =>
    match idx with
    | [b, t, j, e] => headOutput o (i.head j (j / (i.x.size 2 / i.B.size 2))) b t e
    | _ => 0

theorem recurrence_perHead : PerHead recurrence := by
  refine ⟨headScan, fun o i b S H P G N hi _ => ?_⟩
  have hshape : (recurrence o i).shape = [b, S, H, P] := hi.x
  refine ⟨hshape, fun j hj => ?_⟩
  have hheads : i.x.size 2 = H := size_of_shape hi.x 2
  have hgroups : i.B.size 2 = G := size_of_shape hi.B 2
  have hx : (i.head j (j / (H / G))).x.shape = [b, S, P] := shape_select_head hi.x
  refine ext₃ (shape_select_head hshape) hx fun r hr t ht e he => ?_
  have hin : Inside [P] [e] := ⟨he, trivial⟩
  have hwide : Inside i.x.shape [r, t, j, e] := by
    rw [hi.x]
    exact ⟨hr, ht, hj, he, trivial⟩
  have hlow : Inside (i.head j (j / (H / G))).x.shape [r, t, e] := by
    rw [hx]
    exact ⟨hr, ht, he, trivial⟩
  rw [get_select_head hshape hr ht hin, recurrence, get_ofFn hwide, headScan, get_ofFn hlow]
  dsimp only
  rw [hheads, hgroups]

/-- What a head's state reads of a token. -/
theorem headState_congr {o : ScanOptions ℝ} {i j : HeadInputs ℝ} {b e s t : Nat} (hA : i.A = j.A)
    (hdt : i.dtBias = j.dtBias) (hidx : i.seqIdx = j.seqIdx)
    (h : ∀ t' ≤ t, i.seqIdx.get [b, t'] = i.seqIdx.get [b, t] → i.x.get [b, t', e] = j.x.get [b, t', e] ∧
      i.dt.get [b, t'] = j.dt.get [b, t'] ∧ i.B.get [b, t', s] = j.B.get [b, t', s]) :
    headState o i b e s t = headState o j b e s t := by
  induction t with
  | zero =>
    obtain ⟨hx, ht, hB⟩ := h 0 (Nat.le_refl 0) rfl
    rw [headState, headState, stepSize, stepSize, hx, ht, hB, hdt]
  | succ t ih =>
    obtain ⟨hx, ht, hB⟩ := h (t + 1) (Nat.le_refl _) rfl
    rw [headState, headState, stepSize, stepSize, hx, ht, hB, hdt, hA, hidx]
    by_cases hsame : j.seqIdx.get [b, t + 1] = j.seqIdx.get [b, t]
    · rw [if_pos hsame, if_pos hsame, ih fun t' ht' heq => h t' (Nat.le_succ_of_le ht') (by rw [heq, hidx, hsame])]
    · rw [if_neg hsame, if_neg hsame]

theorem recurrence_respectsSeqIdx : RespectsSeqIdx recurrence := by
  intro o i j b S H P G N hi hj hdvd hA hD hdt hidx row hrow t ht hsame h e
  by_cases hin : h < H ∧ e < P
  · have hwide : Inside [b, S, H, P] [row, t, h, e] := ⟨hrow, ht, hin.1, hin.2, trivial⟩
    have hN : ∀ {k : ScanInputs ℝ} {g : Nat}, k.Shaped b S H P G N → (k.B.select 2 g).size 2 = N :=
      fun hk => size_of_shape (shape_select_head hk.B) 2
    rw [recurrence, get_ofFn (hi.x ▸ hwide), recurrence, get_ofFn (hj.x ▸ hwide)]
    dsimp only
    rw [size_of_shape hi.x, size_of_shape hj.x, size_of_shape hi.B, size_of_shape hj.B]
    simp only [List.getD_cons_succ, List.getD_cons_zero]
    unfold headOutput
    dsimp only [ScanInputs.head]
    rw [hN hi, hN hj, get_select_any hi.x, get_select_any hj.x, hD, (hsame t ht rfl).x h e]
    congr 2
    refine List.map_congr_left fun s _ => ?_
    rw [get_select_any hi.C, get_select_any hj.C, (hsame t ht rfl).C]
    congr 1
    refine headState_congr (congrArg (·.get [h]) hA) (congrArg (·.get [h]) hdt) hidx fun t' ht' heq => ?_
    have hat := hsame t' (ht'.trans_lt ht) heq
    dsimp only
    rw [get_select_any hi.x, get_select_any hj.x, get_select_any hi.dt, get_select_any hj.dt, get_select_any hi.B,
      get_select_any hj.B]
    exact ⟨hat.x h e, hat.dt h, hat.B _ s⟩
  · have hout : ¬ Inside [b, S, H, P] [row, t, h, e] := fun hc => hin ⟨hc.2.2.1, hc.2.2.2.1⟩
    rw [(recurrence o i).outside _ (by rw [show (recurrence o i).shape = _ from hi.x]; exact hout),
      (recurrence o j).outside _ (by rw [show (recurrence o j).shape = _ from hj.x]; exact hout)]

end Mamba
end Aether
