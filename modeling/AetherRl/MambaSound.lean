import AetherRl.MambaPacked
import AetherRl.MambaRecurrence
/-!
# MambaSound — the ranks compute the layer of one rank
-/
namespace Aether
namespace Mamba

open Checked Tensor Shape

variable {K : Type} [Field K]

section
variable {scan : Scan K} {fresh : List Nat → Tensor Nat} {mixer : Mixer K} {E width n s : Nat}
  {cuSeqlens : List Nat} {hidden : Tensor K}

/-- One rank has all rows. -/
theorem shardsAt_one {b S D : Nat} {t : Tensor K} (ht : t.shape = [b, S, D]) : shardsAt 1 1 t = [t] := by
  have ht' : t.shape = [b, 1 * S, D] := by rw [ht, Nat.one_mul]
  have hone : piece 1 1 0 t = t := by
    refine ext₃ (shape_heads ht' Nat.one_pos) ht fun i hi x hx e he => ?_
    have hin : Inside [D] [e] := ⟨he, trivial⟩
    rw [get_piece ht' Nat.one_pos hi hx hin, Nat.zero_mul, Nat.zero_add]
  show [piece 1 1 0 t] = [t]
  rw [hone]

/-- Over an empty sequence there is no document, and the convolution raises. -/
theorem mambaCpForward_empty (fn : Functions K) (scan : Scan K) (hfresh : ∀ s, (fresh s).shape = s) (hfit : Fits mixer E width) (hn : 0 < n)
    (hheads : n ∣ mixer.numHeads) (hgroups : n ∣ mixer.nGroups) (hh : hidden.shape = [1, 0, E])
    (hspan : Spans cuSeqlens 0) :
    mambaCpForward fn scan fresh mixer n cuSeqlens (shardsAt 1 n hidden) =
      .error "torch.cat(): expected a non-empty list of Tensors" := by
  obtain ⟨h, hh'⟩ := id hheads
  obtain ⟨g, hg⟩ := id hgroups
  obtain ⟨m, rfl⟩ : ∃ m, n = m + 1 := ⟨n - 1, by omega⟩
  have hi : mixer.intermediateSize = (m + 1) * (h * mixer.headDim) := by rw [hfit.intermediate, hh', Nat.mul_assoc]
  have hstates : mixer.nGroups * mixer.ssmStateSize = (m + 1) * (g * mixer.ssmStateSize) := by rw [hg, Nat.mul_assoc]
  obtain ⟨-, -, hx, hb, hc⟩ := wholeShard_sized hfit hh
  rw [hi] at hx
  rw [hstates] at hb hc
  obtain ⟨seqIdx, hseq, -, -⟩ := buildSeqIdx_ok hfresh hspan
  have hparts := shape_parts (shape_features hx (Nat.succ_pos m)) (shape_features hb (Nat.succ_pos m))
    (shape_features hc (Nat.succ_pos m))
  have hrank : headParallel fn scan fresh mixer (m + 1) 0 cuSeqlens ((wholeShard mixer hidden).features (m + 1) 0) =
      .error "torch.cat(): expected a non-empty list of Tensors" := by
    unfold headParallel HeadShard.features
    dsimp only
    rw [size_of_shape hparts 1, size_of_shape hparts 0]
    show (do let seqIdx ← buildSeqIdx fresh cuSeqlens 0; _ : Except String (Tensor K)) = _
    rw [hseq]
    show (do let convolved ← causalConv1dVarlen _ _ _ cuSeqlens; _ : Except String (Tensor K)) = _
    rw [causalConv1dVarlen_empty hspan (size_of_shape hparts 0)]
    rfl
  unfold mambaCpForward
  have hrows : hidden.shape = [1, (m + 1) * 0, E] := hh
  rw [headShards_eq hfit hn hheads hgroups hrows, zipIdx_range, List.range_succ_eq_map, List.map_cons, List.mapM_cons]
  dsimp only
  rw [hrank]
  rfl

/-- The output over all heads, for a convolution and a sequence index. -/
def wholeOutput (fn : Functions K) (scan : Scan K) (mixer : Mixer K) (S : Nat) (hidden conv : Tensor K)
    (seqIdx : Tensor Nat) : Tensor K :=
  mixer.outProj.apply (wholeNorm fn scan mixer S conv (wholeShard mixer hidden).gate (wholeShard mixer hidden).timeStep
    seqIdx)

/-- The convolution of a whole sequence. -/
structure Convolved (mixer : Mixer K) (width S : Nat) (boundaries : List Nat) (hidden conv : Tensor K) : Prop where
  shape : conv.shape = [1, S, mixer.convDim]
  isConv : IsConv mixer width boundaries
    (cat 2 [(wholeShard mixer hidden).xPart, (wholeShard mixer hidden).bPart, (wholeShard mixer hidden).cPart]) conv

theorem exists_convolved {S : Nat} (hfit : Fits mixer E width) (hh : hidden.shape = [1, S, E]) (hS : 0 < S)
    (hspan : Spans cuSeqlens S) : ∃ conv, Convolved mixer width S cuSeqlens hidden conv := by
  obtain ⟨-, -, hx, hb, hc⟩ := wholeShard_sized hfit hh
  have hparts := shape_parts hx hb hc
  rw [← hfit.conv] at hparts
  obtain ⟨conv, -, hs, hget⟩ := causalConv1dVarlen_ok hspan hS hparts hfit.convWeight mixer.convBias
  exact ⟨conv, hs, hget⟩

/-- The sizes of a layer split over `n` ranks. -/
structure Split (mixer : Mixer K) (n : Nat) : Prop where
  pos : 0 < n
  heads : n ∣ mixer.numHeads
  groups : n ∣ mixer.nGroups
  norm : mixer.groupSize ∣ mixer.numHeads / n * mixer.headDim

theorem Split.norm_intermediate (hsplit : Split mixer n) (hfit : Fits mixer E width) :
    mixer.groupSize ∣ mixer.intermediateSize := by
  obtain ⟨hn, ⟨h, hh⟩, -, hnorm⟩ := hsplit
  rw [hh, Nat.mul_div_cancel_left h hn] at hnorm
  rw [hfit.intermediate, hh, Nat.mul_assoc]
  exact hnorm.mul_left n

/-- A layer of one rank is split. -/
theorem Split.one (hsplit : Split mixer n) (hfit : Fits mixer E width) : Split mixer 1 := by
  refine ⟨Nat.one_pos, Nat.one_dvd _, Nat.one_dvd _, ?_⟩
  rw [Nat.div_one, ← hfit.intermediate]
  exact hsplit.norm_intermediate hfit

theorem shape_wholeNorm {fn : Functions K} {S : Nat} {conv gate timeStep : Tensor K} {seqIdx : Tensor Nat}
    (hfit : Fits mixer E width) (hnorm : mixer.groupSize ∣ mixer.intermediateSize) :
    (wholeNorm fn scan mixer S conv gate timeStep seqIdx).shape = [1, S, mixer.intermediateSize] := by
  obtain ⟨m, hm⟩ := hnorm
  rw [Nat.mul_comm] at hm
  rw [wholeNorm, shape_gatedRmsNorm ((shape_reshape _ _).trans (by rw [hm])) hfit.groupSize, hm]

/-- **The ranks' outputs are the rows of the output over all heads**, for one rank as for `n`. -/
theorem forward_rows (fn : Functions K) (hscan : PerHead scan) (hfit : Fits mixer E width) (hsplit : Split mixer n) (hs : 0 < s)
    (hspan : Spans cuSeqlens (n * s)) (hh : hidden.shape = [1, n * s, E]) {conv : Tensor K} {seqIdx : Tensor Nat}
    (hseq : buildSeqIdx fresh cuSeqlens (n * s) = .ok seqIdx) (hseqs : seqIdx.shape = [1, n * s])
    (hconv : Convolved mixer width (n * s) cuSeqlens hidden conv) :
    mambaCpForward fn scan fresh mixer n cuSeqlens (shardsAt 1 n hidden) =
        .ok (shardsAt 1 n (wholeOutput fn scan mixer (n * s) hidden conv seqIdx)) ∧
      mambaCpForward fn scan fresh mixer 1 cuSeqlens [hidden] =
        .ok [wholeOutput fn scan mixer (n * s) hidden conv seqIdx] ∧
      cat 1 (shardsAt 1 n (wholeOutput fn scan mixer (n * s) hidden conv seqIdx)) =
        wholeOutput fn scan mixer (n * s) hidden conv seqIdx ∧
      cat 1 [wholeOutput fn scan mixer (n * s) hidden conv seqIdx] =
        wholeOutput fn scan mixer (n * s) hidden conv seqIdx := by
  have hS : 0 < n * s := Nat.mul_pos hsplit.pos hs
  obtain ⟨out, hout⟩ := hfit.outProj
  have hshape : (wholeOutput fn scan mixer (n * s) hidden conv seqIdx).shape = [1, n * s, out] :=
    shape_apply hout (shape_wholeNorm hfit (hsplit.norm_intermediate hfit))
  have hone := hsplit.one hfit
  have hsingle := mambaCpForward_ok fn hscan hfit hone.pos hone.heads hone.groups hone.norm (Nat.one_mul _).symm hh hS
    hspan hseq hseqs hconv.shape hconv.isConv
  rw [shardsAt_one hh, ← wholeOutput, shardsAt_one hshape] at hsingle
  have hcatOne := cat_heads Nat.one_pos (t := wholeOutput fn scan mixer (n * s) hidden conv seqIdx)
    (by rw [Nat.one_mul]; exact hshape)
  rw [show (List.range 1).map (fun r => heads 1 r (wholeOutput fn scan mixer (n * s) hidden conv seqIdx)) =
    shardsAt 1 1 (wholeOutput fn scan mixer (n * s) hidden conv seqIdx) from rfl, shardsAt_one hshape] at hcatOne
  exact ⟨mambaCpForward_ok fn hscan hfit hsplit.pos hsplit.heads hsplit.groups hsplit.norm rfl hh hS hspan hseq hseqs
    hconv.shape hconv.isConv, hsingle, cat_heads hsplit.pos hshape, hcatOne⟩

/-- **The layer over the ranks**: side by side their outputs are the output of one rank; neither the convolution nor the
scan nor the layer mixes tokens of different documents; and the exchange back undoes the exchange. -/
theorem mamba_eq_single (fn : Functions K) (hhead : PerHead scan) (hscan : RespectsSeqIdx scan) (hfresh : ∀ s, (fresh s).shape = s)
    (hfit : Fits mixer E width) (hsplit : Split mixer n) (hspan : Spans cuSeqlens (n * s)) :
    (∀ hidden : Tensor K, hidden.shape = [1, n * s, E] →
      (mambaCpForward fn scan fresh mixer n cuSeqlens (shardsAt 1 n hidden)).map (cat 1) =
          (mambaCpForward fn scan fresh mixer 1 cuSeqlens [hidden]).map (cat 1) ∧
        (0 < s → ∃ outs out, mambaCpForward fn scan fresh mixer n cuSeqlens (shardsAt 1 n hidden) = .ok outs ∧
          mambaCpForward fn scan fresh mixer 1 cuSeqlens [hidden] = .ok [out] ∧ outs.length = n ∧ cat 1 outs = out)) ∧
    (∀ p ∈ documents cuSeqlens,
      (∀ (C width : Nat) (x y weight : Tensor K) (bias : Option (Tensor K)) (out out' : Tensor K),
        x.shape = [1, n * s, C] → y.shape = [1, n * s, C] → weight.shape = [C, 1, width] → AgreeOn p x y →
        causalConv1dVarlen x weight bias cuSeqlens = .ok out →
        causalConv1dVarlen y weight bias cuSeqlens = .ok out' → AgreeOn p out out') ∧
      (∀ (o : ScanOptions K) (i j : ScanInputs K) (H P G N : Nat),
        buildSeqIdx fresh cuSeqlens (n * s) = .ok i.seqIdx → i.Shaped 1 (n * s) H P G N → j.Shaped 1 (n * s) H P G N →
        G ∣ H → i.A = j.A → i.D = j.D → i.dtBias = j.dtBias → i.seqIdx = j.seqIdx →
        (∀ t, p.1 ≤ t → t < p.2 → i.SameAt j 0 t) →
        ∀ t, p.1 ≤ t → t < p.2 → ∀ h e, (scan o i).get [0, t, h, e] = (scan o j).get [0, t, h, e]) ∧
      ∀ (hidden hidden' : Tensor K) (outs outs' : List (Tensor K)), hidden.shape = [1, n * s, E] →
        hidden'.shape = [1, n * s, E] → AgreeOn p hidden hidden' →
        mambaCpForward fn scan fresh mixer n cuSeqlens (shardsAt 1 n hidden) = .ok outs →
        mambaCpForward fn scan fresh mixer n cuSeqlens (shardsAt 1 n hidden') = .ok outs' →
        AgreeOn p (cat 1 outs) (cat 1 outs')) ∧
    ∀ (b S w : Nat) (xs : List (Tensor K)), xs.length = n → (∀ x ∈ xs, x.shape = [b, S, n * w]) →
      headToSeqParallel n (seqToHeadParallel n xs) = xs := by
  obtain ⟨seqIdx, hseq, hseqs, -⟩ := buildSeqIdx_ok hfresh hspan
  refine ⟨fun hidden hh => ?_, fun p hp => ⟨?_, ?_, ?_⟩, ?_⟩
  · rcases Nat.eq_zero_or_pos s with rfl | hs
    · have hone := hsplit.one hfit
      have hempty := mambaCpForward_empty fn scan hfresh hfit hone.pos hone.heads hone.groups hh hspan
      rw [shardsAt_one hh] at hempty
      rw [mambaCpForward_empty fn scan hfresh hfit hsplit.pos hsplit.heads hsplit.groups hh hspan, hempty]
      exact ⟨rfl, fun h => absurd h (Nat.lt_irrefl 0)⟩
    · obtain ⟨conv, hconv⟩ := exists_convolved hfit hh (Nat.mul_pos hsplit.pos hs) hspan
      obtain ⟨hmany, hsingle, hcat, hcat'⟩ := forward_rows fn hhead hfit hsplit hs hspan hh hseq hseqs hconv
      refine ⟨?_, fun _ => ⟨_, _, hmany, hsingle, length_shardsAt .., hcat⟩⟩
      rw [hmany, hsingle]
      exact congrArg Except.ok (hcat.trans hcat'.symm)
  · intro C width x y weight bias out out' hx hy hw ha hout hout'
    exact conv_document hspan hx hy hw hp ha hout hout'
  · intro o i j H P G N hi hsi hsj hdvd hA hD hdt hidx hsame
    exact scan_document hscan hfresh hspan hi hsi hsj hdvd hA hD hdt hidx hp hsame o
  · intro hidden hidden' outs outs' hh hh' ha hout hout'
    have hle := hspan.document_le hp
    rcases Nat.eq_zero_or_pos s with rfl | hs
    · intro t _ hhi
      omega
    · have hS := Nat.mul_pos hsplit.pos hs
      obtain ⟨conv, hconv⟩ := exists_convolved hfit hh hS hspan
      obtain ⟨conv', hconv'⟩ := exists_convolved hfit hh' hS hspan
      obtain ⟨hmany, -, hcat, -⟩ := forward_rows fn hhead hfit hsplit hs hspan hh hseq hseqs hconv
      obtain ⟨hmany', -, hcat', -⟩ := forward_rows fn hhead hfit hsplit hs hspan hh' hseq hseqs hconv'
      obtain rfl := Except.ok.inj (hout.symm.trans hmany)
      obtain rfl := Except.ok.inj (hout'.symm.trans hmany')
      rw [hcat, hcat']
      obtain ⟨hgate, htime, hparts⟩ := wholeShard_document hfit hle hh hh' ha
      obtain ⟨-, hts, -, -, -⟩ := wholeShard_sized hfit hh
      obtain ⟨-, hts', -, -, -⟩ := wholeShard_sized hfit hh'
      have hagree := hconv.isConv.document hconv.shape hconv'.shape hconv'.isConv hp hparts
      have hdvd := hsplit.norm_intermediate hfit
      obtain ⟨o, ho⟩ := hfit.outProj
      exact (wholeNorm_document hhead hscan hfresh hfit hdvd hspan hseq hseqs hconv.shape hconv'.shape hts hts' hp hagree
        hgate htime).apply ho hle (shape_wholeNorm hfit hdvd) (shape_wholeNorm hfit hdvd)
  · intro b S w xs hlen hxs
    exact exchange_roundtrip hsplit.pos hlen hxs

end

/-! ## Two ranks -/

/-- Two heads of one element in two groups of one state. -/
noncomputable def sampleMixer : Mixer ℝ where
  inProj := ⟨ofFn [10, 1] fun idx => idx.headD 0, none⟩
  outProj := ⟨ofFn [1, 2] fun _ => 1, none⟩
  aLog := ofFn [2] fun _ => 0
  d := ofFn [2] fun _ => 1
  dtBias := ofFn [2] fun _ => 0
  convWeight := ofFn [6, 1, 2] fun _ => 1
  convBias := some (ofFn [6] fun _ => 1)
  normWeight := ofFn [2] fun _ => 1
  varianceEpsilon := 1
  groupSize := 1
  intermediateSize := 2
  convDim := 6
  numHeads := 2
  headDim := 1
  nGroups := 2
  ssmStateSize := 1
  chunkSize := 256
  timeStepLimit := none

theorem sampleMixer_fits : Fits sampleMixer 1 2 where
  inProj := rfl
  outProj := ⟨1, rfl⟩
  intermediate := rfl
  conv := rfl
  convWeight := rfl
  convBias bias hb := by
    cases hb
    rfl
  aLog := rfl
  d := rfl
  dtBias := rfl
  normWeight := rfl
  groups := Nat.dvd_refl 2
  nGroups := Nat.zero_lt_two
  groupSize := Nat.one_pos

/-- Two documents, of one token and of three. -/
noncomputable def sampleHidden : Tensor ℝ := ofFn [1, 4, 1] fun _ => 1

/-- The state-space recurrence over two ranks and over one. -/
theorem mamba_two_ranks :
    (mambaCpForward realFunctions recurrence (fun s => ofFn s fun _ => 0) sampleMixer 2 [0, 1, 4]
        (shardsAt 1 2 sampleHidden)).map (cat 1) =
      (mambaCpForward realFunctions recurrence (fun s => ofFn s fun _ => 0) sampleMixer 1 [0, 1, 4]
        [sampleHidden]).map (cat 1) := by
  have hsplit : Split sampleMixer 2 := ⟨Nat.zero_lt_two, Nat.dvd_refl 2, Nat.dvd_refl 2, Nat.one_dvd _⟩
  have hspan : Spans [0, 1, 4] (2 * 2) := ⟨by decide, rfl, rfl⟩
  exact ((mamba_eq_single realFunctions recurrence_perHead recurrence_respectsSeqIdx (fun _ => rfl) sampleMixer_fits
    hsplit hspan).1 sampleHidden rfl).1

end Mamba
end Aether
