import AetherRl.MambaWhole
/-!
# MambaForward — what the ranks compute together

The exchange gives every rank its features of the projected sequence, a rank computes its features of the gated norm, and
the exchange back gives every rank its rows of the output.
-/
namespace Aether
namespace Mamba

open Checked Tensor Shape

variable {K : Type} [Field K]

/-! ## The exchange -/

section
variable {mixer : Mixer K} {E width n s : Nat} {hidden : Tensor K}

/-- What one rank holds of a projected sequence. -/
def wholeShard (mixer : Mixer K) (hidden : Tensor K) : HeadShard K :=
  let projected := mixer.inProj.apply hidden
  let conv := projected.narrow 2 mixer.intermediateSize (mixer.intermediateSize + mixer.convDim)
  let groupsTimeStateSize := mixer.nGroups * mixer.ssmStateSize
  { gate := projected.narrow 2 0 mixer.intermediateSize
    timeStep := projected.narrow 2 (mixer.intermediateSize + mixer.convDim)
      (mixer.intermediateSize + mixer.convDim + mixer.numHeads)
    xPart := conv.narrow 2 0 mixer.intermediateSize
    bPart := conv.narrow 2 mixer.intermediateSize (mixer.intermediateSize + groupsTimeStateSize)
    cPart := conv.narrow 2 (mixer.intermediateSize + groupsTimeStateSize)
      (mixer.intermediateSize + groupsTimeStateSize + groupsTimeStateSize) }

theorem wholeShard_sized {S : Nat} (hfit : Fits mixer E width) (hh : hidden.shape = [1, S, E]) :
    (wholeShard mixer hidden).Sized mixer S := by
  have hproj := shape_apply hfit.inProj hh
  have hconv : ((mixer.inProj.apply hidden).narrow 2 mixer.intermediateSize
      (mixer.intermediateSize + mixer.convDim)).shape = [1, S, mixer.convDim] := shape_cols_add hproj (by omega)
  have hdim := hfit.conv
  have hgate : ((mixer.inProj.apply hidden).narrow 2 0 (0 + mixer.intermediateSize)).shape =
      [1, S, mixer.intermediateSize] := shape_cols_add hproj (by omega)
  have hx : (((mixer.inProj.apply hidden).narrow 2 mixer.intermediateSize
      (mixer.intermediateSize + mixer.convDim)).narrow 2 0 (0 + mixer.intermediateSize)).shape =
      [1, S, mixer.intermediateSize] := shape_cols_add hconv (by omega)
  rw [Nat.zero_add] at hgate hx
  exact ⟨hgate, shape_cols_add hproj (by omega), hx, shape_cols_add hconv (by omega), shape_cols_add hconv (by omega)⟩

theorem map_shards {f : Tensor K → Tensor K} {t u : Tensor K}
    (h : ∀ r < n, f (piece 1 n r t) = piece 1 n r u) : (shardsAt 1 n t).map f = shardsAt 1 n u := by
  rw [shardsAt, shardsAt, List.map_map]
  exact List.map_congr_left fun r hr => h r (List.mem_range.1 hr)

/-- **Every rank gets its features of the projected sequence.** -/
theorem headShards_eq (hfit : Fits mixer E width) (hn : 0 < n) (hheads : n ∣ mixer.numHeads)
    (hgroups : n ∣ mixer.nGroups) (hh : hidden.shape = [1, n * s, E]) :
    headShards mixer n (shardsAt 1 n hidden) =
      (List.range n).map fun r => (wholeShard mixer hidden).features n r := by
  obtain ⟨h, hh'⟩ := hheads
  obtain ⟨g, hg⟩ := hgroups
  have hi : mixer.intermediateSize = n * (h * mixer.headDim) := by rw [hfit.intermediate, hh', Nat.mul_assoc]
  have hstates : mixer.nGroups * mixer.ssmStateSize = n * (g * mixer.ssmStateSize) := by rw [hg, Nat.mul_assoc]
  have hproj := shape_apply hfit.inProj hh
  have hconv : ((mixer.inProj.apply hidden).narrow 2 mixer.intermediateSize
      (mixer.intermediateSize + mixer.convDim)).shape = [1, n * s, mixer.convDim] := shape_cols_add hproj (by omega)
  obtain ⟨hgate, htime, hx, hb, hc⟩ := wholeShard_sized hfit hh
  rw [hi] at hgate hx
  rw [hstates] at hb hc
  rw [hh'] at htime
  unfold wholeShard at hgate htime hx hb hc ⊢
  dsimp only at hgate htime hx hb hc
  unfold headShards seqToHeadParallel HeadShard.features
  dsimp only
  rw [map_shards fun r hr => apply_rows hfit.inProj hh hr, map_shards fun r hr => narrow_rows hproj hr,
    map_shards fun r hr => narrow_rows hproj hr, map_shards fun r hr => narrow_rows hproj hr,
    map_shards fun r hr => narrow_rows hconv hr, map_shards fun r hr => narrow_rows hconv hr,
    map_shards fun r hr => narrow_rows hconv hr, allToAllSeqToHead_eq hn hgate, allToAllSeqToHead_eq hn htime,
    allToAllSeqToHead_eq hn hx, allToAllSeqToHead_eq hn hb, allToAllSeqToHead_eq hn hc]
  simp only [shardsAt, List.zip_map', List.map_map]
  rfl

variable {scan : Scan K} {fresh : List Nat → Tensor Nat} {cuSeqlens : List Nat}

theorem zipIdx_range {α : Type} (f : Nat → α) (n : Nat) :
    ((List.range n).map f).zipIdx = (List.range n).map fun r => (f r, r) := by
  refine List.ext_getElem (by simp) fun i hi _ => ?_
  simp

/-- The layer over `n` ranks is the rows of the output of `wholeNorm`. -/
theorem mambaCpForward_ok (fn : Functions K) (hscan : PerHead scan) (hfit : Fits mixer E width) (hn : 0 < n)
    (hheads : n ∣ mixer.numHeads) (hgroups : n ∣ mixer.nGroups)
    (hnorm : mixer.groupSize ∣ mixer.numHeads / n * mixer.headDim) {S : Nat} (hrows : S = n * s)
    (hh : hidden.shape = [1, S, E]) (hS : 0 < S) (hspan : Spans cuSeqlens S) {conv : Tensor K} {seqIdx : Tensor Nat}
    (hseq : buildSeqIdx fresh cuSeqlens S = .ok seqIdx) (hseqs : seqIdx.shape = [1, S])
    (hconv : conv.shape = [1, S, mixer.convDim])
    (hwhole : IsConv mixer width cuSeqlens
      (cat 2 [(wholeShard mixer hidden).xPart, (wholeShard mixer hidden).bPart, (wholeShard mixer hidden).cPart]) conv) :
    mambaCpForward fn scan fresh mixer n cuSeqlens (shardsAt 1 n hidden) =
      .ok (shardsAt 1 n (mixer.outProj.apply (wholeNorm fn scan mixer S conv (wholeShard mixer hidden).gate
        (wholeShard mixer hidden).timeStep seqIdx))) := by
  subst hrows
  obtain ⟨h, hh'⟩ := id hheads
  obtain ⟨g, hg⟩ := id hgroups
  rw [hh', Nat.mul_div_cancel_left h hn] at hnorm
  have hi : mixer.intermediateSize = n * (h * mixer.headDim) := by rw [hfit.intermediate, hh', Nat.mul_assoc]
  obtain ⟨out, hout⟩ := hfit.outProj
  have hsized := wholeShard_sized hfit hh
  have hrank : ∀ p ∈ (List.range n).map fun r => ((wholeShard mixer hidden).features n r, r),
      headParallel fn scan fresh mixer n p.2 cuSeqlens p.1 = .ok (features n p.2 (wholeNorm fn scan mixer (n * s) conv
        (wholeShard mixer hidden).gate (wholeShard mixer hidden).timeStep seqIdx)) := by
    intro p hp
    obtain ⟨r, hr, rfl⟩ := List.mem_map.1 hp
    exact headParallel_features hscan hfit (List.mem_range.1 hr) hh' hg hnorm hsized hS hspan hseq hseqs hconv hwhole
  obtain ⟨c, hgs⟩ := hnorm
  rw [Nat.mul_comm mixer.groupSize c] at hgs
  have hflat : ((scan (scanOptions mixer) (wholeInputs fn mixer (n * s) conv (wholeShard mixer hidden).timeStep
      seqIdx)).reshape [1, n * s, mixer.intermediateSize]).shape = [1, n * s, n * c * mixer.groupSize] := by
    rw [shape_reshape, hi, hgs, Nat.mul_assoc]
  have hns : (wholeNorm fn scan mixer (n * s) conv (wholeShard mixer hidden).gate (wholeShard mixer hidden).timeStep
      seqIdx).shape = [1, n * s, n * (h * mixer.headDim)] := by
    rw [wholeNorm, shape_gatedRmsNorm hflat hfit.groupSize, hgs, Nat.mul_assoc]
  unfold mambaCpForward
  rw [headShards_eq hfit hn hheads hgroups hh, zipIdx_range, mapM_of_forall hrank, List.map_map]
  show Except.ok ((headToSeqParallel n ((List.range n).map fun r => features n r (wholeNorm fn scan mixer (n * s) conv
    (wholeShard mixer hidden).gate (wholeShard mixer hidden).timeStep seqIdx))).map mixer.outProj.apply) = _
  rw [hi] at hout
  rw [← shardsAt, headToSeqParallel, allToAllHeadToSeq_eq hn hns, map_shards fun r hr => apply_rows hout hns hr]

end

end Mamba
end Aether
