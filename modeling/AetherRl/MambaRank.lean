import AetherRl.MambaStages
import Mathlib.Data.List.GetD
/-!
# MambaRank — what a rank computes on its heads

A rank's channels are `conv_indices` of the layer's, its heads and its groups are the `r`-th of `n`.  The scan computes
each head from that head and its group, so what a rank computes is its features of what one rank computes on all of them.
-/
namespace Aether
namespace Mamba

open Checked Tensor Shape

variable {K : Type} [Field K]

/-- The sizes a layer is built with; `E` is the size of a token and `width` that of the convolution. -/
structure Fits (mixer : Mixer K) (E width : Nat) : Prop where
  inProj : mixer.inProj.weight.shape = [mixer.intermediateSize + mixer.convDim + mixer.numHeads, E]
  outProj : ∃ out, mixer.outProj.weight.shape = [out, mixer.intermediateSize]
  intermediate : mixer.intermediateSize = mixer.numHeads * mixer.headDim
  conv : mixer.convDim =
    mixer.intermediateSize + mixer.nGroups * mixer.ssmStateSize + mixer.nGroups * mixer.ssmStateSize
  convWeight : mixer.convWeight.shape = [mixer.convDim, 1, width]
  convBias : ∀ bias ∈ mixer.convBias, bias.shape = [mixer.convDim]
  aLog : mixer.aLog.shape = [mixer.numHeads]
  d : mixer.d.shape = [mixer.numHeads]
  dtBias : mixer.dtBias.shape = [mixer.numHeads]
  normWeight : mixer.normWeight.shape = [mixer.intermediateSize]
  groups : mixer.nGroups ∣ mixer.numHeads
  nGroups : 0 < mixer.nGroups
  groupSize : 0 < mixer.groupSize

/-! ## Channels -/

theorem getD_arange {start w i : Nat} (hi : i < w) : (arange start (start + w)).getD i 0 = start + i := by
  rw [arange, Nat.add_sub_cancel_left, List.getD_eq_getElem?_getD, List.getElem?_range' hi]
  simp

theorem length_arange (start w : Nat) : (arange start (start + w)).length = w := by
  rw [arange, Nat.add_sub_cancel_left, List.length_range']

section
variable {mixer : Mixer K} {n h g : Nat}

/-- The channels of a rank with `h` heads and `g` groups. -/
theorem convIndices_eq (hn : 0 < n) (hh : mixer.numHeads = n * h) (hg : mixer.nGroups = n * g) (r : Nat) :
    convIndices mixer n r =
      arange (r * (h * mixer.headDim)) (r * (h * mixer.headDim) + h * mixer.headDim) ++
      (arange (mixer.intermediateSize + r * (g * mixer.ssmStateSize))
          (mixer.intermediateSize + r * (g * mixer.ssmStateSize) + g * mixer.ssmStateSize) ++
        arange (mixer.intermediateSize + n * g * mixer.ssmStateSize + r * (g * mixer.ssmStateSize))
          (mixer.intermediateSize + n * g * mixer.ssmStateSize + r * (g * mixer.ssmStateSize) +
            g * mixer.ssmStateSize)) := by
  have hheads : mixer.numHeads / n = h := by rw [hh, Nat.mul_div_cancel_left h hn]
  have hgroups : mixer.nGroups / n = g := by rw [hg, Nat.mul_div_cancel_left g hn]
  unfold convIndices
  dsimp only
  rw [hheads, hgroups, hg, Nat.mul_assoc r g]

theorem length_convIndices (hn : 0 < n) (hh : mixer.numHeads = n * h) (hg : mixer.nGroups = n * g) (r : Nat) :
    (convIndices mixer n r).length =
      h * mixer.headDim + g * mixer.ssmStateSize + g * mixer.ssmStateSize := by
  rw [convIndices_eq hn hh hg, List.length_append, List.length_append, length_arange, length_arange, length_arange]
  omega

/-- **A rank's channels are its part of `x`, its part of `B` and its part of `C`.** -/
theorem channel_eq (hn : 0 < n) (hh : mixer.numHeads = n * h) (hg : mixer.nGroups = n * g) (r : Nat) :
    (∀ c < h * mixer.headDim, (convIndices mixer n r).getD c 0 = r * (h * mixer.headDim) + c) ∧
    (∀ c < g * mixer.ssmStateSize, (convIndices mixer n r).getD (h * mixer.headDim + c) 0 =
      mixer.intermediateSize + (r * (g * mixer.ssmStateSize) + c)) ∧
    ∀ c < g * mixer.ssmStateSize,
      (convIndices mixer n r).getD (h * mixer.headDim + g * mixer.ssmStateSize + c) 0 =
        mixer.intermediateSize + n * g * mixer.ssmStateSize + (r * (g * mixer.ssmStateSize) + c) := by
  rw [convIndices_eq hn hh hg]
  refine ⟨fun c hc => ?_, fun c hc => ?_, fun c hc => ?_⟩
  · rw [List.getD_append _ _ _ _ (by rw [length_arange]; exact hc), getD_arange hc]
  · rw [List.getD_append_right _ _ _ _ (by rw [length_arange]; omega), length_arange, Nat.add_sub_cancel_left,
      List.getD_append _ _ _ _ (by rw [length_arange]; exact hc), getD_arange hc, Nat.add_assoc]
  · have hsub : h * mixer.headDim + g * mixer.ssmStateSize + c - h * mixer.headDim = g * mixer.ssmStateSize + c := by omega
    rw [List.getD_append_right _ _ _ _ (by rw [length_arange]; omega), length_arange, hsub, List.getD_append_right _ _ _ _ (by rw [length_arange]; omega), length_arange,
      Nat.add_sub_cancel_left, getD_arange hc, Nat.add_assoc]

end

/-! ## Parts side by side -/

section
variable {S a b c : Nat} {x y z : Tensor K}

theorem shape_parts (hx : x.shape = [1, S, a]) (hy : y.shape = [1, S, b]) (hz : z.shape = [1, S, c]) :
    (cat 2 [x, y, z]).shape = [1, S, a + b + c] := by
  have hxs : x.size 2 = a := size_of_shape hx 2
  have hys : y.size 2 = b := size_of_shape hy 2
  have hzs : z.size 2 = c := size_of_shape hz 2
  rw [cat, shape_ofFn, List.headD_cons, hx]
  simp only [List.map_cons, List.map_nil, List.sum_cons, List.sum_nil, hxs, hys, hzs]
  show [1, S, a + (b + (c + 0))] = _
  rw [Nat.add_zero, Nat.add_assoc]

theorem get_parts (hx : x.shape = [1, S, a]) (hy : y.shape = [1, S, b]) (hz : z.shape = [1, S, c]) {t : Nat}
    (ht : t < S) :
    (∀ e < a, (cat 2 [x, y, z]).get [0, t, e] = x.get [0, t, e]) ∧
    (∀ e < b, (cat 2 [x, y, z]).get [0, t, a + e] = y.get [0, t, e]) ∧
    ∀ e < c, (cat 2 [x, y, z]).get [0, t, a + b + e] = z.get [0, t, e] := by
  have hxs : x.size 2 = a := size_of_shape hx 2
  have hys : y.size 2 = b := size_of_shape hy 2
  have hzs : z.size 2 = c := size_of_shape hz 2
  have hread : ∀ e < a + b + c, (cat 2 [x, y, z]).get [0, t, e] = catGet 2 [x, y, z] e [0, t, e] := by
    intro e he
    have hin : Inside (cat 2 [x, y, z]).shape [0, t, e] := by
      rw [shape_parts hx hy hz]
      exact ⟨Nat.one_pos, ht, he, trivial⟩
    rw [cat, shape_ofFn] at hin
    rw [cat, get_ofFn hin]
    rfl
  refine ⟨fun e he => ?_, fun e he => ?_, fun e he => ?_⟩
  · rw [hread e (by omega), catGet, hxs, if_pos he]
    rfl
  · rw [hread _ (by omega), catGet, hxs, if_neg (by omega), catGet, hys, if_pos (by omega), Nat.add_sub_cancel_left]
    rfl
  · have hsub : a + b + e - a - b = e := by omega
    rw [hread _ (by omega), catGet, hxs, if_neg (by omega), catGet, hys, if_neg (by omega), catGet, hzs, hsub, if_pos he]
    rfl

end

/-! ## The convolution of a rank -/

section
variable {mixer : Mixer K} {n h g r S : Nat} {x b c : Tensor K}

/-- A channel of a rank, among the three parts. -/
theorem channel_cases {w v e : Nat} (he : e < w + v + v) :
    e < w ∨ (∃ k < v, e = w + k) ∨ ∃ k < v, e = w + v + k := by
  by_cases h₁ : e < w
  · exact .inl h₁
  · by_cases h₂ : e < w + v
    · exact .inr (.inl ⟨e - w, by omega, by omega⟩)
    · exact .inr (.inr ⟨e - (w + v), by omega, by omega⟩)

/-- A rank's channels are channels of the layer. -/
theorem channel_lt (hn : 0 < n) (hh : mixer.numHeads = n * h) (hg : mixer.nGroups = n * g)
    (hi : mixer.intermediateSize = n * (h * mixer.headDim)) (hr : r < n) {e : Nat}
    (he : e < h * mixer.headDim + g * mixer.ssmStateSize + g * mixer.ssmStateSize) :
    (convIndices mixer n r).getD e 0 <
      mixer.intermediateSize + n * (g * mixer.ssmStateSize) + n * (g * mixer.ssmStateSize) := by
  obtain ⟨hxc, hbc, hcc⟩ := channel_eq hn hh hg r
  rcases channel_cases he with hlt | ⟨k, hk, rfl⟩ | ⟨k, hk, rfl⟩
  · have := place_lt hr hlt
    rw [hxc e hlt]
    omega
  · have := place_lt hr hk
    rw [hbc k hk]
    omega
  · have := place_lt hr hk
    rw [hcc k hk, Nat.mul_assoc n]
    omega

/-- **A rank's parts side by side are its channels of the whole.** -/
theorem parts_channel (hn : 0 < n) (hh : mixer.numHeads = n * h) (hg : mixer.nGroups = n * g)
    (hi : mixer.intermediateSize = n * (h * mixer.headDim)) (hx : x.shape = [1, S, n * (h * mixer.headDim)])
    (hb : b.shape = [1, S, n * (g * mixer.ssmStateSize)]) (hc : c.shape = [1, S, n * (g * mixer.ssmStateSize)])
    (hr : r < n) {t e : Nat} (ht : t < S)
    (he : e < h * mixer.headDim + g * mixer.ssmStateSize + g * mixer.ssmStateSize) :
    (cat 2 [features n r x, features n r b, features n r c]).get [0, t, e] =
      (cat 2 [x, b, c]).get [0, t, (convIndices mixer n r).getD e 0] := by
  have hnil : Inside [] [] := trivial
  obtain ⟨hxc, hbc, hcc⟩ := channel_eq hn hh hg r
  obtain ⟨hrx, hrb, hrc⟩ := get_parts (shape_features hx hr) (shape_features hb hr) (shape_features hc hr) ht
  obtain ⟨hwx, hwb, hwc⟩ := get_parts hx hb hc ht
  rcases channel_cases he with hlt | ⟨k, hk, rfl⟩ | ⟨k, hk, rfl⟩
  · rw [hrx e hlt, hxc e hlt, hwx _ (place_lt hr hlt), get_features hx hr Nat.one_pos ht hlt hnil]
  · rw [hrb k hk, hbc k hk, hi, hwb _ (place_lt hr hk), get_features hb hr Nat.one_pos ht hk hnil]
  · rw [hrc k hk, hcc k hk, hi, Nat.mul_assoc n, hwc _ (place_lt hr hk), get_features hc hr Nat.one_pos ht hk hnil]

theorem get_indexRows {t : Tensor K} {m : Nat} {s idx : List Nat} (ht : t.shape = m :: s) {indices : List Nat} {i : Nat}
    (hi : i < indices.length) (hin : Inside s idx) :
    (indexRows t indices).get (i :: idx) = t.get (indices.getD i 0 :: idx) := by
  have hout : Inside (t.shape.set 0 indices.length) (i :: idx) := by
    rw [ht]
    exact ⟨hi, hin⟩
  rw [indexRows, get_ofFn hout]

theorem biasAt_indexRows {bias : Option (Tensor K)} {m : Nat} (hb : ∀ v ∈ bias, v.shape = [m]) {indices : List Nat}
    {i : Nat} (hi : i < indices.length) :
    biasAt (bias.map fun v => indexRows v indices) i = biasAt bias (indices.getD i 0) := by
  have hnil : Inside [] [] := trivial
  cases bias with
  | none => rfl
  | some v => exact get_indexRows (hb v rfl) hi hnil

/-- `out` is the convolution of `input` by the layer's taps, channel by channel and document by document. -/
def IsConv (mixer : Mixer K) (width : Nat) (boundaries : List Nat) (input out : Tensor K) : Prop :=
  ∀ p ∈ documents boundaries, ∀ t, p.1 ≤ t → t < p.2 → ∀ e < mixer.convDim, out.get [0, t, e] =
    convTap width p.1 (fun k => mixer.convWeight.get [e, 0, k]) (biasAt mixer.convBias e)
      (fun i => input.get [0, i, e]) t

/-- **The convolution of a rank is its channels of the convolution of the whole.** -/
theorem conv_channel {E width : Nat} (hfit : Fits mixer E width) (hn : 0 < n) (hh : mixer.numHeads = n * h)
    (hg : mixer.nGroups = n * g) (hx : x.shape = [1, S, n * (h * mixer.headDim)])
    (hb : b.shape = [1, S, n * (g * mixer.ssmStateSize)]) (hc : c.shape = [1, S, n * (g * mixer.ssmStateSize)])
    (hr : r < n) (hS : 0 < S) {boundaries : List Nat} (hspan : Spans boundaries S) {whole : Tensor K}
    (hwhole : IsConv mixer width boundaries (cat 2 [x, b, c]) whole) :
    ∃ part, causalConv1dVarlen (cat 2 [features n r x, features n r b, features n r c])
        (indexRows mixer.convWeight (convIndices mixer n r))
        (mixer.convBias.map fun bias => indexRows bias (convIndices mixer n r)) boundaries = .ok part ∧
      part.shape = [1, S, h * mixer.headDim + g * mixer.ssmStateSize + g * mixer.ssmStateSize] ∧
      ∀ t < S, ∀ e < h * mixer.headDim + g * mixer.ssmStateSize + g * mixer.ssmStateSize,
        part.get [0, t, e] = whole.get [0, t, (convIndices mixer n r).getD e 0] := by
  have hi : mixer.intermediateSize = n * (h * mixer.headDim) := by rw [hfit.intermediate, hh, Nat.mul_assoc]
  have hlen := length_convIndices hn hh hg r
  have hparts := shape_parts (shape_features hx hr) (shape_features hb hr) (shape_features hc hr)
  have hweight : (indexRows mixer.convWeight (convIndices mixer n r)).shape =
      [h * mixer.headDim + g * mixer.ssmStateSize + g * mixer.ssmStateSize, 1, width] := by
    rw [indexRows, shape_ofFn, hfit.convWeight, hlen]
    rfl
  obtain ⟨part, hok, hshape, hget⟩ := causalConv1dVarlen_ok hspan hS hparts hweight
    (mixer.convBias.map fun bias => indexRows bias (convIndices mixer n r))
  refine ⟨part, hok, hshape, fun t ht e he => ?_⟩
  obtain ⟨p, hp, hlo, hhi⟩ := exists_document hspan ht
  have hchannel : (convIndices mixer n r).getD e 0 < mixer.convDim := by
    rw [hfit.conv, hg, Nat.mul_assoc]
    exact channel_lt hn hh hg hi hr he
  have he' : e < (convIndices mixer n r).length := hlen.symm ▸ he
  have hbias : ∀ v ∈ mixer.convBias, v.shape = [mixer.convDim] := hfit.convBias
  rw [hget p hp t hlo hhi e he, hwhole p hp t hlo hhi _ hchannel, biasAt_indexRows hbias he']
  have htaps : ∀ k < width, (indexRows mixer.convWeight (convIndices mixer n r)).get [e, 0, k] =
      mixer.convWeight.get [(convIndices mixer n r).getD e 0, 0, k] := by
    intro k hk
    have hin : Inside [1, width] [0, k] := ⟨Nat.one_pos, hk, trivial⟩
    exact get_indexRows hfit.convWeight he' hin
  refine (convTap_congr hlo _ _ fun i _ hit => ?_).trans (convTap_taps htaps _ _ _ _)
  exact parts_channel hn hh hg hi hx hb hc hr (hit.trans_lt ht) he

end

end Mamba
end Aether
