import AetherRl.MambaScan
/-!
# MambaWhole — a rank's heads of the whole

The convolution, the scan and the norm over all heads, and what `headParallel` computes on a rank: its features of that.
-/
namespace Aether
namespace Mamba

open Checked Tensor Shape

variable {K : Type} [Field K]

/-! ## Changes of shape -/

section
variable {n h P S r : Nat} {t : Tensor K}

/-- **Features cut into heads are the heads of those features.** -/
theorem reshape_features (ht : t.shape = [1, S, n * (h * P)]) (hr : r < n) :
    (features n r t).reshape [1, S, h, P] = features n r (t.reshape [1, S, n * h, P]) := by
  have hnil : Inside [] [] := trivial
  have hwide : (t.reshape [1, S, n * h, P]).shape = [1, S, n * h, P] := rfl
  refine ext_inside (shape_features hwide hr).symm fun idx hi => ?_
  rw [shape_reshape] at hi
  match idx, hi with
  | [i, x, j, e], hi =>
    obtain ⟨hi₀, hx, hj, he, -⟩ := hi
    have hlow : Inside [P] [e] := ⟨he, trivial⟩
    have hplace : j * P + e < h * P := place_lt hj he
    have hsrc : Inside [1, S, h * P] [i, x, j * P + e] := ⟨hi₀, hx, hplace, trivial⟩
    have hdst : Inside [1, S, h, P] [i, x, j, e] := ⟨hi₀, hx, hj, he, trivial⟩
    have hsrc' : Inside [1, S, n * (h * P)] [i, x, r * (h * P) + (j * P + e)] := ⟨hi₀, hx, place_lt hr hplace, trivial⟩
    have hdst' : Inside [1, S, n * h, P] [i, x, r * h + j, e] := ⟨hi₀, hx, place_lt hr hj, he, trivial⟩
    have hravel : ravel [1, S, h, P] [i, x, j, e] = ravel [1, S, h * P] [i, x, j * P + e] := by
      simp only [ravel_cons, ravel_nil, List.prod_cons, List.prod_nil]
      ring
    have hravel' : ravel [1, S, n * h, P] [i, x, r * h + j, e] =
        ravel [1, S, n * (h * P)] [i, x, r * (h * P) + (j * P + e)] := by
      simp only [ravel_cons, ravel_nil, List.prod_cons, List.prod_nil]
      ring
    rw [get_reshape (shape_features ht hr) hsrc hdst hravel, get_features ht hr hi₀ hx hplace hnil,
      get_features hwide hr hi₀ hx hj hlow, get_reshape ht hsrc' hdst' hravel']

/-- **Heads laid out as features are the features of those heads.** -/
theorem features_reshape (ht : t.shape = [1, S, n * h, P]) (hr : r < n) :
    (features n r t).reshape [1, S, h * P] = features n r (t.reshape [1, S, n * (h * P)]) := by
  have hnil : Inside [] [] := trivial
  have hwide : (t.reshape [1, S, n * (h * P)]).shape = [1, S, n * (h * P)] := rfl
  refine ext₃ (shape_reshape _ _) (shape_features hwide hr) fun i hi x hx f hf => ?_
  have hP : 0 < P := Nat.pos_of_mul_pos_left (Nat.zero_lt_of_lt hf)
  have hj : f / P < h := Nat.div_lt_of_lt_mul (Nat.mul_comm h P ▸ hf)
  have he : f % P < P := Nat.mod_lt f hP
  have hlow : Inside [P] [f % P] := ⟨he, trivial⟩
  have hsrc : Inside [1, S, h, P] [i, x, f / P, f % P] := ⟨hi, hx, hj, he, trivial⟩
  have hdst : Inside [1, S, h * P] [i, x, f] := ⟨hi, hx, hf, trivial⟩
  have hsrc' : Inside [1, S, n * h, P] [i, x, r * h + f / P, f % P] := ⟨hi, hx, place_lt hr hj, he, trivial⟩
  have hdst' : Inside [1, S, n * (h * P)] [i, x, r * (h * P) + f] := ⟨hi, hx, place_lt hr hf, trivial⟩
  have hravel : ravel [1, S, h * P] [i, x, f] = ravel [1, S, h, P] [i, x, f / P, f % P] := by
    simp only [ravel_cons, ravel_nil, List.prod_cons, List.prod_nil]
    conv => lhs; rw [← Nat.div_add_mod' f P]
    ring
  have hravel' : ravel [1, S, n * (h * P)] [i, x, r * (h * P) + f] =
      ravel [1, S, n * h, P] [i, x, r * h + f / P, f % P] := by
    simp only [ravel_cons, ravel_nil, List.prod_cons, List.prod_nil]
    conv => lhs; rw [← Nat.div_add_mod' f P]
    ring
  rw [get_reshape (shape_features ht hr) hsrc hdst hravel, get_features ht hr hi hx hj hlow,
    get_features hwide hr hi hx hf hnil, get_reshape ht hsrc' hdst' hravel']

end

/-! ## The computation over all heads -/

/-- The activation. -/
def silued (fn : Functions K) (t : Tensor K) : Tensor K := ofFn t.shape fun idx => fn.silu (t.get idx)

theorem get_silued (fn : Functions K) {t : Tensor K} {idx : List Nat} (h : Inside t.shape idx) :
    (silued fn t).get idx = fn.silu (t.get idx) := get_ofFn h

/-- What the scan reads where one rank has all heads. -/
def wholeInputs (fn : Functions K) (mixer : Mixer K) (S : Nat) (conv timeStep : Tensor K) (seqIdx : Tensor Nat) :
    ScanInputs K where
  x := ((silued fn conv).narrow 2 0 mixer.intermediateSize).reshape [1, S, mixer.numHeads, mixer.headDim]
  dt := timeStep
  A := ofFn mixer.aLog.shape fun idx => -fn.exp (mixer.aLog.get idx)
  B := ((silued fn conv).narrow 2 mixer.intermediateSize
    (mixer.intermediateSize + mixer.nGroups * mixer.ssmStateSize)).reshape [1, S, mixer.nGroups, mixer.ssmStateSize]
  C := ((silued fn conv).narrow 2 (mixer.intermediateSize + mixer.nGroups * mixer.ssmStateSize)
    (mixer.intermediateSize + mixer.nGroups * mixer.ssmStateSize + mixer.nGroups * mixer.ssmStateSize)).reshape
      [1, S, mixer.nGroups, mixer.ssmStateSize]
  D := mixer.d
  dtBias := mixer.dtBias
  seqIdx := seqIdx

/-- The options of the layer's scan. -/
def scanOptions (mixer : Mixer K) : ScanOptions K := ⟨mixer.chunkSize, true, false, mixer.timeStepLimit⟩

/-- The gated norm of the scan of all heads. -/
def wholeNorm (fn : Functions K) (scan : Scan K) (mixer : Mixer K) (S : Nat) (conv gate timeStep : Tensor K)
    (seqIdx : Tensor Nat) : Tensor K :=
  gatedRmsNorm fn ((scan (scanOptions mixer) (wholeInputs fn mixer S conv timeStep seqIdx)).reshape
    [1, S, mixer.intermediateSize]) gate mixer.normWeight mixer.varianceEpsilon mixer.groupSize

/-- A rank's features of what one rank holds. -/
def HeadShard.features (n r : Nat) (shard : HeadShard K) : HeadShard K where
  gate := Mamba.features n r shard.gate
  timeStep := Mamba.features n r shard.timeStep
  xPart := Mamba.features n r shard.xPart
  bPart := Mamba.features n r shard.bPart
  cPart := Mamba.features n r shard.cPart

/-- The sizes of what one rank holds. -/
structure HeadShard.Sized (mixer : Mixer K) (S : Nat) (shard : HeadShard K) : Prop where
  gate : shard.gate.shape = [1, S, mixer.intermediateSize]
  timeStep : shard.timeStep.shape = [1, S, mixer.numHeads]
  xPart : shard.xPart.shape = [1, S, mixer.intermediateSize]
  bPart : shard.bPart.shape = [1, S, mixer.nGroups * mixer.ssmStateSize]
  cPart : shard.cPart.shape = [1, S, mixer.nGroups * mixer.ssmStateSize]

section
variable {fn : Functions K} {mixer : Mixer K} {E width S : Nat} {conv timeStep : Tensor K} {seqIdx : Tensor Nat}

/-- The scan's inputs have the layer's sizes. -/
theorem wholeInputs_shaped (hfit : Fits mixer E width) (ht : timeStep.shape = [1, S, mixer.numHeads])
    (hs : seqIdx.shape = [1, S]) :
    (wholeInputs fn mixer S conv timeStep seqIdx).Shaped 1 S mixer.numHeads mixer.headDim mixer.nGroups
      mixer.ssmStateSize where
  x := rfl
  dt := ht
  A := hfit.aLog
  B := rfl
  C := rfl
  D := hfit.d
  dtBias := hfit.dtBias
  seqIdx := hs

variable {n h g r : Nat} {part : Tensor K}

/-- **A rank's parts of its convolution are its features of the parts of the whole.** -/
theorem narrow_channel (hr : r < n) (hconv : conv.shape = [1, S, mixer.convDim])
    (hpart : part.shape = [1, S, h * mixer.headDim + g * mixer.ssmStateSize + g * mixer.ssmStateSize])
    (hget : ∀ t < S, ∀ e < h * mixer.headDim + g * mixer.ssmStateSize + g * mixer.ssmStateSize,
      part.get [0, t, e] = conv.get [0, t, (convIndices mixer n r).getD e 0]) (fn : Functions K) (start start' w : Nat)
    (hlow : start + w ≤ h * mixer.headDim + g * mixer.ssmStateSize + g * mixer.ssmStateSize)
    (hwide : start' + n * w ≤ mixer.convDim)
    (hchannel : ∀ e < w, (convIndices mixer n r).getD (start + e) 0 = start' + (r * w + e)) :
    (silued fn part).narrow 2 start (start + w) = features n r ((silued fn conv).narrow 2 start' (start' + n * w)) := by
  have hnil : Inside [] [] := trivial
  have hps : (silued fn part).shape =
      [1, S, h * mixer.headDim + g * mixer.ssmStateSize + g * mixer.ssmStateSize] := hpart
  have hcs : (silued fn conv).shape = [1, S, mixer.convDim] := hconv
  have hcols := shape_cols_add hcs hwide
  refine ext₃ (shape_cols_add hps hlow) (shape_features hcols hr) fun i hi t ht e he => ?_
  obtain rfl : i = 0 := by omega
  have hplace := place_lt hr he
  have hpin : Inside part.shape [0, t, start + e] := by
    rw [hpart]
    exact ⟨hi, ht, by omega, trivial⟩
  have hcin : Inside conv.shape [0, t, start' + (r * w + e)] := by
    rw [hconv]
    exact ⟨hi, ht, by omega, trivial⟩
  rw [get_cols_add hps hlow hi ht he, get_features hcols hr hi ht he hnil, get_cols_add hcs hwide hi ht hplace,
    get_silued fn hpin, get_silued fn hcin, hget t ht _ (by omega), hchannel e he]

/-- A slice of whole parts is a part. -/
theorem narrow_chunk {t : Tensor K} (ht : t.shape = [n * h]) (hn : 0 < n) :
    t.narrow 0 (r * h) (r * h + h) = chunk n r t := by
  have hsize : t.size 0 / n = h := by
    rw [size_of_shape ht]
    exact Nat.mul_div_cancel_left h hn
  rw [chunk, piece, hsize, Nat.succ_mul]

/-- The inputs of a rank's scan are its part of the inputs over all heads. -/
theorem inputs_part (hfit : Fits mixer E width) (hn : 0 < n) (hh : mixer.numHeads = n * h)
    (hg : mixer.nGroups = n * g) (hr : r < n) (hconv : conv.shape = [1, S, mixer.convDim])
    (hpart : part.shape = [1, S, h * mixer.headDim + g * mixer.ssmStateSize + g * mixer.ssmStateSize])
    (hget : ∀ t < S, ∀ e < h * mixer.headDim + g * mixer.ssmStateSize + g * mixer.ssmStateSize,
      part.get [0, t, e] = conv.get [0, t, (convIndices mixer n r).getD e 0]) :
    (wholeInputs fn mixer S conv timeStep seqIdx).part n r =
      { x := ((silued fn part).narrow 2 0 (h * mixer.headDim)).reshape [1, S, h, mixer.headDim]
        dt := features n r timeStep
        A := (ofFn mixer.aLog.shape fun idx => -fn.exp (mixer.aLog.get idx)).narrow 0 (r * h) (r * h + h)
        B := ((silued fn part).narrow 2 (h * mixer.headDim)
          (h * mixer.headDim + g * mixer.ssmStateSize)).reshape [1, S, g, mixer.ssmStateSize]
        C := ((silued fn part).narrow 2 (h * mixer.headDim + g * mixer.ssmStateSize)
          (h * mixer.headDim + g * mixer.ssmStateSize + g * mixer.ssmStateSize)).reshape [1, S, g, mixer.ssmStateSize]
        D := mixer.d.narrow 0 (r * h) (r * h + h)
        dtBias := mixer.dtBias.narrow 0 (r * h) (r * h + h)
        seqIdx := seqIdx } := by
  have hi : mixer.intermediateSize = n * (h * mixer.headDim) := by rw [hfit.intermediate, hh, Nat.mul_assoc]
  have hgroups : mixer.nGroups * mixer.ssmStateSize = n * (g * mixer.ssmStateSize) := by rw [hg, Nat.mul_assoc]
  have hdim : mixer.convDim = n * (h * mixer.headDim) + n * (g * mixer.ssmStateSize) + n * (g * mixer.ssmStateSize) := by
    rw [hfit.conv, hgroups, hi]
  have hcs : (silued fn conv).shape = [1, S, mixer.convDim] := hconv
  obtain ⟨hxc, hbc, hcc⟩ := channel_eq hn hh hg r
  have hx := narrow_channel hr hconv hpart hget fn 0 0 (h * mixer.headDim) (by omega) (by omega)
    fun e he => by rw [Nat.zero_add, Nat.zero_add, hxc e he]
  have hb := narrow_channel hr hconv hpart hget fn (h * mixer.headDim) mixer.intermediateSize (g * mixer.ssmStateSize)
    (by omega) (by omega) hbc
  have hc := narrow_channel hr hconv hpart hget fn (h * mixer.headDim + g * mixer.ssmStateSize)
    (mixer.intermediateSize + n * g * mixer.ssmStateSize) (g * mixer.ssmStateSize) (by omega)
    (by rw [Nat.mul_assoc n g]; omega) hcc
  rw [Nat.zero_add, Nat.zero_add] at hx
  have hxs : ((silued fn conv).narrow 2 0 (0 + n * (h * mixer.headDim))).shape = [1, S, n * (h * mixer.headDim)] :=
    shape_cols_add hcs (by omega)
  have hbs : ((silued fn conv).narrow 2 mixer.intermediateSize (mixer.intermediateSize +
      n * (g * mixer.ssmStateSize))).shape = [1, S, n * (g * mixer.ssmStateSize)] := shape_cols_add hcs (by omega)
  have hccs : ((silued fn conv).narrow 2 (mixer.intermediateSize + n * g * mixer.ssmStateSize)
      (mixer.intermediateSize + n * g * mixer.ssmStateSize + n * (g * mixer.ssmStateSize))).shape =
      [1, S, n * (g * mixer.ssmStateSize)] := shape_cols_add hcs (by rw [Nat.mul_assoc n g]; omega)
  rw [Nat.zero_add] at hxs
  have ha : (ofFn mixer.aLog.shape fun idx => -fn.exp (mixer.aLog.get idx)).shape = [n * h] := hh ▸ hfit.aLog
  have hd : mixer.d.shape = [n * h] := hh ▸ hfit.d
  have hdt : mixer.dtBias.shape = [n * h] := hh ▸ hfit.dtBias
  unfold wholeInputs ScanInputs.part
  dsimp only
  rw [hx, hb, hc, reshape_features hxs hr, reshape_features hbs hr, reshape_features hccs hr, narrow_chunk ha hn,
    narrow_chunk hd hn, narrow_chunk hdt hn, hgroups, hg, hh, Nat.mul_assoc n g, hi]

variable {scan : Scan K} {fresh : List Nat → Tensor Nat} {boundaries : List Nat} {shard : HeadShard K}

/-- **A rank computes its features of the whole.** -/
theorem headParallel_features (hscan : PerHead scan) (hfit : Fits mixer E width) (hr : r < n)
    (hh : mixer.numHeads = n * h) (hg : mixer.nGroups = n * g) (hnorm : mixer.groupSize ∣ h * mixer.headDim)
    (hshard : shard.Sized mixer S) (hS : 0 < S) (hspan : Spans boundaries S)
    (hseq : buildSeqIdx fresh boundaries S = .ok seqIdx) (hseqs : seqIdx.shape = [1, S])
    (hconv : conv.shape = [1, S, mixer.convDim])
    (hwhole : IsConv mixer width boundaries (cat 2 [shard.xPart, shard.bPart, shard.cPart]) conv) :
    headParallel fn scan fresh mixer n r boundaries (shard.features n r) =
      .ok (features n r (wholeNorm fn scan mixer S conv shard.gate shard.timeStep seqIdx)) := by
  have hn : 0 < n := Nat.zero_lt_of_lt hr
  have hg0 : 0 < g := Nat.pos_of_mul_pos_left (hg ▸ hfit.nGroups)
  have hdvd : g ∣ h := Nat.dvd_of_mul_dvd_mul_left hn (hg ▸ hh ▸ hfit.groups)
  have hi : mixer.intermediateSize = n * (h * mixer.headDim) := by rw [hfit.intermediate, hh, Nat.mul_assoc]
  have hgroups : mixer.nGroups * mixer.ssmStateSize = n * (g * mixer.ssmStateSize) := by rw [hg, Nat.mul_assoc]
  have hheads : mixer.numHeads / n = h := by rw [hh, Nat.mul_div_cancel_left h hn]
  have hlocal : mixer.nGroups / n = g := by rw [hg, Nat.mul_div_cancel_left g hn]
  have hstates : g * mixer.ssmStateSize / g = mixer.ssmStateSize := Nat.mul_div_cancel_left _ hg0
  have hx : shard.xPart.shape = [1, S, n * (h * mixer.headDim)] := hi ▸ hshard.xPart
  have hb : shard.bPart.shape = [1, S, n * (g * mixer.ssmStateSize)] := hgroups ▸ hshard.bPart
  have hc : shard.cPart.shape = [1, S, n * (g * mixer.ssmStateSize)] := hgroups ▸ hshard.cPart
  obtain ⟨part, hok, hpart, hget⟩ := conv_channel hfit hn hh hg hx hb hc hr hS hspan hwhole
  have hparts := shape_parts (shape_features hx hr) (shape_features hb hr) (shape_features hc hr)
  have hbatch : (cat 2 [features n r shard.xPart, features n r shard.bPart, features n r shard.cPart]).size 0 = 1 :=
    size_of_shape hparts 0
  have hlen : (cat 2 [features n r shard.xPart, features n r shard.bPart, features n r shard.cPart]).size 1 = S :=
    size_of_shape hparts 1
  have hinputs : (wholeInputs fn mixer S conv shard.timeStep seqIdx).part n r = _ :=
    inputs_part hfit hn hh hg hr hconv hpart hget
  unfold headParallel HeadShard.features
  dsimp only
  rw [hbatch, hlen, hseq, hheads, hlocal]
  show (do let convolved ← causalConv1dVarlen _ _ _ boundaries; _ : Except String (Tensor K)) = _
  rw [hok]
  obtain ⟨c, hgs⟩ := hnorm
  rw [Nat.mul_comm mixer.groupSize c] at hgs
  have hlast : mixer.intermediateSize = n * (c * mixer.groupSize) := by rw [hi, hgs]
  have hshaped : (wholeInputs fn mixer S conv shard.timeStep seqIdx).Shaped 1 S (n * h) mixer.headDim (n * g)
      mixer.ssmStateSize := hh ▸ hg ▸ wholeInputs_shaped hfit hshard.timeStep hseqs
  have hscanned := scan_part hscan hshaped hg0 hdvd hr (scanOptions mixer)
  have hwscan : (scan (scanOptions mixer) (wholeInputs fn mixer S conv shard.timeStep seqIdx)).shape =
      [1, S, n * h, mixer.headDim] := by
    obtain ⟨head, hhead⟩ := hscan
    exact (hhead _ _ _ _ _ _ _ _ hshaped (Nat.mul_dvd_mul_left n hdvd)).1
  have hweight : mixer.normWeight.shape = [n * (c * mixer.groupSize)] := hlast ▸ hfit.normWeight
  have hslice : mixer.normWeight.narrow 0 (r * (h * mixer.headDim)) ((r + 1) * (h * mixer.headDim)) =
      chunk n r mixer.normWeight := by
    rw [hgs, Nat.succ_mul]
    exact narrow_chunk hweight hn
  have hgate : shard.gate.shape = [1, S, n * (c * mixer.groupSize)] := hlast ▸ hshard.gate
  show Except.ok (gatedRmsNorm fn ((scan (scanOptions mixer) _).reshape _) _ _ _ _) = _
  have hsilu : (ofFn part.shape fun idx => fn.silu (part.get idx)) = silued fn part := rfl
  rw [hstates, hsilu, ← hinputs, hscanned, features_reshape hwscan hr, hslice, ← hi]
  have hflat : ((scan (scanOptions mixer) (wholeInputs fn mixer S conv shard.timeStep seqIdx)).reshape
      [1, S, mixer.intermediateSize]).shape = [1, S, n * (c * mixer.groupSize)] := by rw [shape_reshape, hlast]
  rw [gatedRmsNorm_features hflat hgate hweight hfit.groupSize hr, wholeNorm]

end

end Mamba
end Aether
