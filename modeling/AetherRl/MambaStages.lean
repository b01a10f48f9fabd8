import AetherRl.MambaExchange
import AetherRl.MambaDocuments
/-!
# MambaStages — the layer stage by stage on a rank's features

A projection is computed token by token, so it commutes with a split of the rows.  The convolution, the gate and the norm
are computed feature by feature or group by group, so each commutes with a split of the features.
-/
namespace Aether
namespace Mamba

open Checked Tensor Shape

variable {K : Type} [Field K]

section
variable {b S D : Nat} {t : Tensor K}

/-! ## Columns -/

theorem shape_cols (ht : t.shape = [b, S, D]) (start stop : Nat) :
    (t.narrow 2 start stop).shape = [b, S, min stop D - start] := by
  rw [narrow, shape_ofFn, size_of_shape ht, ht]
  rfl

theorem get_cols (ht : t.shape = [b, S, D]) {start stop i x e : Nat} (hi : i < b) (hx : x < S)
    (he : e < min stop D - start) : (t.narrow 2 start stop).get [i, x, e] = t.get [i, x, start + e] := by
  have hout : Inside (t.narrow 2 start stop).shape [i, x, e] := by
    rw [shape_cols ht]
    exact ⟨hi, hx, he, trivial⟩
  rw [narrow, shape_ofFn] at hout
  rw [narrow, get_ofFn hout]
  show t.get [i, x, e + start] = _
  rw [Nat.add_comm]

/-- Columns `start` to `start + w`. -/
theorem shape_cols_add {start w : Nat} (ht : t.shape = [b, S, D]) (hw : start + w ≤ D) :
    (t.narrow 2 start (start + w)).shape = [b, S, w] := by
  rw [shape_cols ht, Nat.min_eq_left hw, Nat.add_sub_cancel_left]

theorem get_cols_add {start w i x e : Nat} (ht : t.shape = [b, S, D]) (hw : start + w ≤ D) (hi : i < b) (hx : x < S)
    (he : e < w) : (t.narrow 2 start (start + w)).get [i, x, e] = t.get [i, x, start + e] :=
  get_cols ht hi hx (by omega)

/-- **Columns of some rows are those rows of the columns.** -/
theorem narrow_rows {n s r start stop : Nat} (ht : t.shape = [b, n * s, D]) (hr : r < n) :
    (piece 1 n r t).narrow 2 start stop = piece 1 n r (t.narrow 2 start stop) := by
  have hrows : (piece 1 n r t).shape = [b, s, D] := shape_heads ht hr
  have hcols := shape_cols ht start stop
  refine ext₃ (shape_cols hrows start stop) (shape_heads hcols hr) fun i hi x hx e he => ?_
  have hwide : Inside [D] [start + e] := ⟨by omega, trivial⟩
  have hlow : Inside [min stop D - start] [e] := ⟨he, trivial⟩
  rw [get_cols hrows hi hx he, get_piece ht hr hi hx hwide, get_piece hcols hr hi hx hlow,
    get_cols ht hi (place_lt hr hx) he]

/-! ## Projections -/

theorem shape_apply {o : Nat} {l : Linear K} (hl : l.weight.shape = [o, D]) (ht : t.shape = [b, S, D]) :
    (l.apply t).shape = [b, S, o] := by
  rw [Linear.apply, shape_ofFn, size_of_shape ht, size_of_shape ht, size_of_shape hl]
  rfl

theorem get_apply {o : Nat} {l : Linear K} (hl : l.weight.shape = [o, D]) (ht : t.shape = [b, S, D]) {i x e : Nat}
    (hi : i < b) (hx : x < S) (he : e < o) :
    (l.apply t).get [i, x, e] = ((List.range D).map fun k => t.get [i, x, k] * l.weight.get [e, k]).sum + biasAt l.bias e := by
  have hin : Inside (l.apply t).shape [i, x, e] := by
    rw [shape_apply hl ht]
    exact ⟨hi, hx, he, trivial⟩
  rw [Linear.apply, shape_ofFn] at hin
  rw [Linear.apply, get_ofFn hin, size_of_shape hl]
  rfl

/-- **A projected token depends on that token.** -/
theorem get_apply_congr {o : Nat} {l : Linear K} {u : Tensor K} (hl : l.weight.shape = [o, D]) {b' S' : Nat}
    (ht : t.shape = [b, S, D]) (hu : u.shape = [b', S', D]) {i x i' x' e : Nat} (hi : i < b) (hx : x < S) (hi' : i' < b')
    (hx' : x' < S') (he : e < o) (h : ∀ k < D, t.get [i, x, k] = u.get [i', x', k]) :
    (l.apply t).get [i, x, e] = (l.apply u).get [i', x', e] := by
  rw [get_apply hl ht hi hx he, get_apply hl hu hi' hx' he]
  congr 2
  refine List.map_congr_left fun k hk => ?_
  rw [h k (List.mem_range.1 hk)]

/-- **A projection of some rows is those rows of the projection.** -/
theorem apply_rows {n s r o : Nat} {l : Linear K} (hl : l.weight.shape = [o, D]) (ht : t.shape = [b, n * s, D])
    (hr : r < n) : l.apply (piece 1 n r t) = piece 1 n r (l.apply t) := by
  have hrows : (piece 1 n r t).shape = [b, s, D] := shape_heads ht hr
  have hout := shape_apply hl ht
  refine ext₃ (shape_apply hl hrows) (shape_heads hout hr) fun i hi x hx e he => ?_
  have hin : Inside [o] [e] := ⟨he, trivial⟩
  rw [get_piece hout hr hi hx hin]
  refine get_apply_congr hl hrows ht hi hx hi (place_lt hr hx) he fun k hk => ?_
  have hk' : Inside [D] [k] := ⟨hk, trivial⟩
  exact get_piece ht hr hi hx hk'

end

/-! ## The gated norm -/

section
variable {S m gs : Nat} {fn : Functions K} {x gate weight : Tensor K} {eps : K}

/-- The norm of a feature `f` of group `f / gs`. -/
def normAt (fn : Functions K) (eps : K) (gs : Nat) (weight x gate : Nat → K) (f : Nat) : K :=
  let y := fun f => x f * fn.silu (gate f)
  weight f * (y f * fn.rsqrt (((List.range gs).map fun e => y (f / gs * gs + e) ^ 2).sum / gs + eps))

/-- What the norm is computed of. -/
def gated (fn : Functions K) (x gate : Tensor K) : Tensor K := ofFn x.shape fun idx => x.get idx * fn.silu (gate.get idx)

/-- The norm of `[1, S, m, gs]`, group by group. -/
def groupNorm (fn : Functions K) (eps : K) (S m gs : Nat) (grouped : Tensor K) : Tensor K :=
  ofFn [1, S, m, gs] fun idx =>
    match idx with
    | [b, t, g, e] => grouped.get [b, t, g, e] * fn.rsqrt ((ofFn [1, S, m, 1] fun idx =>
        match idx with
        | [b, t, g, _] => ((List.range gs).map fun e => grouped.get [b, t, g, e] ^ 2).sum / (gs : K)
        | _ => 0).get [b, t, g, 0] + eps)
    | _ => 0

theorem gatedRmsNorm_eq (hx : x.shape = [1, S, m * gs]) (hgs : 0 < gs) :
    gatedRmsNorm fn x gate weight eps gs = ofFn [1, S, m * gs] fun idx =>
      match idx with
      | [b, t, e] => weight.get [e] *
          ((groupNorm fn eps S m gs ((gated fn x gate).reshape [1, S, m, gs])).reshape [1, S, m * gs]).get [b, t, e]
      | _ => 0 := by
  have hshape : (gated fn x gate).shape = [1, S, m * gs] := hx
  have hsize0 : (gated fn x gate).size 0 = 1 := size_of_shape hshape 0
  have hsize1 : (gated fn x gate).size 1 = S := size_of_shape hshape 1
  have hsize2 : (gated fn x gate).size 2 = m * gs := size_of_shape hshape 2
  have hcount : m * gs / gs = m := Nat.mul_div_cancel m hgs
  rw [gated] at hsize0 hsize1 hsize2
  unfold gatedRmsNorm
  simp only [hsize0, hsize1, hsize2, hcount]
  rfl

/-- **A feature is normed within its group.** -/
theorem get_gatedRmsNorm (hx : x.shape = [1, S, m * gs]) {t f : Nat} (ht : t < S) (hf : f < m * gs) :
    (gatedRmsNorm fn x gate weight eps gs).get [0, t, f] =
      normAt fn eps gs (fun f => weight.get [f]) (fun f => x.get [0, t, f]) (fun f => gate.get [0, t, f]) f := by
  have hgs : 0 < gs := Nat.pos_of_mul_pos_left (Nat.zero_lt_of_lt hf)
  have hg : f / gs < m := Nat.div_lt_of_lt_mul (Nat.mul_comm m gs ▸ hf)
  have he : f % gs < gs := Nat.mod_lt f hgs
  have hflat : Inside [1, S, m * gs] [0, t, f] := ⟨Nat.one_pos, ht, hf, trivial⟩
  have hgrouped : Inside [1, S, m, gs] [0, t, f / gs, f % gs] := ⟨Nat.one_pos, ht, hg, he, trivial⟩
  have hvar : Inside [1, S, m, 1] [0, t, f / gs, 0] := ⟨Nat.one_pos, ht, hg, Nat.one_pos, trivial⟩
  have hshape : (gated fn x gate).shape = [1, S, m * gs] := hx
  have hread : ∀ e < gs, ((gated fn x gate).reshape [1, S, m, gs]).get [0, t, f / gs, e] =
      x.get [0, t, f / gs * gs + e] * fn.silu (gate.get [0, t, f / gs * gs + e]) := by
    intro e he
    have hsrc : Inside [1, S, m * gs] [0, t, f / gs * gs + e] := ⟨Nat.one_pos, ht, place_lt hg he, trivial⟩
    have hdst : Inside [1, S, m, gs] [0, t, f / gs, e] := ⟨Nat.one_pos, ht, hg, he, trivial⟩
    have hravel : ravel [1, S, m, gs] [0, t, f / gs, e] = ravel [1, S, m * gs] [0, t, f / gs * gs + e] := by
      simp only [ravel_cons, ravel_nil, List.prod_cons, List.prod_nil]
      ring
    rw [get_reshape hshape hsrc hdst hravel]
    refine get_ofFn ?_
    rw [hx]
    exact hsrc
  have hback : ravel [1, S, m * gs] [0, t, f] = ravel [1, S, m, gs] [0, t, f / gs, f % gs] := by
    simp only [ravel_cons, ravel_nil, List.prod_cons, List.prod_nil]
    conv => lhs; rw [← Nat.div_add_mod' f gs]
    ring
  rw [gatedRmsNorm_eq hx hgs, get_ofFn hflat]
  dsimp only
  rw [get_reshape rfl hgrouped hflat hback, groupNorm, get_ofFn hgrouped]
  dsimp only
  rw [get_ofFn hvar, hread _ he, Nat.div_add_mod', normAt]
  dsimp only
  congr 6
  refine List.map_congr_left fun e he => ?_
  rw [hread e (List.mem_range.1 he)]

theorem shape_gatedRmsNorm (hx : x.shape = [1, S, m * gs]) (hgs : 0 < gs) :
    (gatedRmsNorm fn x gate weight eps gs).shape = [1, S, m * gs] := by
  rw [gatedRmsNorm_eq hx hgs, shape_ofFn]

/-- A feature of group `r` of the groups is normed as it is in the whole. -/
theorem normAt_shift (fn : Functions K) (eps : K) {c r f : Nat} (hgs : 0 < gs) (w x g : Nat → K) {w' x' g' : Nat → K}
    (hf : f < c * gs) (hw : ∀ f < c * gs, w' f = w (r * (c * gs) + f)) (hx : ∀ f < c * gs, x' f = x (r * (c * gs) + f))
    (hg : ∀ f < c * gs, g' f = g (r * (c * gs) + f)) :
    normAt fn eps gs w' x' g' f = normAt fn eps gs w x g (r * (c * gs) + f) := by
  have hplace : r * (c * gs) = gs * (r * c) := by ring
  have hdiv : (r * (c * gs) + f) / gs = r * c + f / gs := by rw [hplace, Nat.mul_add_div hgs]
  have hgroup : f / gs < c := Nat.div_lt_of_lt_mul (Nat.mul_comm c gs ▸ hf)
  rw [normAt, normAt, hdiv, hw f hf]
  dsimp only
  rw [hx f hf, hg f hf]
  congr 6
  refine List.map_congr_left fun e he => ?_
  have hlt : f / gs * gs + e < c * gs := place_lt hgroup (List.mem_range.1 he)
  have hassoc : r * (c * gs) + (f / gs * gs + e) = (r * c + f / gs) * gs + e := by ring
  rw [hx _ hlt, hg _ hlt, hassoc]

/-- **The norm of some features is those features of the norm.** -/
theorem gatedRmsNorm_features {n c r : Nat} (hx : x.shape = [1, S, n * (c * gs)])
    (hgate : gate.shape = [1, S, n * (c * gs)]) (hweight : weight.shape = [n * (c * gs)]) (hgs : 0 < gs) (hr : r < n) :
    gatedRmsNorm fn (features n r x) (features n r gate) (chunk n r weight) eps gs =
      features n r (gatedRmsNorm fn x gate weight eps gs) := by
  have hnil : Inside [] [] := trivial
  have hxr : (features n r x).shape = [1, S, c * gs] := shape_features hx hr
  have hx' : x.shape = [1, S, n * c * gs] := by rw [hx, Nat.mul_assoc]
  have hnorm : (gatedRmsNorm fn x gate weight eps gs).shape = [1, S, n * (c * gs)] := by
    rw [shape_gatedRmsNorm hx' hgs, Nat.mul_assoc]
  refine ext₃ (shape_gatedRmsNorm hxr hgs) (shape_features hnorm hr) fun i hi t ht f hf => ?_
  obtain rfl : i = 0 := by omega
  have hwide : r * (c * gs) + f < n * c * gs := Nat.mul_assoc n c gs ▸ place_lt hr hf
  rw [get_features hnorm hr hi ht hf hnil, get_gatedRmsNorm hxr ht hf, get_gatedRmsNorm hx' ht hwide]
  exact normAt_shift fn eps hgs _ _ _ hf (fun f hf => get_chunk hweight hr hf hnil)
    (fun f hf => get_features hx hr hi ht hf hnil) fun f hf => get_features hgate hr hi ht hf hnil

end

end Mamba
end Aether
