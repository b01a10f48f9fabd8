import AetherRl.MambaForward
/-!
# MambaPacked — no document reads another

Two sequences that agree on a document have the same output there: a projection, the activation and the norm are computed
token by token, the convolution within the document, and the scan within its sequence index, which is the document's.
-/
namespace Aether
namespace Mamba

open Checked Tensor Shape

variable {K : Type} [Field K]

/-- The tensors read the same at the tokens of document `p`. -/
def AgreeOn (p : Nat × Nat) (x y : Tensor K) : Prop :=
  ∀ t, p.1 ≤ t → t < p.2 → ∀ e, x.get [0, t, e] = y.get [0, t, e]

section
variable {p : Nat × Nat} {S D : Nat} {x y : Tensor K}

theorem agreeOn_of_lt (hx : x.shape = [1, S, D]) (hy : y.shape = [1, S, D])
    (h : ∀ t, p.1 ≤ t → t < p.2 → ∀ e < D, x.get [0, t, e] = y.get [0, t, e]) : AgreeOn p x y := by
  intro t hlo hhi e
  by_cases he : e < D
  · exact h t hlo hhi e he
  · rw [x.outside _ (by rw [hx]; exact fun h => he h.2.2.1), y.outside _ (by rw [hy]; exact fun h => he h.2.2.1)]

theorem AgreeOn.apply {o : Nat} {l : Linear K} (hl : l.weight.shape = [o, D]) (hp : p.2 ≤ S)
    (hx : x.shape = [1, S, D]) (hy : y.shape = [1, S, D]) (h : AgreeOn p x y) : AgreeOn p (l.apply x) (l.apply y) := by
  refine agreeOn_of_lt (shape_apply hl hx) (shape_apply hl hy) fun t hlo hhi e he => ?_
  have ht : t < S := hhi.trans_le hp
  exact get_apply_congr hl hx hy Nat.one_pos ht Nat.one_pos ht he fun k _ => h t hlo hhi k

theorem AgreeOn.cols (hp : p.2 ≤ S) (hx : x.shape = [1, S, D]) (hy : y.shape = [1, S, D]) (start stop : Nat)
    (h : AgreeOn p x y) : AgreeOn p (x.narrow 2 start stop) (y.narrow 2 start stop) := by
  refine agreeOn_of_lt (shape_cols hx start stop) (shape_cols hy start stop) fun t hlo hhi e he => ?_
  have ht : t < S := hhi.trans_le hp
  rw [get_cols hx Nat.one_pos ht he, get_cols hy Nat.one_pos ht he, h t hlo hhi]

theorem AgreeOn.silued (hp : p.2 ≤ S) (fn : Functions K) (hx : x.shape = [1, S, D]) (hy : y.shape = [1, S, D])
    (h : AgreeOn p x y) : AgreeOn p (silued fn x) (silued fn y) := by
  refine agreeOn_of_lt (S := S) (D := D) hx hy fun t hlo hhi e he => ?_
  have hin : Inside [1, S, D] [0, t, e] := ⟨Nat.one_pos, hhi.trans_le hp, he, trivial⟩
  rw [get_silued fn (hx ▸ hin), get_silued fn (hy ▸ hin), h t hlo hhi]

/-- Tokens cut into heads, or heads into tokens, read the same. -/
theorem AgreeOn.heads {h P : Nat} (hp : p.2 ≤ S) (hx : x.shape = [1, S, h * P]) (hy : y.shape = [1, S, h * P])
    (ha : AgreeOn p x y) {t : Nat} (hlo : p.1 ≤ t) (hhi : t < p.2) (j e : Nat) :
    (x.reshape [1, S, h, P]).get [0, t, j, e] = (y.reshape [1, S, h, P]).get [0, t, j, e] := by
  by_cases hin : j < h ∧ e < P
  · have hsrc : Inside [1, S, h * P] [0, t, j * P + e] := ⟨Nat.one_pos, hhi.trans_le hp, place_lt hin.1 hin.2, trivial⟩
    have hdst : Inside [1, S, h, P] [0, t, j, e] := ⟨Nat.one_pos, hhi.trans_le hp, hin.1, hin.2, trivial⟩
    have hravel : ravel [1, S, h, P] [0, t, j, e] = ravel [1, S, h * P] [0, t, j * P + e] := by
      simp only [ravel_cons, ravel_nil, List.prod_cons, List.prod_nil]
      ring
    rw [get_reshape hx hsrc hdst hravel, get_reshape hy hsrc hdst hravel, ha t hlo hhi]
  · have hout : ¬ Inside [1, S, h, P] [0, t, j, e] := fun h => hin ⟨h.2.2.1, h.2.2.2.1⟩
    rw [Tensor.outside _ _ hout, Tensor.outside _ _ hout]

theorem agreeOn_of_heads {h P : Nat} (hp : p.2 ≤ S) (hx : x.shape = [1, S, h, P]) (hy : y.shape = [1, S, h, P])
    (ha : ∀ t, p.1 ≤ t → t < p.2 → ∀ j e, x.get [0, t, j, e] = y.get [0, t, j, e]) :
    AgreeOn p (x.reshape [1, S, h * P]) (y.reshape [1, S, h * P]) := by
  refine agreeOn_of_lt (shape_reshape _ _) (shape_reshape _ _) fun t hlo hhi f hf => ?_
  have hP : 0 < P := Nat.pos_of_mul_pos_left (Nat.zero_lt_of_lt hf)
  have hj : f / P < h := Nat.div_lt_of_lt_mul (Nat.mul_comm h P ▸ hf)
  have ht : t < S := hhi.trans_le hp
  have hsrc : Inside [1, S, h, P] [0, t, f / P, f % P] := ⟨Nat.one_pos, ht, hj, Nat.mod_lt f hP, trivial⟩
  have hdst : Inside [1, S, h * P] [0, t, f] := ⟨Nat.one_pos, ht, hf, trivial⟩
  have hravel : ravel [1, S, h * P] [0, t, f] = ravel [1, S, h, P] [0, t, f / P, f % P] := by
    simp only [ravel_cons, ravel_nil, List.prod_cons, List.prod_nil]
    conv => lhs; rw [← Nat.div_add_mod' f P]
    ring
  rw [get_reshape hx hsrc hdst hravel, get_reshape hy hsrc hdst hravel, ha t hlo hhi]

end

/-- The norm of a token is computed from that token. -/
theorem AgreeOn.norm {p : Nat × Nat} {S m gs : Nat} {x y gate gate' weight : Tensor K} {fn : Functions K} {eps : K}
    (hp : p.2 ≤ S) (hgs : 0 < gs) (hx : x.shape = [1, S, m * gs]) (hy : y.shape = [1, S, m * gs]) (h : AgreeOn p x y)
    (hgate : AgreeOn p gate gate') :
    AgreeOn p (gatedRmsNorm fn x gate weight eps gs) (gatedRmsNorm fn y gate' weight eps gs) := by
  refine agreeOn_of_lt (shape_gatedRmsNorm hx hgs) (shape_gatedRmsNorm hy hgs) fun t hlo hhi f hf => ?_
  have ht : t < S := hhi.trans_le hp
  rw [get_gatedRmsNorm hx ht hf, get_gatedRmsNorm hy ht hf, funext (h t hlo hhi), funext (hgate t hlo hhi)]

/-! ## The convolution and the scan -/

section
variable {boundaries : List Nat} {S : Nat} {p : Nat × Nat}

theorem Spans.document_le (hb : Spans boundaries S) (hp : p ∈ documents boundaries) : p.2 ≤ S := by
  obtain ⟨hinc, -, hlast⟩ := hb
  cases boundaries with
  | nil => simp [documents] at hp
  | cons a bs => exact Mamba.document_le hinc hlast hp

/-- **The convolution never mixes tokens of different documents.** -/
theorem conv_document {C width : Nat} {x y weight out out' : Tensor K} {bias : Option (Tensor K)}
    (hb : Spans boundaries S) (hx : x.shape = [1, S, C]) (hy : y.shape = [1, S, C]) (hw : weight.shape = [C, 1, width])
    (hp : p ∈ documents boundaries) (h : AgreeOn p x y)
    (hout : causalConv1dVarlen x weight bias boundaries = .ok out)
    (hout' : causalConv1dVarlen y weight bias boundaries = .ok out') : AgreeOn p out out' := by
  have hle := hb.document_le hp
  by_cases hS : 0 < S
  · obtain ⟨_, hok, hs, hget⟩ := causalConv1dVarlen_ok hb hS hx hw bias
    obtain ⟨_, hok', hs', hget'⟩ := causalConv1dVarlen_ok hb hS hy hw bias
    obtain rfl := Except.ok.inj (hout.symm.trans hok)
    obtain rfl := Except.ok.inj (hout'.symm.trans hok')
    refine agreeOn_of_lt hs hs' fun t hlo hhi c hc => ?_
    rw [hget p hp t hlo hhi c hc, hget' p hp t hlo hhi c hc]
    exact convTap_congr hlo _ _ fun i hi hit => h i hi (hit.trans_lt hhi) c
  · intro t _ hhi
    omega

/-- Two documents of one place are the same. -/
theorem document_unique {seqIdx : Tensor Nat} (hb : Spans boundaries S)
    (hget : ∀ i p, (documents boundaries)[i]? = some p → ∀ x, p.1 ≤ x → x < p.2 → seqIdx.get [0, x] = i)
    (hp : p ∈ documents boundaries) {t t' : Nat} (hlo : p.1 ≤ t) (hhi : t < p.2) (ht' : t' < S)
    (hsame : seqIdx.get [0, t'] = seqIdx.get [0, t]) : p.1 ≤ t' ∧ t' < p.2 := by
  obtain ⟨q, hq, hqlo, hqhi⟩ := exists_document hb ht'
  obtain ⟨i, hi⟩ := List.mem_iff_getElem?.1 hp
  obtain ⟨k, hk⟩ := List.mem_iff_getElem?.1 hq
  have hik : k = i := by rw [← hget k q hk t' hqlo hqhi, hsame, hget i p hi t hlo hhi]
  subst hik
  obtain rfl := Option.some.inj (hk.symm.trans hi)
  exact ⟨hqlo, hqhi⟩

/-- **The scan with the layer's sequence index never mixes tokens of different documents.** -/
theorem scan_document {scan : Scan K} (hscan : RespectsSeqIdx scan) {fresh : List Nat → Tensor Nat}
    (hfresh : ∀ s, (fresh s).shape = s) (hb : Spans boundaries S) {i j : ScanInputs K}
    (hseq : buildSeqIdx fresh boundaries S = .ok i.seqIdx) {H P G N : Nat} (hi : i.Shaped 1 S H P G N)
    (hj : j.Shaped 1 S H P G N) (hdvd : G ∣ H) (hA : i.A = j.A) (hD : i.D = j.D) (hdt : i.dtBias = j.dtBias)
    (hidx : i.seqIdx = j.seqIdx) (hp : p ∈ documents boundaries)
    (h : ∀ t, p.1 ≤ t → t < p.2 → i.SameAt j 0 t) (o : ScanOptions K) :
    ∀ t, p.1 ≤ t → t < p.2 → ∀ k e, (scan o i).get [0, t, k, e] = (scan o j).get [0, t, k, e] := by
  intro t hlo hhi
  obtain ⟨seqIdx, hok, -, hget⟩ := buildSeqIdx_ok hfresh hb
  obtain rfl := Except.ok.inj (hseq.symm.trans hok)
  refine hscan o i j 1 S H P G N hi hj hdvd hA hD hdt hidx 0 Nat.one_pos t (hhi.trans_le (hb.document_le hp))
    fun t' ht' hsame => ?_
  obtain ⟨hlo', hhi'⟩ := document_unique hb hget hp hlo hhi ht' hsame
  exact h t' hlo' hhi'

/-! ## The layer -/

variable {fn : Functions K} {mixer : Mixer K} {E width : Nat} {hidden hidden' : Tensor K}

/-- Parts that agree, side by side. -/
theorem AgreeOn.parts {a b c : Nat} {x y z x' y' z' : Tensor K} (hp : p.2 ≤ S) (hx : x.shape = [1, S, a])
    (hy : y.shape = [1, S, b]) (hz : z.shape = [1, S, c]) (hx' : x'.shape = [1, S, a]) (hy' : y'.shape = [1, S, b])
    (hz' : z'.shape = [1, S, c]) (hax : AgreeOn p x x') (hay : AgreeOn p y y') (haz : AgreeOn p z z') :
    AgreeOn p (cat 2 [x, y, z]) (cat 2 [x', y', z']) := by
  refine agreeOn_of_lt (shape_parts hx hy hz) (shape_parts hx' hy' hz') fun t hlo hhi e he => ?_
  have ht : t < S := hhi.trans_le hp
  obtain ⟨h₁, h₂, h₃⟩ := get_parts hx hy hz ht
  obtain ⟨h₁', h₂', h₃'⟩ := get_parts hx' hy' hz' ht
  by_cases ha : e < a
  · rw [h₁ e ha, h₁' e ha, hax t hlo hhi]
  · by_cases hb : e < a + b
    · obtain ⟨k, rfl⟩ := Nat.exists_eq_add_of_le (Nat.le_of_not_lt ha)
      rw [h₂ k (by omega), h₂' k (by omega), hay t hlo hhi]
    · obtain ⟨k, rfl⟩ := Nat.exists_eq_add_of_le (Nat.le_of_not_lt hb)
      rw [h₃ k (by omega), h₃' k (by omega), haz t hlo hhi]

/-- What one rank holds of a document depends on that document. -/
theorem wholeShard_document (hfit : Fits mixer E width) (hp : p.2 ≤ S) (hh : hidden.shape = [1, S, E])
    (hh' : hidden'.shape = [1, S, E]) (h : AgreeOn p hidden hidden') :
    AgreeOn p (wholeShard mixer hidden).gate (wholeShard mixer hidden').gate ∧
    AgreeOn p (wholeShard mixer hidden).timeStep (wholeShard mixer hidden').timeStep ∧
    AgreeOn p (cat 2 [(wholeShard mixer hidden).xPart, (wholeShard mixer hidden).bPart, (wholeShard mixer hidden).cPart])
      (cat 2 [(wholeShard mixer hidden').xPart, (wholeShard mixer hidden').bPart,
        (wholeShard mixer hidden').cPart]) := by
  have hproj := shape_apply hfit.inProj hh
  have hproj' := shape_apply hfit.inProj hh'
  have ha := h.apply hfit.inProj hp hh hh'
  obtain ⟨-, -, hx, hb, hc⟩ := wholeShard_sized hfit hh
  obtain ⟨-, -, hx', hb', hc'⟩ := wholeShard_sized hfit hh'
  have hcs := shape_cols hproj mixer.intermediateSize (mixer.intermediateSize + mixer.convDim)
  have hcs' := shape_cols hproj' mixer.intermediateSize (mixer.intermediateSize + mixer.convDim)
  have hconv := ha.cols hp hproj hproj' mixer.intermediateSize (mixer.intermediateSize + mixer.convDim)
  exact ⟨ha.cols hp hproj hproj' _ _, ha.cols hp hproj hproj' _ _, AgreeOn.parts hp hx hb hc hx' hb' hc'
    (hconv.cols hp hcs hcs' _ _) (hconv.cols hp hcs hcs' _ _) (hconv.cols hp hcs hcs' _ _)⟩

/-- Inputs that agree have convolutions that agree. -/
theorem IsConv.document {x y conv conv' : Tensor K} (hconv : conv.shape = [1, S, mixer.convDim])
    (hconv' : conv'.shape = [1, S, mixer.convDim]) (hx : IsConv mixer width boundaries x conv)
    (hy : IsConv mixer width boundaries y conv') (hp : p ∈ documents boundaries) (h : AgreeOn p x y) :
    AgreeOn p conv conv' := by
  refine agreeOn_of_lt hconv hconv' fun t hlo hhi e he => ?_
  rw [hx p hp t hlo hhi e he, hy p hp t hlo hhi e he]
  exact convTap_congr hlo _ _ fun i hi hit => h i hi (hit.trans_lt hhi) e

/-- **The norm of the scan of a document depends on that document.** -/
theorem wholeNorm_document {scan : Scan K} (hhead : PerHead scan) (hscan : RespectsSeqIdx scan)
    {fresh : List Nat → Tensor Nat} (hfresh : ∀ s, (fresh s).shape = s) (hfit : Fits mixer E width)
    (hnorm : mixer.groupSize ∣ mixer.intermediateSize) (hb : Spans boundaries S) {seqIdx : Tensor Nat}
    (hseq : buildSeqIdx fresh boundaries S = .ok seqIdx) (hseqs : seqIdx.shape = [1, S])
    {conv conv' gate gate' timeStep timeStep' : Tensor K} (hconv : conv.shape = [1, S, mixer.convDim])
    (hconv' : conv'.shape = [1, S, mixer.convDim]) (ht : timeStep.shape = [1, S, mixer.numHeads])
    (ht' : timeStep'.shape = [1, S, mixer.numHeads]) (hp : p ∈ documents boundaries) (hc : AgreeOn p conv conv')
    (hgate : AgreeOn p gate gate') (htime : AgreeOn p timeStep timeStep') :
    AgreeOn p (wholeNorm fn scan mixer S conv gate timeStep seqIdx)
      (wholeNorm fn scan mixer S conv' gate' timeStep' seqIdx) := by
  have hle := hb.document_le hp
  have hcs : (silued fn conv).shape = [1, S, mixer.convDim] := hconv
  have hcs' : (silued fn conv').shape = [1, S, mixer.convDim] := hconv'
  have hdim := hfit.conv
  have hsilu := hc.silued hle fn hconv hconv'
  have hshaped : (wholeInputs fn mixer S conv timeStep seqIdx).Shaped 1 S mixer.numHeads mixer.headDim mixer.nGroups
      mixer.ssmStateSize := wholeInputs_shaped hfit ht hseqs
  have hshaped' : (wholeInputs fn mixer S conv' timeStep' seqIdx).Shaped 1 S mixer.numHeads mixer.headDim mixer.nGroups
      mixer.ssmStateSize := wholeInputs_shaped hfit ht' hseqs
  have hcols : ∀ start w, start + w ≤ mixer.convDim → ((silued fn conv).narrow 2 start (start + w)).shape = [1, S, w] ∧
      ((silued fn conv').narrow 2 start (start + w)).shape = [1, S, w] :=
    fun start w hw => ⟨shape_cols_add hcs hw, shape_cols_add hcs' hw⟩
  have hxs : ((silued fn conv).narrow 2 0 mixer.intermediateSize).shape = [1, S, mixer.numHeads * mixer.headDim] := by
    rw [shape_cols hcs, Nat.min_eq_left (by omega), Nat.sub_zero, hfit.intermediate]
  have hxs' : ((silued fn conv').narrow 2 0 mixer.intermediateSize).shape = [1, S, mixer.numHeads * mixer.headDim] := by
    rw [shape_cols hcs', Nat.min_eq_left (by omega), Nat.sub_zero, hfit.intermediate]
  obtain ⟨hbs, hbs'⟩ := hcols mixer.intermediateSize (mixer.nGroups * mixer.ssmStateSize) (by omega)
  obtain ⟨hccs, hccs'⟩ := hcols (mixer.intermediateSize + mixer.nGroups * mixer.ssmStateSize)
    (mixer.nGroups * mixer.ssmStateSize) (by omega)
  have hsame : ∀ t, p.1 ≤ t → t < p.2 → (wholeInputs fn mixer S conv timeStep seqIdx).SameAt
      (wholeInputs fn mixer S conv' timeStep' seqIdx) 0 t := by
    intro t hlo hhi
    refine ⟨?_, htime t hlo hhi, ?_, ?_⟩
    · exact (hsilu.cols hle hcs hcs' _ _).heads hle hxs hxs' hlo hhi
    · exact (hsilu.cols hle hcs hcs' _ _).heads hle hbs hbs' hlo hhi
    · exact (hsilu.cols hle hcs hcs' _ _).heads hle hccs hccs' hlo hhi
  have hout := scan_document hscan hfresh hb hseq hshaped hshaped' hfit.groups rfl rfl rfl rfl hp hsame (scanOptions mixer)
  obtain ⟨head, hhead⟩ := hhead
  have hos := (hhead (scanOptions mixer) _ _ _ _ _ _ _ hshaped hfit.groups).1
  have hos' := (hhead (scanOptions mixer) _ _ _ _ _ _ _ hshaped' hfit.groups).1
  obtain ⟨m, hm⟩ := hnorm
  rw [Nat.mul_comm] at hm
  have hflat := agreeOn_of_heads hle hos hos' hout
  rw [← hfit.intermediate] at hflat
  exact AgreeOn.norm (m := m) hle hfit.groupSize ((shape_reshape _ _).trans (by rw [hm]))
    ((shape_reshape _ _).trans (by rw [hm])) hflat hgate

end

end Mamba
end Aether
