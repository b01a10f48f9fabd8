import AetherRl.UlyssesAttention
import AetherRl.TensorStack
/-!
# UlyssesWindow — the Hugging Face path and its sliding window

The patched `_flash_attention_forward` decides whether to pass the window from the keys a rank holds before the exchange;
the kernel then runs on the whole sequence.
-/
namespace Aether
namespace Ulysses

open Checked Tensor Shape

variable {α : Type} [Zero α]

/-! ## `_ulysses_flash_attention_forward` -/

def squeeze (t : Tensor α) : Tensor α := if t.size 0 = 1 then t.select 0 0 else t

def unsqueeze (t : Tensor α) : Tensor α := t.reshape (1 :: t.shape)

/-- The window for keys of the given length. -/
def windowFor (slidingWindow : Option Int) (keyLength : Nat) : Int × Int :=
  match slidingWindow with
  | some w => if w < keyLength then (w, w) else (-1, -1)
  | none => (-1, -1)

/-- What `update_ulysses_params` set. -/
structure UlyssesParams where
  cuSeqlens : List Nat
  maxSeqlen : Nat

def ulyssesFlashAttentionForward [DecidableEq α] (flashAttnVarlenFunc : FlashFn α) (params : UlyssesParams) (cpSize : Nat)
    (queryStates keyStates valueStates : List (Tensor α)) (isCausal : Bool) (dropout : α) (softmaxScale : Option α)
    (slidingWindow : Option Int) (softcap : Option α) (deterministic : Option Bool) :
    Except String (List (Tensor α)) := do
  Checked.raiseUnless isCausal "ulysses CP only supports causal attention"
  Checked.raiseUnless (softcap = none) "ulysses CP path does not support softcap"
  Checked.raiseUnless (∀ q ∈ queryStates, q.size 0 = 1) "varlen data should be processed with batch=1"
  let windowSize := keyStates.map fun k => windowFor slidingWindow (k.size 1)
  let outs ← ulyssesFlashAttnVarlenFunc flashAttnVarlenFunc (queryStates.map squeeze) (keyStates.map squeeze)
    (valueStates.map squeeze) params.cuSeqlens params.cuSeqlens params.maxSeqlen params.maxSeqlen true cpSize 2 windowSize
    softmaxScale dropout deterministic
  return outs.map unsqueeze

/-- The run of `n` ranks on the shards of the unsharded states, gathered. -/
def gathered [DecidableEq α] (flashFn : FlashFn α) (params : UlyssesParams) (n : Nat) (q k v : Tensor α) (dropout : α)
    (softmaxScale : Option α) (slidingWindow : Option Int) (deterministic : Option Bool) : Except String (Tensor α) :=
  (ulyssesFlashAttentionForward flashFn params n (shardsAt 1 n q) (shardsAt 1 n k) (shardsAt 1 n v) true dropout
    softmaxScale slidingWindow none deterministic).map (cat 1)

/-! ## The window a kernel is given -/

section
variable {n S H D r : Nat} {t : Tensor α}

theorem squeeze_eq {s : List Nat} (ht : t.shape = 1 :: s) : squeeze t = t.select 0 0 := by
  have hone : t.size 0 = 1 := by
    rw [size_of_shape ht]
    rfl
  rw [squeeze, if_pos hone]

theorem shape_squeeze {s : List Nat} (ht : t.shape = 1 :: s) : (squeeze t).shape = s := by
  rw [squeeze_eq ht, Tensor.select, shape_ofFn, ht]
  rfl

theorem get_squeeze {s idx : List Nat} (ht : t.shape = 1 :: s) (hi : Inside s idx) :
    (squeeze t).get idx = t.get (0 :: idx) := by
  rw [squeeze_eq ht]
  refine (get_ofFn ?_).trans ?_
  · rw [ht]
    exact hi
  · rfl

theorem get_unsqueeze {idx : List Nat} (hi : Inside t.shape idx) : (unsqueeze t).get (0 :: idx) = t.get idx := by
  have hout : Inside (1 :: t.shape) (0 :: idx) := ⟨Nat.one_pos, hi⟩
  refine get_reshape rfl hi hout ?_
  rw [ravel_cons, Nat.zero_mul, Nat.zero_add]

/-- **A rank's batch of one** is its rows. -/
theorem squeeze_piece (ht : t.shape = [1, n * S, H, D]) (hr : r < n) : squeeze (piece 1 n r t) = chunk n r (squeeze t) := by
  have hpiece := shape_heads ht hr
  have hwhole := shape_squeeze ht
  refine ext₃ (shape_squeeze hpiece) (shape_chunk hwhole hr) fun i hi j hj d hd => ?_
  have hrest : Inside [H, D] [j, d] := ⟨hj, hd, trivial⟩
  have hrow : Inside [S, H, D] [i, j, d] := ⟨hi, hrest⟩
  have hplace : Inside [n * S, H, D] [r * S + i, j, d] := ⟨place_lt hr hi, hrest⟩
  rw [get_squeeze hpiece hrow, get_piece ht hr Nat.one_pos hi hrest, get_chunk hwhole hr hi hrest,
    get_squeeze ht hplace]

/-- **The ranks' batches of one, gathered**, are the batch of one of their rows. -/
theorem cat_unsqueeze (hn : 0 < n) (ht : t.shape = [n * S, H, D]) :
    cat 1 ((shards n t).map unsqueeze) = unsqueeze t := by
  have hpiece : ∀ r < n, (unsqueeze (chunk n r t)).shape = [1, S, H, D] := fun r hr => by
    rw [unsqueeze, shape_reshape, shape_chunk ht hr]
  have hsize : ∀ r < n, (unsqueeze (chunk n r t)).size 1 = S := fun r hr => size_of_shape (hpiece r hr) 1
  have hmap : (shards n t).map unsqueeze = (List.range n).map fun r => unsqueeze (chunk n r t) := List.map_map
  have hshape : (cat 1 ((List.range n).map fun r => unsqueeze (chunk n r t))).shape = [1, n * S, H, D] := by
    rw [cat, shape_ofFn, sum_size hsize, head_range hn, hpiece 0 hn]
    rfl
  rw [hmap]
  refine ext_inside (hshape.trans ?_) fun idx hi => ?_
  · rw [unsqueeze, shape_reshape, ht]
  rw [hshape] at hi
  obtain ⟨b, x, j, d, rfl⟩ := List.length_eq_four.1 (inside_length hi)
  obtain ⟨hb, hx, hrest⟩ := hi
  obtain rfl : b = 0 := Nat.lt_one_iff.1 hb
  have hS : 0 < S := Nat.pos_of_mul_pos_left (Nat.zero_lt_of_lt hx)
  have hr : x / S < n := Nat.div_lt_of_lt_mul (Nat.mul_comm n S ▸ hx)
  have hs : x % S < S := Nat.mod_lt x hS
  have hin : Inside (cat 1 ((List.range n).map fun r => unsqueeze (chunk n r t))).shape [0, x, j, d] := by
    rw [hshape]
    exact ⟨Nat.one_pos, hx, hrest⟩
  have hrow : Inside (chunk n (x / S) t).shape [x % S, j, d] := by
    rw [shape_chunk ht hr]
    exact ⟨hs, hrest⟩
  have hplace : Inside t.shape [x, j, d] := ht ▸ ⟨hx, hrest⟩
  have hpick := catGet_range (fun r => unsqueeze (chunk n r t)) hsize hr hs [0, x, j, d]
  rw [Nat.div_add_mod'] at hpick
  have hget : (cat 1 ((List.range n).map fun r => unsqueeze (chunk n r t))).get [0, x, j, d] =
      catGet 1 ((List.range n).map fun r => unsqueeze (chunk n r t)) x [0, x, j, d] := by
    rw [cat, shape_ofFn] at hin
    rw [cat, get_ofFn hin]
    rfl
  rw [hget, hpick]
  show (unsqueeze (chunk n (x / S) t)).get [0, x % S, j, d] = _
  rw [get_unsqueeze hrow, get_unsqueeze hplace, get_chunk ht hr hs hrest, Nat.div_add_mod']

/-- The arguments the path passes for a window. -/
abbrev hfArgs [DecidableEq α] (params : UlyssesParams) (window : Int × Int) (scale : Option α) (dropout : α)
    (deterministic : Option Bool) : FlashArgs α :=
  flashArgs params.cuSeqlens params.cuSeqlens params.maxSeqlen params.maxSeqlen true 2 window scale dropout deterministic

/-- **What `n` ranks compute** is the kernel on the whole states, with the window for the keys of one rank. -/
theorem gathered_eq [DecidableEq α] {flashFn : FlashFn α} (params : UlyssesParams) {q k v : Tensor α} {h Dv : Nat}
    (dropout : α) (scale : Option α) (w : Option Int) (deterministic : Option Bool)
    (ha : Headwise fun q k v => (flashFn (hfArgs params (windowFor w S) scale dropout deterministic) q k v).first)
    (hn : 0 < n) (hf : Fits n H) (hH : H ∣ n * h) (hq : q.shape = [1, n * S, n * h, D])
    (hk : k.shape = [1, n * S, H, D]) (hv : v.shape = [1, n * S, H, Dv]) :
    gathered flashFn params n q k v dropout scale w deterministic =
      .ok (unsqueeze (flashFn (hfArgs params (windowFor w S) scale dropout deterministic) (squeeze q) (squeeze k)
        (squeeze v)).first) := by
  have hsqueeze : ∀ {t : Tensor α} {G E : Nat}, t.shape = [1, n * S, G, E] →
      (shardsAt 1 n t).map squeeze = shards n (squeeze t) := by
    intro t G E ht
    simp only [shards, shardsAt, List.map_map]
    exact List.map_congr_left fun r hr => squeeze_piece ht (List.mem_range.1 hr)
  have hbatch : ∀ p ∈ shardsAt 1 n q, p.size 0 = 1 := by
    intro p hp
    obtain ⟨r, hr, rfl⟩ := List.mem_map.1 hp
    exact size_of_shape (shape_heads hq (List.mem_range.1 hr)) 0
  have hwindow : (shardsAt 1 n k).map (fun k => windowFor w (k.size 1)) = List.replicate n (windowFor w S) := by
    rw [List.eq_replicate_iff]
    refine ⟨by simp, fun x hx => ?_⟩
    obtain ⟨p, hp, rfl⟩ := List.mem_map.1 hx
    obtain ⟨r, hr, rfl⟩ := List.mem_map.1 hp
    rw [size_of_shape (shape_heads hk (List.mem_range.1 hr))]
    rfl
  have hout := ha.shape (shape_squeeze hq) (shape_squeeze hk) (shape_squeeze hv) hH
  unfold gathered ulyssesFlashAttentionForward
  rw [raiseUnless_of _ rfl, ok_bind, raiseUnless_of _ rfl, ok_bind, raiseUnless_of _ hbatch, ok_bind, hwindow,
    hsqueeze hq, hsqueeze hk, hsqueeze hv]
  dsimp only
  rw [ulysses_shards flashFn _ _ _ _ true n 2 _ scale dropout deterministic hn hf hH (shape_squeeze hq)
    (shape_squeeze hk) (shape_squeeze hv) ha, ok_bind]
  exact congrArg Except.ok (cat_unsqueeze hn hout)

end

/-! ## Where the rank count shows -/

/-- The window decides nothing, or it is applied by every rank: a rank has more keys than the window is long, or no two
tokens of one document are further apart than it. -/
def WindowKept (cuSeqlens : List Nat) (slidingWindow : Option Int) (perRank total : Nat) : Prop :=
  ∀ w ∈ slidingWindow, w < perRank ∨
    ∀ i < total, ∀ j ≤ i, documentOf cuSeqlens j = documentOf cuSeqlens i → (i : Int) - j ≤ w

section
variable {cuSeqlens : List Nat} {length i j : Nat} {w : Int}

/-- A window that no visible key leaves changes nothing. -/
theorem attended_wide {window : Option (Int × Int)} (hwindow : ∀ v ∈ window, v = (w, w))
    (h : ∀ j ≤ i, documentOf cuSeqlens j = documentOf cuSeqlens i → (i : Int) - j ≤ w) :
    attended cuSeqlens true window length i = visibleKeys cuSeqlens true length i := by
  rw [attended, List.filter_eq_self]
  intro j hj
  obtain ⟨hdoc, hle⟩ := of_decide_eq_true (List.mem_filter.1 hj).2
  have hji := hle rfl
  have hnear := h j hji hdoc
  refine decide_eq_true fun v hv => ?_
  rw [hwindow v hv]
  dsimp only
  constructor <;> right <;> omega

/-- A window leaves out what is further back. -/
theorem not_mem_narrow (hw : 0 ≤ w) (hfar : w < (i : Int) - j) : j ∉ attended cuSeqlens true (some (w, w)) length i := by
  intro hj
  obtain ⟨-, -, hin⟩ := mem_attended.1 hj
  obtain ⟨hleft, -⟩ := hin (w, w) rfl
  dsimp only at hleft
  omega

end

section
variable {α : Type} [Field α] [DecidableEq α] {flashFn : FlashFn α} {weight : Weight α} {params : UlyssesParams}
  {scale : Option α} {deterministic : Option Bool}

theorem windowSize_hf (window : Int × Int) : (hfArgs params window scale 0 deterministic).windowSize =
    if window ≠ (-1, -1) then some window else none := rfl

theorem dropoutP_hf (window : Int × Int) : (hfArgs params window scale 0 deterministic).dropoutP = none := if_pos rfl

/-- The window passed for keys of some length is the given one, or none. -/
theorem windowSize_windowFor {w : Int} {m : Nat} {v : Int × Int}
    (hv : v ∈ (hfArgs params (windowFor (some w) m) scale 0 deterministic).windowSize) : v = (w, w) := by
  rw [windowSize_hf, windowFor] at hv
  by_cases hm : w < m
  · rw [if_pos hm] at hv
    split at hv
    · exact (Option.some.inj hv).symm
    · cases hv
  · rw [if_neg hm, if_neg (by decide)] at hv
    cases hv

variable [LinearOrder α] {T Hq Hkv D Dv : Nat} {q k v : Tensor α}

/-- What the kernel makes of the packed states. -/
theorem get_hf (ha : Attends flashFn weight) (hp : Packed params.cuSeqlens params.maxSeqlen T)
    (hq : q.shape = [T, Hq, D]) (hk : k.shape = [T, Hkv, D]) (hv : v.shape = [T, Hkv, Dv]) (hgqa : Hkv ∣ Hq)
    (window : Int × Int) {i j e : Nat} (hi : i < T) (hj : j < Hq) (he : e < Dv) :
    (flashFn (hfArgs params window scale 0 deterministic) q k v).first.get [i, j, e] =
      average (weight scale (rowOf q i j)) (keysOf k v (attended params.cuSeqlens true
        (hfArgs params window scale 0 deterministic).windowSize T i) (j / (Hq / Hkv)) e) :=
  ha.average _ params.cuSeqlens params.maxSeqlen T Hq Hkv D Dv q k v (dropoutP_hf window) rfl hp hq hk hv hgqa i hi j hj
    e he

/-- **The kernel answers alike where every query attends alike.** -/
theorem hf_congr (ha : Attends flashFn weight) (hp : Packed params.cuSeqlens params.maxSeqlen T)
    (hq : q.shape = [T, Hq, D]) (hk : k.shape = [T, Hkv, D]) (hv : v.shape = [T, Hkv, Dv]) (hgqa : Hkv ∣ Hq)
    {win win' : Int × Int} (h : ∀ i < T,
      attended params.cuSeqlens true (hfArgs params win scale 0 deterministic).windowSize T i =
        attended params.cuSeqlens true (hfArgs params win' scale 0 deterministic).windowSize T i) :
    (flashFn (hfArgs params win scale 0 deterministic) q k v).first =
      (flashFn (hfArgs params win' scale 0 deterministic) q k v).first := by
  have hshape (win : Int × Int) : (flashFn (hfArgs params win scale 0 deterministic) q k v).first.shape = [T, Hq, Dv] :=
    (ha.headwise _ (dropoutP_hf win)).shape hq hk hv hgqa
  refine ext₃ (hshape win) (hshape win') fun i hi j hj e he => ?_
  rw [get_hf ha hp hq hk hv hgqa win hi hj he, get_hf ha hp hq hk hv hgqa win' hi hj he, h i hi]

/-- **Two runs agree exactly where the kernel does**, with the window of each. -/
theorem gathered_eq_iff (ha : Attends flashFn weight) {n S h : Nat} (w : Option Int) (hn : 0 < n) (hf : Fits n Hkv)
    (hgqa : Hkv ∣ n * h) (hq : q.shape = [1, n * S, n * h, D]) (hk : k.shape = [1, n * S, Hkv, D])
    (hv : v.shape = [1, n * S, Hkv, Dv]) :
    gathered flashFn params n q k v 0 scale w deterministic = gathered flashFn params 1 q k v 0 scale w deterministic ↔
      unsqueeze (flashFn (hfArgs params (windowFor w S) scale 0 deterministic) (squeeze q) (squeeze k)
          (squeeze v)).first =
        unsqueeze (flashFn (hfArgs params (windowFor w (n * S)) scale 0 deterministic) (squeeze q) (squeeze k)
          (squeeze v)).first := by
  have hq1 : q.shape = [1, 1 * (n * S), 1 * (n * h), D] := by rw [hq, Nat.one_mul, Nat.one_mul]
  have hk1 : k.shape = [1, 1 * (n * S), Hkv, D] := by rw [hk, Nat.one_mul]
  have hv1 : v.shape = [1, 1 * (n * S), Hkv, Dv] := by rw [hv, Nat.one_mul]
  have hg1 : Hkv ∣ 1 * (n * h) := by rw [Nat.one_mul]; exact hgqa
  rw [gathered_eq params 0 scale w deterministic (ha.headwise _ (dropoutP_hf _)) hn hf hgqa hq hk hv,
    gathered_eq params 0 scale w deterministic (ha.headwise _ (dropoutP_hf _)) Nat.one_pos
      ⟨hf.1, Or.inl (Nat.one_dvd Hkv)⟩ hg1 hq1 hk1 hv1, Except.ok.injEq]

variable [IsStrictOrderedRing α]

/-- **A value above zero that only one of two windows reaches** shows in the query's output. -/
theorem hf_ne (ha : Attends flashFn weight) (hp : Packed params.cuSeqlens params.maxSeqlen T)
    (hq : q.shape = [T, Hq, D]) (hk : k.shape = [T, Hkv, D]) (hv : v.shape = [T, Hkv, Dv]) (hgqa : Hkv ∣ Hq)
    {win win' : Int × Int} {i j h e : Nat} (hi : i < T) (hh : h < Hq) (he : e < Dv)
    (hvalue : ∀ s < T, v.get [s, h / (Hq / Hkv), e] = if s = j then 1 else 0)
    (hin : j ∈ attended params.cuSeqlens true (hfArgs params win scale 0 deterministic).windowSize T i)
    (hout : j ∉ attended params.cuSeqlens true (hfArgs params win' scale 0 deterministic).windowSize T i) :
    (flashFn (hfArgs params win scale 0 deterministic) q k v).first.get [i, h, e] ≠
      (flashFn (hfArgs params win' scale 0 deterministic) q k v).first.get [i, h, e] := by
  rw [get_hf ha hp hq hk hv hgqa win hi hh he, get_hf ha hp hq hk hv hgqa win' hi hh he]
  have hpos : 0 < average (weight scale (rowOf q i h)) (keysOf k v (attended params.cuSeqlens true
      (hfArgs params win scale 0 deterministic).windowSize T i) (h / (Hq / Hkv)) e) := by
    refine average_pos (fun b => ha.positive _ _ _) (fun kv hkv => ?_) ⟨_, List.mem_map.2 ⟨j, hin, rfl⟩, ?_⟩
    · obtain ⟨s, hs, rfl⟩ := List.mem_map.1 hkv
      rw [hvalue s (mem_attended.1 hs).1]
      split
      · exact zero_le_one
      · exact le_rfl
    · rw [hvalue j (mem_attended.1 hin).1, if_pos rfl]
      exact one_pos
  have hzero : average (weight scale (rowOf q i h)) (keysOf k v (attended params.cuSeqlens true
      (hfArgs params win' scale 0 deterministic).windowSize T i) (h / (Hq / Hkv)) e) = 0 := by
    refine average_zero fun kv hkv => ?_
    obtain ⟨s, hs, rfl⟩ := List.mem_map.1 hkv
    have hne : s ≠ j := fun h => hout (h ▸ hs)
    rw [hvalue s (mem_attended.1 hs).1, if_neg hne]
  rw [hzero]
  exact hpos.ne'

/-- **Two runs differ where one window reaches a value that the other does not.** -/
theorem gathered_ne (ha : Attends flashFn weight) {n S h : Nat} (hp : Packed params.cuSeqlens params.maxSeqlen (n * S))
    (w : Option Int) (hn : 0 < n) (hf : Fits n Hkv) (hgqa : Hkv ∣ n * h) (hq : q.shape = [1, n * S, n * h, D])
    (hk : k.shape = [1, n * S, Hkv, D]) (hv : v.shape = [1, n * S, Hkv, Dv]) {i j a e : Nat} (hi : i < n * S)
    (hhead : a < n * h) (hkv : a / (n * h / Hkv) < Hkv) (he : e < Dv)
    (hvalue : ∀ s < n * S, v.get [0, s, a / (n * h / Hkv), e] = if s = j then 1 else 0)
    (hin : j ∈ attended params.cuSeqlens true (hfArgs params (windowFor w S) scale 0 deterministic).windowSize (n * S) i)
    (hout : j ∉ attended params.cuSeqlens true (hfArgs params (windowFor w (n * S)) scale 0 deterministic).windowSize
      (n * S) i) :
    gathered flashFn params n q k v 0 scale w deterministic ≠ gathered flashFn params 1 q k v 0 scale w deterministic := by
  intro hsame
  rw [gathered_eq_iff ha w hn hf hgqa hq hk hv] at hsame
  have hshape (win : Int × Int) : (flashFn (hfArgs params win scale 0 deterministic) (squeeze q) (squeeze k)
      (squeeze v)).first.shape = [n * S, n * h, Dv] :=
    (ha.headwise _ (dropoutP_hf win)).shape (shape_squeeze hq) (shape_squeeze hk) (shape_squeeze hv) hgqa
  have hplace : Inside [n * S, n * h, Dv] [i, a, e] := ⟨hi, hhead, he, trivial⟩
  have hvalues : ∀ s < n * S, (squeeze v).get [s, a / (n * h / Hkv), e] = if s = j then 1 else 0 := by
    intro s hs
    have hplace : Inside [n * S, Hkv, Dv] [s, a / (n * h / Hkv), e] := ⟨hs, hkv, he, trivial⟩
    rw [get_squeeze hv hplace, hvalue s hs]
  have hat := congrArg (fun t => Tensor.get t [0, i, a, e]) hsame
  beta_reduce at hat
  rw [get_unsqueeze (by rw [hshape]; exact hplace), get_unsqueeze (by rw [hshape]; exact hplace)] at hat
  exact hf_ne ha hp (shape_squeeze hq) (shape_squeeze hk) (shape_squeeze hv) hgqa hi hhead he hvalues hin hout hat

end

/-- **When the gathered output is independent of the rank count**: for all states exactly when the window is kept. -/
theorem gathered_independent_iff {α : Type} [Field α] [LinearOrder α] [IsStrictOrderedRing α] [DecidableEq α]
    (flashFn : FlashFn α) (weight : Weight α) (params : UlyssesParams) (n S Hq Hkv D Dv : Nat) (scale : Option α)
    (w : Option Int) (deterministic : Option Bool) (ha : Attends flashFn weight)
    (hp : Packed params.cuSeqlens params.maxSeqlen (n * S)) (hn : 0 < n) (hDv : 0 < Dv) (hHq : 0 < Hq) (hHkv : 0 < Hkv)
    (hcp : n ∣ Hq) (hgqa : Hkv ∣ Hq) (hfit : n ∣ Hkv ∨ Hkv ∣ n) :
    (∀ q k v : Tensor α, q.shape = [1, n * S, Hq, D] → k.shape = [1, n * S, Hkv, D] → v.shape = [1, n * S, Hkv, Dv] →
      gathered flashFn params n q k v 0 scale w deterministic =
        gathered flashFn params 1 q k v 0 scale w deterministic) ↔
    WindowKept params.cuSeqlens w S (n * S) := by
  obtain ⟨h, rfl⟩ := hcp
  constructor
  · -- a value on the key that the window leaves out is seen by the run that has dropped the window
    intro hall w' hw'
    by_contra hkept
    push Not at hkept
    obtain ⟨hge, i, hi, j, hj, hdoc, hfar⟩ := hkept
    obtain rfl : w = some w' := hw'
    let states : Nat → Nat → Tensor α := fun H E => ofFn [1, n * S, H, E] fun _ => 0
    let values : Tensor α := ofFn [1, n * S, Hkv, Dv] fun idx => if idx.getD 1 0 = j then 1 else 0
    have hS : windowFor (some w') S = (-1, -1) := if_neg (not_lt.2 hge)
    have hT : windowFor (some w') (n * S) = (w', w') := by
      refine if_pos ?_
      push_cast
      omega
    have hne : (w', w') ≠ ((-1, -1) : Int × Int) := by
      intro h
      have hneg : w' = -1 := congrArg Prod.fst h
      omega
    have hkv : 0 / (n * h / Hkv) < Hkv := by rw [Nat.zero_div]; exact hHkv
    refine gathered_ne (j := j) ha hp (some w') hn ⟨hHkv, hfit⟩ hgqa rfl rfl rfl hi hHq hkv hDv (fun s hs => ?_) ?_ ?_
      (hall (states (n * h) D) (states Hkv D) values rfl rfl rfl)
    · exact get_ofFn ⟨Nat.one_pos, hs, hkv, hDv, trivial⟩
    · rw [hS, windowSize_hf, if_neg (by decide)]
      exact mem_attended.2 ⟨by omega, ⟨hdoc, fun _ => hj⟩, fun v hv => by cases hv⟩
    · rw [hT, windowSize_hf, if_pos hne]
      exact not_mem_narrow (by omega) hfar
  · intro hkept q k v hq hk hv
    rw [gathered_eq_iff ha w hn ⟨hHkv, hfit⟩ hgqa hq hk hv]
    congr 1
    cases w with
    | none => rfl
    | some w' =>
      rcases hkept w' rfl with hlt | hnear
      · have hS : windowFor (some w') S = (w', w') := if_pos hlt
        have hT : windowFor (some w') (n * S) = (w', w') := by
          refine if_pos (lt_of_lt_of_le hlt ?_)
          exact_mod_cast Nat.le_mul_of_pos_left S hn
        rw [hS, hT]
      · refine hf_congr ha hp (shape_squeeze hq) (shape_squeeze hk) (shape_squeeze hv) hgqa fun i hi => ?_
        rw [attended_wide (fun v => windowSize_windowFor) (hnear i hi),
          attended_wide (fun v => windowSize_windowFor) (hnear i hi)]

/-! ### Four tokens on two ranks -/

namespace Sample

/-- One document of four tokens, two heads of one element: the queries are 3, 2, 1, 0 and the keys 1, 2, 3, 4. -/
noncomputable def queryStates : Tensor ℝ := ofFn [1, 4, 2, 1] fun idx => (3 - idx.getD 1 0 : ℕ)

noncomputable def keyStates : Tensor ℝ := ofFn [1, 4, 2, 1] fun idx => (1 + idx.getD 1 0 : ℕ)

/-- Only the first token has a value. -/
noncomputable def valueStates : Tensor ℝ := ofFn [1, 4, 2, 1] fun idx => if idx.getD 1 0 = 0 then 1 else 0

def params : UlyssesParams := ⟨[0, 4], 4⟩

theorem packed : Packed params.cuSeqlens params.maxSeqlen 4 :=
  ⟨rfl, by decide, rfl, by decide⟩

end Sample

/-- With a window of two, the last of four tokens does not attend to the first on one rank, and does on two. -/
theorem window_dropped_on_two_ranks :
    gathered softmaxFlash Sample.params 2 Sample.queryStates Sample.keyStates Sample.valueStates 0 none (some 2) none ≠
      gathered softmaxFlash Sample.params 1 Sample.queryStates Sample.keyStates Sample.valueStates 0 none (some 2)
        none := by
  refine gathered_ne (n := 2) (S := 2) (h := 1) (i := 3) (j := 0) (a := 0) (e := 0) attends_softmax Sample.packed (some 2)
    (by decide) ⟨by decide, by decide⟩ (by decide) rfl rfl rfl (by decide) (by decide) (by decide) (by decide)
    (fun s hs => get_ofFn ⟨Nat.one_pos, hs, by decide, by decide, trivial⟩) ?_ ?_
  · decide
  · decide

/-- A window of one is shorter than what each of two ranks holds: they agree with one. -/
theorem window_kept_on_two_ranks :
    gathered softmaxFlash Sample.params 2 Sample.queryStates Sample.keyStates Sample.valueStates 0 none (some 1) none =
      gathered softmaxFlash Sample.params 1 Sample.queryStates Sample.keyStates Sample.valueStates 0 none (some 1) none :=
  (gathered_independent_iff softmaxFlash softmaxWeight Sample.params 2 2 2 2 1 1 none (some 1) none attends_softmax
    Sample.packed (by decide) (by decide) (by decide) (by decide) (by decide) (by decide) (by decide)).2
    (fun w hw => Or.inl (by cases hw; decide)) _ _ _ rfl rfl rfl

end Ulysses
end Aether
