import AetherRl.FlashAttention
/-!
# UlyssesAttention — what the group computes is the attention of the whole sequence

Each rank attends with a group of query heads; with the KV heads it received, every one of them meets the KV head it has
in the whole tensors.
-/
namespace Aether
namespace Ulysses

open Checked Tensor Shape

variable {α : Type} [Zero α]

/-! ## KV heads for every rank -/

section
variable {S H D j : Nat} {t u : Tensor α}

variable {c n : Nat}

theorem shape_repeat (ht : t.shape = [S, H, D]) : (t.repeatInterleave 1 c).shape = [S, H * c, D] := by
  rw [repeatInterleave, shape_ofFn, size_of_shape ht, ht]
  rfl

theorem get_repeat (ht : t.shape = [S, H, D]) {i d : Nat} (hi : i < S) (hj : j < H * c) (hd : d < D) :
    (t.repeatInterleave 1 c).get [i, j, d] = t.get [i, j / c, d] := by
  refine get_ofFn ?_
  rw [size_of_shape ht, ht]
  exact ⟨hi, hj, hd, trivial⟩

theorem select_repeat (ht : t.shape = [S, H, D]) (hj : j < H * c) :
    (t.repeatInterleave 1 c).select 1 j = t.select 1 (j / c) := by
  refine ext₂ (shape_select (shape_repeat ht)) (shape_select ht) fun i hi d hd => ?_
  rw [get_select (shape_repeat ht), get_repeat ht hi hj hd, get_select ht]

theorem chunk_repeat {r : Nat} (ht : t.shape = [n * S, H, D]) (hr : r < n) :
    (chunk n r t).repeatInterleave 1 c = chunk n r (t.repeatInterleave 1 c) := by
  have hrow := shape_chunk ht hr
  have hrep := shape_repeat ht (c := c)
  refine ext₃ (shape_repeat hrow) (shape_chunk hrep hr) fun i hi j hj d hd => ?_
  have hin : Inside [H * c, D] [j, d] := ⟨hj, hd, trivial⟩
  have hdiv : Inside [H, D] [j / c, d] := ⟨Nat.div_lt_of_lt_mul (Nat.mul_comm H c ▸ hj), hd, trivial⟩
  rw [get_repeat hrow hi hj hd, get_chunk ht hr hi hdiv, get_chunk hrep hr hi hin, get_repeat ht (place_lt hr hi) hj hd]

/-- K or V of the whole sequence with at least one head for each rank. -/
def spread (n H : Nat) (t : Tensor α) : Tensor α := if H < n then t.repeatInterleave 1 (n / H) else t

/-- The KV heads there are after that. -/
def spreadHeads (n H : Nat) : Nat := if H < n then n else H

/-- Ranks and KV heads the exchange accepts. -/
def Fits (n H : Nat) : Prop := 0 < H ∧ (n ∣ H ∨ H ∣ n)

theorem Fits.heads_dvd {H : Nat} (hf : Fits n H) (h : H < n) : H ∣ n := by
  rcases hf.2 with hd | hd
  · exact absurd (Nat.le_of_dvd hf.1 hd) (Nat.not_le.2 h)
  · exact hd

theorem Fits.dvd_heads {H : Nat} (hf : Fits n H) (hn : 0 < n) (h : ¬ H < n) : n ∣ H := by
  rcases hf.2 with hd | hd
  · exact hd
  · rw [Nat.le_antisymm (Nat.le_of_dvd hn hd) (Nat.not_lt.1 h)]

theorem Fits.dvd_spreadHeads {H : Nat} (hf : Fits n H) (hn : 0 < n) : n ∣ spreadHeads n H := by
  unfold spreadHeads
  by_cases hlt : H < n
  · rw [if_pos hlt]
  · rw [if_neg hlt]
    exact hf.dvd_heads hn hlt

theorem shape_spread {H : Nat} (hf : Fits n H) (ht : t.shape = [S, H, D]) :
    (spread n H t).shape = [S, spreadHeads n H, D] := by
  unfold spread spreadHeads
  by_cases h : H < n
  · rw [if_pos h, if_pos h, shape_repeat ht, Nat.mul_div_cancel' (hf.heads_dvd h)]
  · rw [if_neg h, if_neg h, ht]

/-- **What the ranks send of K and V** are the rows of the spread tensor. -/
theorem enoughHeads_shards {H Dk : Nat} {k : Tensor α} (hf : Fits n H) (hk : k.shape = [n * S, H, Dk])
    (ht : t.shape = [n * S, H, D]) {r : Nat} (hr : r < n) :
    enoughHeads n (chunk n r k) (chunk n r t) = .ok (chunk n r (spread n H t)) := by
  have hsize : (chunk n r k).size 1 = H := size_of_shape (shape_chunk hk hr) 1
  have hsize' : (chunk n r t).size 1 = H := size_of_shape (shape_chunk ht hr) 1
  unfold enoughHeads spread
  rw [hsize]
  by_cases h : H < n
  · rw [if_pos h, if_pos h, ← chunk_repeat ht hr]
    unfold replicateKvHeads
    dsimp only
    rw [hsize', raiseUnless_of _ (Nat.mod_eq_zero_of_dvd (hf.heads_dvd h))]
    rfl
  · rw [if_neg h, if_neg h]

/-- **Every query head meets its own KV head**: KV head `j / (hq / kv)` of rank `r` is the one query head `r * hq + j`
has in the whole tensor. -/
theorem select_spread {h H : Nat} (hn : 0 < n) (hf : Fits n H) (hH : H ∣ n * h) (ht : t.shape = [S, H, D]) {r : Nat}
    (hr : r < n) (hj : j < h) :
    (heads n r (spread n H t)).select 1 (j / (h / (spreadHeads n H / n))) = t.select 1 ((r * h + j) / (n * h / H)) := by
  have hh : 0 < h := Nat.zero_lt_of_lt hj
  by_cases hlt : H < n
  · -- each rank has one KV head, its replica
    obtain ⟨c, rfl⟩ := hf.heads_dvd hlt
    have hspread : spread (H * c) H t = t.repeatInterleave 1 c := by
      rw [spread, if_pos hlt, Nat.mul_div_cancel_left c hf.1]
    have hone : spreadHeads (H * c) H / (H * c) = 1 := by rw [spreadHeads, if_pos hlt, Nat.div_self hn]
    have hshape : (t.repeatInterleave 1 c).shape = [S, H * c * 1, D] := by rw [Nat.mul_one, shape_repeat ht]
    have hwhole : H * c * h / H = c * h := by rw [Nat.mul_assoc, Nat.mul_div_cancel_left _ hf.1]
    have hquery : (r * h + j) / (c * h) = r / c := by
      rw [Nat.mul_comm c h, ← Nat.div_div_eq_div_mul, Nat.mul_comm r h, Nat.mul_add_div hh, Nat.div_eq_of_lt hj,
        Nat.add_zero]
    rw [hspread, hone, hwhole, hquery, Nat.div_one, Nat.div_eq_of_lt hj, select_heads hshape hr Nat.one_pos, Nat.mul_one,
      Nat.add_zero, select_repeat ht hr]
  · -- each rank has `m` whole KV heads of `g` query heads each
    obtain ⟨m, rfl⟩ := hf.dvd_heads hn hlt
    obtain ⟨g, rfl⟩ := Nat.dvd_of_mul_dvd_mul_left hn hH
    have hm : 0 < m := Nat.pos_of_mul_pos_left hf.1
    have hg : 0 < g := Nat.pos_of_mul_pos_left hh
    have hspread : spread n (n * m) t = t := by rw [spread, if_neg hlt]
    have hkv : spreadHeads n (n * m) / n = m := by rw [spreadHeads, if_neg hlt, Nat.mul_div_cancel_left m hn]
    have hlocal : m * g / m = g := Nat.mul_div_cancel_left g hm
    have hwhole : n * (m * g) / (n * m) = g := by
      rw [← Nat.mul_assoc, Nat.mul_div_cancel_left g (Nat.mul_pos hn hm)]
    have hdiv : j / g < m := Nat.div_lt_of_lt_mul (Nat.mul_comm m g ▸ hj)
    have hquery : (r * (m * g) + j) / g = r * m + j / g := by
      rw [← Nat.mul_assoc, Nat.mul_comm (r * m) g, Nat.mul_add_div hg]
    rw [hspread, hkv, hlocal, hwhole, hquery, select_heads ht hr hdiv]

/-- **A rank's attention is its heads of the whole attention.** -/
theorem attend_heads {attend : Tensor α → Tensor α → Tensor α → Tensor α} (ha : Headwise attend) {h H T Dv r : Nat}
    {q k v : Tensor α} (hn : 0 < n) (hf : Fits n H) (hH : H ∣ n * h) (hq : q.shape = [T, n * h, D])
    (hk : k.shape = [S, H, D]) (hv : v.shape = [S, H, Dv]) (hr : r < n) :
    attend (heads n r q) (heads n r (spread n H k)) (heads n r (spread n H v)) = heads n r (attend q k v) := by
  obtain ⟨head, ha⟩ := ha
  obtain ⟨m, hm⟩ := hf.dvd_spreadHeads hn
  have hmh : m ∣ h := by
    by_cases hlt : H < n
    · rw [spreadHeads, if_pos hlt] at hm
      have hone : m = 1 := Nat.eq_of_mul_eq_mul_left hn (by rw [← hm, Nat.mul_one])
      exact hone ▸ Nat.one_dvd h
    · rw [spreadHeads, if_neg hlt] at hm
      exact Nat.dvd_of_mul_dvd_mul_left hn (hm ▸ hH)
  have hks := shape_spread hf hk
  have hvs := shape_spread hf hv
  rw [hm] at hks hvs
  obtain ⟨hshape, hwhole⟩ := ha q k v _ _ _ _ _ _ hq hk hv hH
  obtain ⟨hlocalShape, hlocal⟩ := ha _ _ _ _ _ _ _ _ _ (shape_heads hq hr) (shape_heads hks hr) (shape_heads hvs hr) hmh
  have hgroup : m = spreadHeads n H / n := by rw [hm, Nat.mul_div_cancel_left m hn]
  refine ext_heads hlocalShape (shape_heads hshape hr) fun j hj => ?_
  rw [hlocal j hj, select_heads hshape hr hj, hwhole _ (place_lt hr hj), select_heads hq hr hj, hgroup,
    select_spread hn hf hH hk hr hj, select_spread hn hf hH hv hr hj]

end

/-! ## The whole group -/

/-- **The ranks together** compute the shards of what the kernel computes on the whole tensors. -/
theorem ulysses_shards [DecidableEq α] (flashFn : FlashFn α) (cuSeqlensQ cuSeqlensK : List Nat)
    (maxSeqlenQ maxSeqlenK : Nat) (causal : Bool) (n version : Nat) (window : Int × Int) (scale : Option α) (dropoutP : α)
    (deterministic : Option Bool) {q k v : Tensor α} {S h H D Dv : Nat} (hn : 0 < n) (hf : Fits n H) (hH : H ∣ n * h)
    (hq : q.shape = [n * S, n * h, D]) (hk : k.shape = [n * S, H, D]) (hv : v.shape = [n * S, H, Dv])
    (ha : Headwise fun q k v => (flashFn (flashArgs cuSeqlensQ cuSeqlensK maxSeqlenQ maxSeqlenK causal version window scale
      dropoutP deterministic) q k v).first) :
    ulyssesFlashAttnVarlenFunc flashFn (shards n q) (shards n k) (shards n v) cuSeqlensQ cuSeqlensK maxSeqlenQ maxSeqlenK
      causal n version (List.replicate n window) scale dropoutP deterministic =
    .ok (shards n (flashFn (flashArgs cuSeqlensQ cuSeqlensK maxSeqlenQ maxSeqlenK causal version window scale dropoutP
      deterministic) q k v).first) := by
  have hkv : (shards n k).mapM (fun k => enoughHeads n k k) = .ok (shards n (spread n H k)) := by
    simp only [shards, shardsAt]
    rw [List.mapM_map, mapM_of_forall]
    intro r hr
    exact enoughHeads_shards hf hk hk (List.mem_range.1 hr)
  have hvv : ((shards n k).zip (shards n v)).mapM (fun kv => enoughHeads n kv.1 kv.2) =
      .ok (shards n (spread n H v)) := by
    simp only [shards, shardsAt]
    rw [List.zip_map', List.mapM_map, mapM_of_forall]
    intro r hr
    exact enoughHeads_shards hf hk hv (List.mem_range.1 hr)
  obtain ⟨m, hm⟩ : n ∣ spreadHeads n H := hf.dvd_spreadHeads hn
  have hks := shape_spread hf hk
  have hvs := shape_spread hf hv
  rw [hm] at hks hvs
  unfold ulyssesFlashAttnVarlenFunc
  rw [allToAllSeqToHead_shards hn hq, ok_bind, hkv, ok_bind, hvv, ok_bind, allToAllSeqToHead_shards hn hks, ok_bind,
    allToAllSeqToHead_shards hn hvs, ok_bind]
  have hwin : List.replicate n window = (List.range n).map fun _ => window := by simp
  rw [hwin, List.zip_map', List.zip_map', List.zipWith_map, List.zipWith_self]
  rw [← allToAllHeadToSeq_heads hn (ha.shape hq hk hv hH)]
  refine congrArg (allToAllHeadToSeq n) (List.map_congr_left fun r hr => ?_)
  exact attend_heads ha hn hf hH hq hk hv (List.mem_range.1 hr)

/-- **Back and forth is the identity on every rank.** -/
theorem allToAll_roundtrip {n S H D : Nat} (hn : 0 < n) {ts : List (Tensor α)} (hlen : ts.length = n)
    (hts : ∀ t ∈ ts, t.shape = [S, H, D]) (hH : n ∣ H) :
    (allToAllSeqToHead n ts >>= allToAllHeadToSeq n) = .ok ts := by
  obtain ⟨h, rfl⟩ := hH
  have hrange : ts = (List.range n).map fun r => ts.getD r empty := by
    refine List.ext_getElem (by simp [hlen]) fun i hi _ => ?_
    simp [List.getD_eq_getElem?_getD, List.getElem?_eq_getElem hi]
  have hf : ∀ r < n, (ts.getD r empty).shape = [S, n * h, D] := by
    intro r hr
    rw [List.getD_eq_getElem?_getD, List.getElem?_eq_getElem (hlen ▸ hr)]
    exact hts _ (List.getElem_mem _)
  have hshards := shards_cat hf
  rw [← hrange] at hshards
  have hshape := shape_cat hn hf
  rw [← hrange] at hshape
  rw [← hshards, allToAllSeqToHead_shards hn hshape, ok_bind, allToAllHeadToSeq_heads hn hshape]

/-- **Ulysses attention equals unsharded attention**: the ranks' outputs on the shards of `q`, `k` and `v`, one after the
other, are what the kernel computes on the whole tensors; and the two exchanges undo each other on every rank. -/
theorem ulysses_eq_unsharded [DecidableEq α] (flashFn : FlashFn α) (cuSeqlensQ cuSeqlensK : List Nat)
    (maxSeqlenQ maxSeqlenK : Nat) (causal : Bool) (cpSize version : Nat) (window : Int × Int) (scale : Option α)
    (dropoutP : α) (deterministic : Option Bool) (q k v : Tensor α) (S Hq Hkv D Dv : Nat) (hcp : 0 < cpSize)
    (hq : q.shape = [cpSize * S, Hq, D]) (hk : k.shape = [cpSize * S, Hkv, D]) (hv : v.shape = [cpSize * S, Hkv, Dv])
    (hHq : cpSize ∣ Hq) (hgqa : Hkv ∣ Hq) (hHkv : 0 < Hkv) (hfit : cpSize ∣ Hkv ∨ Hkv ∣ cpSize)
    (ha : ∀ args, Headwise fun q k v => (flashFn args q k v).first) :
    (∃ outs, ulyssesFlashAttnVarlenFunc flashFn (shards cpSize q) (shards cpSize k) (shards cpSize v) cuSeqlensQ
        cuSeqlensK maxSeqlenQ maxSeqlenK causal cpSize version (List.replicate cpSize window) scale dropoutP
        deterministic = .ok outs ∧
      cat 0 outs = (flashFn (flashArgs cuSeqlensQ cuSeqlensK maxSeqlenQ maxSeqlenK causal version window scale dropoutP
        deterministic) q k v).first) ∧
    (∀ (ts : List (Tensor α)) (T H E : Nat), ts.length = cpSize → (∀ t ∈ ts, t.shape = [T, H, E]) → cpSize ∣ H →
      (allToAllSeqToHead cpSize ts >>= allToAllHeadToSeq cpSize) = .ok ts) := by
  obtain ⟨h, rfl⟩ := hHq
  refine ⟨⟨_, ulysses_shards flashFn cuSeqlensQ cuSeqlensK maxSeqlenQ maxSeqlenK causal cpSize version window scale
    dropoutP deterministic hcp ⟨hHkv, hfit⟩ hgqa hq hk hv (ha _), ?_⟩, ?_⟩
  · exact cat_shards hcp ((ha _).shape hq hk hv hgqa)
  · intro ts T H E hlen hts hH
    exact allToAll_roundtrip hcp hlen hts hH

namespace Sample

/-- Four query heads and one KV head over four tokens. -/
noncomputable def queries : Tensor ℝ := ofFn [4, 4, 1] fun idx => (ravel [4, 4, 1] idx : ℕ)

noncomputable def keys : Tensor ℝ := ofFn [4, 1, 1] fun idx => (4 - idx.getD 0 0 : ℕ)

noncomputable def values : Tensor ℝ := ofFn [4, 1, 1] fun idx => (2 ^ idx.getD 0 0 : ℕ)

end Sample

theorem ulysses_two_ranks : ∃ outs, ulyssesFlashAttnVarlenFunc softmaxFlash (shards 2 Sample.queries)
    (shards 2 Sample.keys) (shards 2 Sample.values) [0, 1, 4] [0, 1, 4] 3 3 true 2 2 (List.replicate 2 (1, 0)) none 0
      none = .ok outs ∧
    cat 0 outs = (softmaxFlash (flashArgs [0, 1, 4] [0, 1, 4] 3 3 true 2 (1, 0) none 0 none) Sample.queries Sample.keys
      Sample.values).first :=
  (ulysses_eq_unsharded softmaxFlash [0, 1, 4] [0, 1, 4] 3 3 true 2 2 (1, 0) none 0 none Sample.queries Sample.keys
    Sample.values 2 4 1 1 1 (by decide) rfl rfl rfl (by decide) (by decide) (by decide) (by decide)
    (averagingFlash_headwise softmaxWeight)).1

end Ulysses
end Aether
