import AetherRl.BatchLora
import AetherRl.LossLogprobs
import Mathlib.Algebra.BigOperators.Ring.Finset
/-!
# BatchLoraRank — LoRA token counts of a context-parallel rank

A rank of `trainer/rl/train.py` clips the cumulative LoRA counts to its chunk of the micro-batch and differences them.
The counts are kept in 32 bits: up to their range, the rank's counts are those of its own tokens.
-/
namespace Aether
namespace Batch

open Checked

/-! ## The rank's counts -/

/-- A value of an `int32` tensor. -/
def int32 (x : Int) : Int := x.bmod (2 ^ 32)

/-- `torch.clip(x, min=lo, max=hi)`. -/
def clip (lo hi x : Int) : Int := min (max x lo) hi

/-- `torch.diff(xs, prepend=[0])`. -/
def diffPrepend (xs : List Int) : List Int := List.zipWith (fun a b => int32 (a - b)) xs (0 :: xs)

/-- `lora_num_tokens` of a rank whose labels are a chunk of `chunkSize` tokens. -/
def rankLoraNumTokens (loraNumTokens : List Nat) (chunkSize cpRank : Nat) : List Int :=
  let cuOffsets := (cumsum loraNumTokens).map fun c : Nat => int32 c
  let adjustedCu := cuOffsets.map fun c => clip 0 chunkSize (int32 (c - chunkSize * cpRank))
  diffPrepend adjustedCu

/-- The adapter of each token, as the LoRA layers read it off the counts. -/
def tokenAdapters {α : Type} (loraNumTokens : List Nat) (x : List α) : List Nat :=
  runLoraForLoop (fun i _ => i) x (cumsum loraNumTokens)

/-! ## Without wrapping -/

theorem int32_of {x : Int} (hlo : -2 ^ 31 ≤ x) (hhi : x < 2 ^ 31) : int32 x = x :=
  Int.bmod_eq_of_le_mul_two (by omega) (by omega)

/-- The part below `k + m` of what lies above `k`, of a prefix of `s` tokens. -/
def within (k m s : Nat) : Nat := min (s - k) m

/-- The counts between `k` and `k + m`, for adapters behind the first `s` tokens. -/
def countsWithin (k m : Nat) : Nat → List Nat → List Nat
  | _, [] => []
  | s, n :: counts => (within k m (s + n) - within k m s) :: countsWithin k m (s + n) counts

theorem length_countsWithin (k m : Nat) : ∀ (counts : List Nat) (s : Nat),
    (countsWithin k m s counts).length = counts.length
  | [], _ => rfl
  | n :: counts, s => congrArg (· + 1) (length_countsWithin k m counts (s + n))

theorem within_mono (k m : Nat) {s s' : Nat} (h : s ≤ s') : within k m s ≤ within k m s' := by
  unfold within
  omega

/-- **The counts add up** to the part of all tokens inside. -/
theorem sum_countsWithin (k m : Nat) : ∀ (counts : List Nat) (s : Nat),
    within k m s + (countsWithin k m s counts).sum = within k m (s + counts.sum)
  | [], _ => rfl
  | n :: counts, s => by
    have ih := sum_countsWithin k m counts (s + n)
    have hmono := within_mono k m (Nat.le_add_right s n)
    rw [countsWithin, List.sum_cons, List.sum_cons, ← Nat.add_assoc s n, ← ih]
    omega

/-- Each adapter as often as it counts, the adapters numbered from `i`. -/
def spread : Nat → List Nat → List Nat
  | _, [] => []
  | i, n :: counts => List.replicate n i ++ spread (i + 1) counts

theorem spread_eq : ∀ (counts : List Nat) (i : Nat),
    spread i counts = (List.range counts.length).flatMap fun j => List.replicate (counts.getD j 0) (i + j)
  | [], _ => rfl
  | n :: counts, i => by
    rw [spread, List.length_cons, List.range_succ_eq_map, List.flatMap_cons, List.flatMap_map, spread_eq counts (i + 1)]
    refine congrArg (List.replicate n i ++ ·) (List.flatMap_congr fun j _ => ?_)
    rw [List.getD_cons_succ, Nat.add_right_comm]
    rfl

theorem length_spread : ∀ (counts : List Nat) (i : Nat), (spread i counts).length = counts.sum
  | [], _ => rfl
  | n :: counts, i => by
    rw [spread, List.length_append, List.length_replicate, List.sum_cons, length_spread counts (i + 1)]

/-- **A window of the tokens** has of each adapter what its counts have inside the window. -/
theorem spread_window (k m : Nat) : ∀ (counts : List Nat) (s i : Nat),
    ((spread i counts).drop (k - s)).take (m - within k m s) = spread i (countsWithin k m s counts)
  | [], _, _ => by simp [spread, countsWithin]
  | n :: counts, s, i => by
    have ih := spread_window k m counts (s + n) (i + 1)
    have hrest : k - (s + n) = k - s - n := by omega
    have hroom : m - within k m (s + n) = m - within k m s - (n - (k - s)) := by
      unfold within
      omega
    have hcount : within k m (s + n) - within k m s = min (m - within k m s) (n - (k - s)) := by
      unfold within
      omega
    rw [spread, countsWithin, spread, ← ih, List.drop_append, List.length_replicate, List.drop_replicate, List.take_append,
      List.length_replicate, List.take_replicate, hrest, hroom, hcount]

/-! ## The rank's counts are those of its tokens -/

theorem cumsum_cons (n : Nat) (counts : List Nat) : cumsum (n :: counts) = n :: (cumsum counts).map (n + ·) := by
  rw [cumsum, cumsum, List.length_cons, List.range_succ_eq_map, List.map_cons, List.map_map, List.map_map]
  refine congrArg₂ List.cons ?_ (List.map_congr_left fun i _ => ?_)
  · rw [List.take_succ_cons, List.take_zero, List.sum_singleton]
  · exact List.sum_cons

theorem mem_cumsum_le {counts : List Nat} {c : Nat} (h : c ∈ cumsum counts) : c ≤ counts.sum := by
  obtain ⟨i, -, rfl⟩ := List.mem_map.1 h
  exact sum_take_le counts (i + 1)

/-- Differences of the clipped cumulative sum, behind the first `s` tokens. -/
theorem diff_within {k m : Nat} (hm : m < 2 ^ 31) : ∀ (counts : List Nat) (s : Nat),
    List.zipWith (fun a b => int32 (a - b)) ((cumsum counts).map fun c : Nat => (within k m (s + c) : Int))
      (within k m s :: (cumsum counts).map fun c : Nat => (within k m (s + c) : Int)) =
      (countsWithin k m s counts).map fun n : Nat => (n : Int)
  | [], _ => rfl
  | n :: counts, s => by
    have ih := diff_within (k := k) hm counts (s + n)
    have hmono := within_mono k m (Nat.le_add_right s n)
    have hle : within k m (s + n) ≤ m := min_le_right _ _
    have hshift : ((cumsum counts).map (n + ·)).map (fun c : Nat => (within k m (s + c) : Int)) =
        (cumsum counts).map fun c : Nat => (within k m (s + n + c) : Int) := by
      rw [List.map_map]
      exact List.map_congr_left fun c _ => by rw [Function.comp_apply, Nat.add_assoc]
    rw [cumsum_cons, List.map_cons, hshift, List.zipWith_cons_cons, ih, countsWithin, List.map_cons,
      int32_of (by omega) (by omega), Nat.cast_sub hmono]

theorem rankLoraNumTokens_eq {counts : List Nat} {chunkSize cpRank : Nat} (hchunk : chunkSize < 2 ^ 31)
    (hstart : chunkSize * cpRank < 2 ^ 31) (hsum : counts.sum < 2 ^ 31) :
    rankLoraNumTokens counts chunkSize cpRank =
      (countsWithin (chunkSize * cpRank) chunkSize 0 counts).map fun n : Nat => (n : Int) := by
  have hadjusted : ((cumsum counts).map fun c : Nat => int32 (c : Int)).map
      (fun c => clip 0 chunkSize (int32 (c - chunkSize * cpRank))) =
      (cumsum counts).map fun c : Nat => (within (chunkSize * cpRank) chunkSize (0 + c) : Int) := by
    rw [List.map_map]
    refine List.map_congr_left fun c hc => ?_
    have hle : c < 2 ^ 31 := Nat.lt_of_le_of_lt (mem_cumsum_le hc) hsum
    have hcast : (chunkSize : Int) * cpRank = ((chunkSize * cpRank : Nat) : Int) := (Nat.cast_mul _ _).symm
    have hc : int32 (c : Int) = c := int32_of (by omega) (by omega)
    rw [Function.comp_apply, hc, hcast, int32_of (by omega) (by omega), clip, within]
    omega
  have hzero : within (chunkSize * cpRank) chunkSize 0 = 0 := by
    unfold within
    omega
  rw [← diff_within hchunk counts 0, hzero, rankLoraNumTokens, diffPrepend]
  rw [hadjusted]
  rfl

theorem tokenAdapters_eq {α : Type} {counts : List Nat} {x : List α} (hsum : counts.sum = x.length) :
    tokenAdapters counts x = spread 0 counts := by
  rw [tokenAdapters, adapters_eq hsum, spread_eq]
  simp only [Nat.zero_add]

/-- **A rank's LoRA counts are those of its tokens**: none is negative, they add up to its chunk, and the adapters they
give its tokens are the chunk of the micro-batch's. -/
theorem rank_lora_counts {α : Type} (counts : List Nat) (labels : List α) (cp rank : Nat)
    (hsum : counts.sum = labels.length) (hdiv : labels.length % cp = 0) (hrank : rank < cp)
    (hlen : labels.length < 2 ^ 31) :
    (∀ n ∈ rankLoraNumTokens counts (Loss.chunk cp rank labels).length rank, 0 ≤ n) ∧
    (rankLoraNumTokens counts (Loss.chunk cp rank labels).length rank).length = counts.length ∧
    (rankLoraNumTokens counts (Loss.chunk cp rank labels).length rank).sum = (Loss.chunk cp rank labels).length ∧
    tokenAdapters ((rankLoraNumTokens counts (Loss.chunk cp rank labels).length rank).map Int.toNat)
      (Loss.chunk cp rank labels) = Loss.chunk cp rank (tokenAdapters counts labels) := by
  have hchunk : (Loss.chunk cp rank labels).length = labels.length / cp := Loss.chunk_length hdiv hrank
  have htotal : labels.length = labels.length / cp * cp := (Nat.div_mul_cancel (Nat.dvd_of_mod_eq_zero hdiv)).symm
  obtain ⟨m, hm⟩ : ∃ m, labels.length / cp = m := ⟨_, rfl⟩
  rw [hm] at hchunk htotal
  have hfits : m * (rank + 1) ≤ labels.length := htotal ▸ Nat.mul_le_mul_left m hrank
  rw [Nat.mul_succ] at hfits
  have heq : rankLoraNumTokens counts m rank = (countsWithin (m * rank) m 0 counts).map fun n : Nat => (n : Int) :=
    rankLoraNumTokens_eq (by omega) (by omega) (by omega)
  have hzero : within (m * rank) m 0 = 0 := by
    unfold within
    omega
  have hnat : (countsWithin (m * rank) m 0 counts).sum = m := by
    have hfull : within (m * rank) m (0 + counts.sum) = m := by
      unfold within
      omega
    have := sum_countsWithin (m * rank) m counts 0
    rw [hzero, hfull, Nat.zero_add] at this
    exact this
  have hback : ((countsWithin (m * rank) m 0 counts).map fun n : Nat => (n : Int)).map Int.toNat =
      countsWithin (m * rank) m 0 counts := by
    rw [List.map_map]
    exact (List.map_congr_left fun n _ => Int.toNat_natCast n).trans (List.map_id _)
  rw [hchunk, heq]
  refine ⟨fun n hn => ?_, ?_, ?_, ?_⟩
  · obtain ⟨c, -, rfl⟩ := List.mem_map.1 hn
    exact Int.natCast_nonneg c
  · rw [List.length_map, length_countsWithin]
  · rw [← Nat.cast_list_sum, hnat]
  · rw [hback, tokenAdapters_eq (hnat.trans hchunk.symm), tokenAdapters_eq hsum, ← spread_window, hzero, Nat.sub_zero,
      Nat.sub_zero, Loss.chunk, length_spread,
      hsum, hm, Nat.mul_comm]

/-- Three tokens of adapter 0 and three of adapter 2, over two ranks. -/
theorem rank_lora_counts_two :
    tokenAdapters ((rankLoraNumTokens [3, 0, 3] (Loss.chunk 2 1 [1, 2, 3, 4, 5, 6]).length 1).map Int.toNat)
      (Loss.chunk 2 1 [1, 2, 3, 4, 5, 6]) = Loss.chunk 2 1 (tokenAdapters [3, 0, 3] [1, 2, 3, 4, 5, 6]) :=
  (rank_lora_counts [3, 0, 3] [1, 2, 3, 4, 5, 6] 2 1 rfl rfl (by decide) (by decide)).2.2.2

/-- As many tokens as 32 bits do not count: the cumulative sum turns negative, and a count of rank zero with it. -/
theorem rank_lora_counts_wrap : ∃ (counts : List Nat) (labels : List Int), counts.sum = labels.length ∧
    labels.length % 2 = 0 ∧ ∃ n ∈ rankLoraNumTokens counts (Loss.chunk 2 0 labels).length 0, n < 0 := by
  have hany : ∀ labels : List Int, labels.length = 2147483648 → [2147483647, 1].sum = labels.length ∧
      labels.length % 2 = 0 ∧ ∃ n ∈ rankLoraNumTokens [2147483647, 1] (Loss.chunk 2 0 labels).length 0, n < 0 := by
    intro labels hlen
    have hmod : labels.length % 2 = 0 := by rw [hlen]
    have hneg : -1073741824 ∈ rankLoraNumTokens [2147483647, 1] 1073741824 0 := by decide
    refine ⟨hlen.symm, hmod, -1073741824, ?_, by decide⟩
    rw [Loss.chunk_length hmod (by decide), hlen]
    exact hneg
  exact ⟨_, _, hany (List.replicate 2147483648 0) List.length_replicate⟩

end Batch
end Aether
