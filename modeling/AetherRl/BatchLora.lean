import AetherRl.BatchBounds
import Mathlib.Data.List.Pairwise
/-!
# BatchLora — which LoRA a token of a micro-batch goes to

The multi-LoRA layers read a micro-batch's LoRAs off the cumulative sum of `lora_num_tokens`, so they are right only if
the tokens stand in ascending order of their LoRAs.  First fit leaves every bin so; a split sorts its samples by cost,
and is as well only where no sample outweighs one of a lower LoRA beside it.
-/
namespace Aether
namespace Batch

open Checked

variable {F : Type}

/-! ## Tokens by value -/

theorem count_flatMap_range (l : List Nat) (a : Nat) : ∀ k : Nat,
    ((List.range k).flatMap fun i => List.replicate (l.count i) i).count a = if a < k then l.count a else 0
  | 0 => rfl
  | k + 1 => by
    rw [List.range_succ, List.flatMap_append, List.flatMap_singleton, List.count_append, count_flatMap_range l a k,
      List.count_replicate]
    by_cases hk : k = a
    · subst hk
      simp
    · by_cases ha : a < k
      · simp [hk, ha, Nat.lt_succ_of_lt ha]
      · simp [hk, ha, show ¬ a < k + 1 by omega]

/-- A list of values below `k`, value by value. -/
theorem flatMap_range_perm {l : List Nat} {k : Nat} (h : ∀ a ∈ l, a < k) :
    ((List.range k).flatMap fun i => List.replicate (l.count i) i).Perm l := by
  rw [List.perm_iff_count]
  intro a
  rw [count_flatMap_range]
  split
  · rfl
  · rename_i hk
    exact (List.count_eq_zero.2 fun ha => hk (h a ha)).symm

theorem pairwise_flatMap_range (f : Nat → Nat) (k : Nat) :
    ((List.range k).flatMap fun i => List.replicate (f i) i).Pairwise (· ≤ ·) := by
  rw [List.pairwise_flatMap]
  constructor
  · intro i _
    rw [List.pairwise_replicate]
    exact Or.inr le_rfl
  · refine List.pairwise_lt_range.imp fun {i j} hij x hx y hy => ?_
    rw [List.eq_of_mem_replicate hx, List.eq_of_mem_replicate hy]
    exact hij.le

/-- **A sorted list of values below `k` is each value as often as it counts.** -/
theorem flatMap_range_eq {l : List Nat} {k : Nat} (h : ∀ a ∈ l, a < k) (hs : l.Pairwise (· ≤ ·)) :
    ((List.range k).flatMap fun i => List.replicate (l.count i) i) = l :=
  (flatMap_range_perm h).eq_of_pairwise (fun _ _ _ _ hab hba => le_antisymm hab hba) (pairwise_flatMap_range _ k) hs

/-! ## The layer -/

/-- `lora_num_tokens.cumsum(dim=0)`, in unbounded numbers. -/
def cumsum (counts : List Nat) : List Nat := (List.range counts.length).map fun i => (counts.take (i + 1)).sum

/-- `_run_lora_for_loop`: adapter `i` has the rows from `offsets[i - 1]` to `offsets[i]`. -/
def runLoraForLoop {α β : Type} (lora : Nat → α → β) (x : List α) (offsets : List Nat) : List β :=
  (List.range offsets.length).flatMap fun i =>
    ((x.take (offsets.getD i 0)).drop (if i = 0 then 0 else offsets.getD (i - 1) 0)).map (lora i)

/-- The LoRA output of `MultiLoRALinear.forward`, for the rows of `x`.  The layer sums the offsets in `int32`, which is
left out here: they are these up to `2 ^ 31` rows. -/
def multiLoRAForward {α β : Type} (lora : Nat → α → β) (loraNumTokens : List Nat) (x : List α) :
    Except Error (List β) := do
  let offsets := cumsum loraNumTokens
  raiseUnless (offsets.getLast? = some x.length) (.assertion s!"offsets: {offsets}, x.shape: {x.length}")
  .ok (runLoraForLoop lora x offsets)

theorem cumsum_getD {counts : List Nat} {i : Nat} (hi : i < counts.length) :
    (cumsum counts).getD i 0 = (counts.take (i + 1)).sum := by
  rw [cumsum, List.getD_eq_getElem?_getD, List.getElem?_map, List.getElem?_range hi]
  rfl

theorem sum_take_le (counts : List Nat) (i : Nat) : (counts.take i).sum ≤ counts.sum := by
  conv_rhs => rw [← List.take_append_drop i counts, List.sum_append]
  exact Nat.le_add_right _ _

/-- **Each adapter has as many rows as `lora_num_tokens` counts for it**, one adapter after the other. -/
theorem adapters_eq {α : Type} {counts : List Nat} {x : List α} (hsum : counts.sum = x.length) :
    runLoraForLoop (fun i _ => i) x (cumsum counts) =
      (List.range counts.length).flatMap fun i => List.replicate (counts.getD i 0) i := by
  have hlen : (cumsum counts).length = counts.length := by rw [cumsum, List.length_map, List.length_range]
  rw [runLoraForLoop, hlen]
  refine List.flatMap_congr fun i hi => ?_
  have hi : i < counts.length := List.mem_range.1 hi
  have hle : (counts.take (i + 1)).sum ≤ x.length := hsum ▸ sum_take_le counts (i + 1)
  have hstart : (if i = 0 then 0 else (cumsum counts).getD (i - 1) 0) = (counts.take i).sum := by
    split
    · rename_i hzero
      rw [hzero]
      rfl
    · rename_i hpos
      rw [cumsum_getD (by omega), Nat.sub_add_cancel (Nat.pos_of_ne_zero hpos)]
  have hnext : (counts.take (i + 1)).sum = (counts.take i).sum + counts.getD i 0 := by
    rw [List.take_add_one, List.sum_append, List.getD_eq_getElem?_getD, List.getElem?_eq_getElem hi]
    rfl
  rw [cumsum_getD hi, hstart, List.map_const', List.length_drop, List.length_take, Nat.min_eq_left hle, hnext,
    Nat.add_sub_cancel_left]

theorem cumsum_getLast {counts : List Nat} (hne : counts ≠ []) : (cumsum counts).getLast? = some counts.sum := by
  have hlen : (cumsum counts).length = counts.length := by rw [cumsum, List.length_map, List.length_range]
  have hpos := List.length_pos_iff.2 hne
  rw [List.getLast?_eq_getElem?, hlen, cumsum, List.getElem?_map, List.getElem?_range (by omega), Option.map_some,
    Nat.sub_add_cancel hpos, List.take_length]

theorem forward_adapters {α : Type} {counts : List Nat} {x : List α} (hne : counts ≠ []) (hsum : counts.sum = x.length) :
    multiLoRAForward (fun i _ => i) counts x =
      .ok ((List.range counts.length).flatMap fun i => List.replicate (counts.getD i 0) i) := by
  rw [multiLoRAForward, cumsum_getLast hne, hsum, raiseUnless_of _ rfl, ok_bind, adapters_eq hsum]

/-! ## The tokens of a bin -/

/-- The LoRA of each token of a micro-batch: its sample's, and the last for the padding. -/
def owners (numLoras : Nat) (samples : List (Nat × MicroBatch F)) (padding : Nat) : List Nat :=
  (samples.flatMap fun p => List.replicate p.2.inputIds.length p.1) ++ List.replicate padding (numLoras - 1)

theorem length_owners (numLoras : Nat) (samples : List (Nat × MicroBatch F)) (padding : Nat) :
    (owners numLoras samples padding).length = tokens samples + padding := by
  rw [owners, List.length_append, List.length_replicate, List.length_flatMap]
  simp [tokens]

theorem count_owners (numLoras : Nat) (samples : List (Nat × MicroBatch F)) (padding i : Nat) :
    (owners numLoras samples padding).count i =
      (owners numLoras samples 0).count i + if numLoras - 1 = i then padding else 0 := by
  rw [owners, owners, List.count_append, List.count_append, List.count_replicate, List.count_replicate]
  simp

/-- A sample with a token. -/
def Filled (p : Nat × MicroBatch F) : Prop := 0 < p.2.inputIds.length

instance (p : Nat × MicroBatch F) : Decidable (Filled p) := inferInstanceAs (Decidable (0 < p.2.inputIds.length))

/-- The LoRAs of the samples ascend, samples without a token aside. -/
def Ascending (samples : List (Nat × MicroBatch F)) : Prop :=
  samples.Pairwise fun p q => Filled p → Filled q → p.1 ≤ q.1

instance (samples : List (Nat × MicroBatch F)) : Decidable (Ascending samples) :=
  inferInstanceAs (Decidable (samples.Pairwise _))

theorem pairwise_owners {numLoras padding : Nat} {samples : List (Nat × MicroBatch F)}
    (hlora : ∀ p ∈ samples, p.1 < numLoras) :
    (owners numLoras samples padding).Pairwise (· ≤ ·) ↔ Ascending samples := by
  rw [owners, List.pairwise_append, List.pairwise_flatMap, List.pairwise_replicate]
  constructor
  · rintro ⟨⟨-, h⟩, -⟩
    refine h.imp fun {p q} hpq hp hq => ?_
    exact hpq p.1 (List.mem_replicate.2 ⟨Nat.ne_of_gt hp, rfl⟩) q.1 (List.mem_replicate.2 ⟨Nat.ne_of_gt hq, rfl⟩)
  · intro h
    refine ⟨⟨fun p _ => List.pairwise_replicate.2 (Or.inr le_rfl), h.imp fun {p q} hpq x hx y hy => ?_⟩,
      Or.inr le_rfl, fun x hx y hy => ?_⟩
    · obtain ⟨hp, rfl⟩ := List.mem_replicate.1 hx
      obtain ⟨hq, rfl⟩ := List.mem_replicate.1 hy
      exact hpq (Nat.pos_of_ne_zero hp) (Nat.pos_of_ne_zero hq)
    · obtain ⟨p, hp, hx⟩ := List.mem_flatMap.1 hx
      rw [List.eq_of_mem_replicate hx, List.eq_of_mem_replicate hy]
      exact Nat.le_sub_one_of_lt (hlora p hp)

theorem owners_lt {numLoras padding : Nat} {samples : List (Nat × MicroBatch F)}
    (hlora : ∀ p ∈ samples, p.1 < numLoras) (hpad : 0 < padding → 0 < numLoras) :
    ∀ a ∈ owners numLoras samples padding, a < numLoras := by
  intro a ha
  rcases List.mem_append.1 ha with ha | ha
  · obtain ⟨p, hp, ha⟩ := List.mem_flatMap.1 ha
    rw [List.eq_of_mem_replicate ha]
    exact hlora p hp
  · obtain ⟨hne, rfl⟩ := List.mem_replicate.1 ha
    have hpos := hpad (Nat.pos_of_ne_zero hne)
    omega

/-! ## Counting -/

theorem foldlM_lora_count : ∀ {samples : List (Nat × MicroBatch F)} {l l' : List Nat},
    samples.foldlM (fun l p => addLoraTokens l p.1 p.2.inputIds.length) l = .ok l' → l'.length = l.length ∧
      ∀ i, l'.getD i 0 = l.getD i 0 + (samples.flatMap fun p => List.replicate p.2.inputIds.length p.1).count i
  | [], l, l', h => by
    rw [List.foldlM_nil, pure_eq_ok] at h
    subst h
    exact ⟨rfl, fun i => rfl⟩
  | p :: samples, l, l', h => by
    rw [List.foldlM_cons, bind_eq_ok] at h
    obtain ⟨k, hk, h⟩ := h
    obtain ⟨hlen, hcount⟩ := foldlM_lora_count h
    unfold addLoraTokens at hk
    split at hk
    · rename_i n hn
      obtain rfl := Except.ok.inj hk
      refine ⟨by rw [hlen, List.length_set], fun i => ?_⟩
      have hget : l.getD p.1 0 = n := by rw [List.getD_eq_getElem?_getD, hn]; rfl
      have hlt := (List.getElem?_eq_some_iff.1 hn).1
      rw [hcount, List.flatMap_cons, List.count_append, List.count_replicate]
      by_cases hi : p.1 = i
      · subst hi
        rw [hget, List.getD_eq_getElem?_getD, List.getElem?_set_self hlt]
        simp [Nat.add_assoc]
      · rw [List.getD_eq_getElem?_getD, List.getElem?_set_ne hi, ← List.getD_eq_getElem?_getD]
        simp [hi]
    · cases hk

theorem getD_lastPlus (n : Nat) : ∀ (l : List Nat) (i : Nat), l ≠ [] →
    (lastPlus n l).getD i 0 = l.getD i 0 + if l.length - 1 = i then n else 0
  | [], i, h => absurd rfl h
  | [k], 0, _ => by simp [lastPlus]
  | [k], i + 1, _ => by simp [lastPlus]
  | k :: k' :: l, 0, _ => by simp [lastPlus]
  | k :: k' :: l, i + 1, _ => by
    have ih := getD_lastPlus n (k' :: l) i (List.cons_ne_nil k' l)
    rw [lastPlus]
    simpa using ih

theorem length_lastPlus (n : Nat) : ∀ l : List Nat, (lastPlus n l).length = l.length
  | [] => rfl
  | [_] => rfl
  | _ :: k' :: l => congrArg Nat.succ (length_lastPlus n (k' :: l))

theorem eq_counts {l counts : List Nat} {k : Nat} (hlen : counts.length = k) (h : ∀ i, counts.getD i 0 = l.count i) :
    counts = (List.range k).map fun i => l.count i := by
  refine List.ext_getElem (by rw [hlen, List.length_map, List.length_range]) fun i hi _ => ?_
  rw [List.getElem_map, List.getElem_range, ← h, List.getD_eq_getElem?_getD, List.getElem?_eq_getElem hi]
  rfl

section
variable [Zero F] [One F] {np : Numpy} {numLoras pad n : Nat} {b : MicroBatchBin F} {m : MicroBatch F}

theorem materializeBin_counts (h : materializeBin b numLoras = .ok m) : ∃ counts, m.loraNumTokens = some counts ∧
    counts.length = numLoras ∧ ∀ i, counts.getD i 0 = (owners numLoras b.samples 0).count i := by
  obtain ⟨sidecars, hstack, h⟩ := bind_eq_ok.1 h
  obtain ⟨hlen, hcount⟩ := foldlM_lora_count (stackAll_eq_ok.1 hstack).2.2
  simp only [bind_eq_ok, raiseUnless_eq_ok, Except.ok.injEq] at h
  obtain ⟨_, -, _, -, rfl⟩ := h
  refine ⟨sidecars.loraNumTokens, rfl, by rw [hlen, List.length_replicate], fun i => ?_⟩
  rw [hcount, owners, List.replicate_zero, List.append_nil, List.getD_eq_getElem?_getD, List.getElem?_replicate]
  split <;> simp

theorem padMicroBatch_counts {u : MicroBatch F} {counts : List Nat} (h : padMicroBatch np pad u = .ok m)
    (hu : u.loraNumTokens = some counts) :
    m.loraNumTokens = some (lastPlus (m.inputIds.length - u.inputIds.length) counts) := by
  simp only [padMicroBatch, bind_eq_ok] at h
  obtain ⟨_, -, _, -, h⟩ := h
  split at h
  · obtain rfl := Except.ok.inj h
    rw [Nat.sub_self, lastPlus_zero, hu]
  · simp only [bind_eq_ok, Except.ok.injEq] at h
    obtain ⟨_, -, _, -, lora, hlora, _, -, rfl⟩ := h
    rw [hu] at hlora
    simp only [List.length_append, List.length_replicate, Nat.add_sub_cancel_left]
    by_cases hne : counts = []
    · subst hne
      cases hlora
    · rw [addToLast?, addToLast_of hne] at hlora
      exact (Except.ok.inj hlora).symm

/-- The layers send every token to the adapter of its own LoRA, by the counts of the micro-batch. -/
structure OwnAdapters (numLoras n : Nat) (b : MicroBatchBin F) (m : MicroBatch F) : Prop where
  ascending : (owners numLoras b.samples n).Pairwise (· ≤ ·)
  routed : ∃ counts, m.loraNumTokens = some counts ∧ counts.sum = m.inputIds.length ∧
    counts = (List.range numLoras).map (fun i => (owners numLoras b.samples n).count i) ∧
    multiLoRAForward (fun i _ => i) counts m.inputIds = .ok (owners numLoras b.samples n)

/-- **The counts of a micro-batch are its tokens', LoRA by LoRA.** -/
theorem PacksBin.counted (h : PacksBin np numLoras pad b n m) :
    m.loraNumTokens = some ((List.range numLoras).map fun i => (owners numLoras b.samples n).count i) := by
  obtain ⟨u, hu, hm⟩ := h.made
  obtain ⟨counts, hcounts, hlen, hcount⟩ := materializeBin_counts hu
  have hlength : u.inputIds.length = tokens b.samples := by
    obtain ⟨sidecars, -, hu⟩ := bind_eq_ok.1 hu
    simp only [bind_eq_ok, raiseUnless_eq_ok, Except.ok.injEq] at hu
    obtain ⟨_, -, _, -, rfl⟩ := hu
    rw [assemble, length_flatMap_of fun _ _ => rfl, List.map_map]
    rfl
  have hpadded := padMicroBatch_counts hm hcounts
  rw [hlength, h.length, Nat.add_sub_cancel_left] at hpadded
  rw [hpadded, Option.some.injEq]
  refine eq_counts (by rw [length_lastPlus, hlen]) fun i => ?_
  rw [count_owners, ← hcount]
  by_cases hne : counts = []
  · -- no LoRA, no sample, no padding
    have hsamples : b.samples = [] := by
      rw [List.eq_nil_iff_forall_not_mem]
      intro p hp
      have hlt := materializeBin_lora hu p hp
      rw [← hlen, hne] at hlt
      cases hlt
    have hzero : n = 0 := by
      have hmod := h.multiple
      rw [h.length, hsamples, tokens, List.map_nil, List.sum_nil, Nat.zero_add, Nat.mod_eq_of_lt h.padding] at hmod
      exact hmod
    rw [hzero, hne]
    simp [lastPlus]
  · rw [getD_lastPlus n counts i hne, hlen]

/-- **The layers are right exactly where the LoRAs of the samples ascend.** -/
theorem PacksBin.ownAdapters_iff (h : PacksBin np numLoras pad b n m) (hpos : 0 < numLoras) :
    OwnAdapters numLoras n b m ↔ Ascending b.samples := by
  obtain ⟨u, hu, -⟩ := h.made
  have hlora := materializeBin_lora hu
  rw [← pairwise_owners hlora]
  refine ⟨fun ho => ho.ascending, fun hs => ?_⟩
  have hall := flatMap_range_eq (owners_lt hlora fun _ => hpos) hs
  set counts := (List.range numLoras).map fun i => (owners numLoras b.samples n).count i with hcounts
  have hlen : counts.length = numLoras := by rw [hcounts, List.length_map, List.length_range]
  have hsum : counts.sum = m.inputIds.length := by
    have hlength := congrArg List.length hall
    rw [length_owners, ← h.length, List.length_flatMap] at hlength
    simpa using hlength
  refine ⟨hs, counts, h.counted, hsum, hcounts, ?_⟩
  rw [forward_adapters (List.length_pos_iff.1 (hlen ▸ hpos)) hsum, hlen, Except.ok.injEq]
  refine Eq.trans (List.flatMap_congr fun i hi => ?_) hall
  rw [hcounts, List.getD_eq_getElem?_getD, List.getElem?_map, List.getElem?_range (List.mem_range.1 hi)]
  rfl

end

/-! ## Splitting -/

section
variable {binCost : List Nat → Nat}

/-- The order in which a split leaves samples: by descending cost, and by LoRA where it is the same. -/
def CostOrder (binCost : List Nat → Nat) (p q : Nat × MicroBatch F) : Prop :=
  binCost [q.2.inputIds.length] < binCost [p.2.inputIds.length] ∨
    binCost [q.2.inputIds.length] = binCost [p.2.inputIds.length] ∧ p.1 ≤ q.1

/-- The LoRAs of samples of one cost ascend. -/
def AscendsAtCost (binCost : List Nat → Nat) (p q : Nat × MicroBatch F) : Prop :=
  binCost [p.2.inputIds.length] = binCost [q.2.inputIds.length] → p.1 ≤ q.1

theorem CostOrder.ascends {p q : Nat × MicroBatch F} (h : CostOrder binCost p q) : AscendsAtCost binCost p q := by
  intro hcost
  rcases h with h | ⟨-, h⟩
  · omega
  · exact h

theorem orderedInsert_cost {p : Nat × MicroBatch F} : ∀ {l : List (Nat × MicroBatch F)},
    l.Pairwise (CostOrder binCost) → (∀ q ∈ l, AscendsAtCost binCost p q) →
      (l.orderedInsert (fun p q => binCost [q.2.inputIds.length] ≤ binCost [p.2.inputIds.length]) p).Pairwise
        (CostOrder binCost)
  | [], _, _ => List.pairwise_singleton _ _
  | q :: l, hl, hp => by
    obtain ⟨hq, htail⟩ := List.pairwise_cons.1 hl
    rw [List.orderedInsert_cons]
    split
    · rename_i hle
      refine List.pairwise_cons.2 ⟨fun r hr => ?_, hl⟩
      have hrest : binCost [r.2.inputIds.length] ≤ binCost [q.2.inputIds.length] := by
        rcases List.mem_cons.1 hr with rfl | hr
        · exact le_rfl
        · rcases hq r hr with h | h
          · exact h.le
          · exact h.1.le
      rcases (hrest.trans hle).lt_or_eq with h | h
      · exact Or.inl h
      · exact Or.inr ⟨h, hp r hr h.symm⟩
    · rename_i hlt
      refine List.pairwise_cons.2 ⟨fun r hr => ?_,
        orderedInsert_cost htail fun r hr => hp r (List.mem_cons_of_mem q hr)⟩
      rcases (List.mem_orderedInsert _).1 hr with rfl | hr
      · exact Or.inl (Nat.lt_of_not_le hlt)
      · exact hq r hr

/-- **Ranking by cost keeps samples of one cost in the order of their LoRAs.** -/
theorem ranked_cost : ∀ {l : List (Nat × MicroBatch F)}, l.Pairwise (AscendsAtCost binCost) →
    (l.insertionSort fun p q => binCost [q.2.inputIds.length] ≤ binCost [p.2.inputIds.length]).Pairwise
      (CostOrder binCost)
  | [], _ => List.Pairwise.nil
  | p :: l, h => by
    obtain ⟨hp, htail⟩ := List.pairwise_cons.1 h
    rw [List.insertionSort_cons]
    exact orderedInsert_cost (ranked_cost htail) fun q hq => hp q ((List.mem_insertionSort _).1 hq)

theorem sides_sublist : ∀ (samples : List (Nat × MicroBatch F)) (s : Sides F) (done : List (Nat × MicroBatch F)),
    s.left.Sublist done → s.right.Sublist done →
      (samples.foldl (Sides.place binCost) s).left.Sublist (done ++ samples) ∧
      (samples.foldl (Sides.place binCost) s).right.Sublist (done ++ samples)
  | [], s, done, hl, hr => by
    rw [List.append_nil]
    exact ⟨hl, hr⟩
  | p :: samples, s, done, hl, hr => by
    rw [List.foldl_cons, List.append_cons]
    apply sides_sublist samples
    · unfold Sides.place
      dsimp only
      split
      · exact hl.append (List.Sublist.refl [p])
      · exact hl.trans (List.sublist_append_left done [p])
    · unfold Sides.place
      dsimp only
      split
      · exact hr.trans (List.sublist_append_left done [p])
      · exact hr.append (List.Sublist.refl [p])

/-- **Both sides of a split are ordered by cost.** -/
theorem splitByWorkload_cost {b : MicroBatchBin F} (h : b.samples.Pairwise (AscendsAtCost binCost)) :
    (b.splitByWorkload binCost).1.samples.Pairwise (CostOrder binCost) ∧
      (b.splitByWorkload binCost).2.samples.Pairwise (CostOrder binCost) := by
  obtain ⟨hl, hr⟩ := @sides_sublist _ binCost (b.samples.insertionSort fun p q =>
    binCost [q.2.inputIds.length] ≤ binCost [p.2.inputIds.length]) ⟨[], [], 0, 0⟩ [] (List.Sublist.refl [])
    (List.Sublist.refl [])
  exact ⟨(ranked_cost h).sublist hl, (ranked_cost h).sublist hr⟩

/-- **A bin that first fit did not make is ordered by cost.** -/
theorem splitRounds_cost {first : List (MicroBatchBin F)}
    (hfirst : ∀ b ∈ first, b.samples.Pairwise fun p q => p.1 ≤ q.1) : ∀ (n : Nat) (bins : List (MicroBatchBin F)),
    (∀ b ∈ bins, b ∈ first ∨ b.samples.Pairwise (CostOrder binCost)) →
      ∀ b ∈ splitRounds binCost n bins, b ∈ first ∨ b.samples.Pairwise (CostOrder binCost)
  | 0, bins, h => h
  | n + 1, bins, h => by
    rw [splitRounds]
    split
    · exact h
    · rename_i idx b hc
      simp only [Option.bind_eq_some_iff, Option.map_eq_some_iff, Prod.mk.injEq] at hc
      obtain ⟨c, -, b', hb, rfl, rfl⟩ := hc
      have hascends : b'.samples.Pairwise (AscendsAtCost binCost) := by
        rcases h b' (List.mem_of_getElem? hb) with hb | hb
        · exact (hfirst b' hb).imp fun {p q} hpq (_ : binCost [p.2.inputIds.length] = _) => hpq
        · exact hb.imp fun {p q} hpq => hpq.ascends
      obtain ⟨hleft, hright⟩ := splitByWorkload_cost hascends
      refine splitRounds_cost hfirst n _ fun d hd => ?_
      rcases List.mem_append.1 hd with hd | hd
      · rcases List.mem_or_eq_of_mem_set hd with hd | rfl
        · exact h d hd
        · exact Or.inr hleft
      · exact Or.inr (List.mem_singleton.1 hd ▸ hright)

end

/-! ## First fit -/

theorem placeSample_ascending (maxSeqLen : Nat) {p : Nat × MicroBatch F} : ∀ {bins : List (MicroBatchBin F)},
    (∀ b ∈ bins, b.samples.Pairwise fun p q => p.1 ≤ q.1) → (∀ b ∈ bins, ∀ q ∈ b.samples, q.1 ≤ p.1) →
      ∀ b ∈ placeSample maxSeqLen bins p, (b.samples.Pairwise fun p q => p.1 ≤ q.1) ∧ ∀ q ∈ b.samples, q.1 ≤ p.1
  | [], _, _, b, hb => by
    obtain rfl := List.mem_singleton.1 hb
    exact ⟨List.pairwise_singleton _ _, fun q hq => (List.mem_singleton.1 hq ▸ le_rfl)⟩
  | c :: bins, hasc, hle, b, hb => by
    rw [placeSample] at hb
    split at hb
    · rcases List.mem_cons.1 hb with rfl | hb
      · refine ⟨List.pairwise_append.2 ⟨hasc c List.mem_cons_self, List.pairwise_singleton _ _, fun q hq r hr => ?_⟩,
          fun q hq => ?_⟩
        · exact List.mem_singleton.1 hr ▸ hle c List.mem_cons_self q hq
        · rcases List.mem_append.1 hq with hq | hq
          · exact hle c List.mem_cons_self q hq
          · exact (List.mem_singleton.1 hq ▸ le_rfl)
      · exact ⟨hasc b (List.mem_cons_of_mem c hb), hle b (List.mem_cons_of_mem c hb)⟩
    · rcases List.mem_cons.1 hb with rfl | hb
      · exact ⟨hasc b List.mem_cons_self, hle b List.mem_cons_self⟩
      · exact placeSample_ascending maxSeqLen (fun d hd => hasc d (List.mem_cons_of_mem c hd))
          (fun d hd => hle d (List.mem_cons_of_mem c hd)) b hb

theorem placeSamples_ascending {maxSeqLen : Nat} : ∀ (samples : List (Nat × MicroBatch F))
    (bins : List (MicroBatchBin F)), (samples.Pairwise fun p q => p.1 ≤ q.1) →
      (∀ b ∈ bins, b.samples.Pairwise fun p q => p.1 ≤ q.1) → (∀ b ∈ bins, ∀ q ∈ b.samples, ∀ p ∈ samples, q.1 ≤ p.1) →
      ∀ b ∈ samples.foldl (placeSample maxSeqLen) bins, b.samples.Pairwise fun p q => p.1 ≤ q.1
  | [], bins, _, hasc, _ => hasc
  | p :: samples, bins, hs, hasc, hle => by
    obtain ⟨hp, hs⟩ := List.pairwise_cons.1 hs
    have hplaced := placeSample_ascending maxSeqLen hasc
      fun b hb q hq => hle b hb q hq p List.mem_cons_self
    exact placeSamples_ascending samples _ hs (fun b hb => (hplaced b hb).1)
      fun b hb q hq r hr => ((hplaced b hb).2 q hq).trans (hp r hr)

/-- **First fit leaves the LoRAs of every bin in ascending order.** -/
theorem firstFit_ascending (samples : List (Nat × MicroBatch F)) (maxSeqLen : Nat) :
    ∀ b ∈ firstFit samples maxSeqLen, b.samples.Pairwise fun p q => p.1 ≤ q.1 := by
  have hsorted : (sortSamples samples).Pairwise fun p q =>
      p.1 < q.1 ∨ p.1 = q.1 ∧ q.2.inputIds.length ≤ p.2.inputIds.length := by
    have : Std.Total fun p q : Nat × MicroBatch F =>
        p.1 < q.1 ∨ p.1 = q.1 ∧ q.2.inputIds.length ≤ p.2.inputIds.length := ⟨fun p q => by omega⟩
    have : IsTrans (Nat × MicroBatch F) fun p q =>
        p.1 < q.1 ∨ p.1 = q.1 ∧ q.2.inputIds.length ≤ p.2.inputIds.length := ⟨fun p q r hpq hqr => by omega⟩
    exact List.pairwise_insertionSort _ samples
  refine placeSamples_ascending (sortSamples samples) [] (hsorted.imp fun {p q} hpq => ?_) (fun b hb => by cases hb)
    fun b hb => by cases hb
  omega

/-! ## prepare_batch -/

/-- No sample of the bin outweighs one of a lower LoRA. -/
def NoneOutweighs (binCost : List Nat → Nat) (b : MicroBatchBin F) : Prop :=
  ∀ p ∈ b.samples, ∀ q ∈ b.samples, Filled p → Filled q → p.1 < q.1 →
    binCost [q.2.inputIds.length] ≤ binCost [p.2.inputIds.length]

/-- **Samples ordered by cost ascend in their LoRAs exactly where none outweighs one of a lower LoRA.** -/
theorem ascending_iff {binCost : List Nat → Nat} {b : MicroBatchBin F}
    (h : b.samples.Pairwise (CostOrder binCost)) : Ascending b.samples ↔ NoneOutweighs binCost b := by
  constructor
  · intro hasc p hp q hq
    have hboth : b.samples.Pairwise fun p q =>
        (Filled p → Filled q → p.1 < q.1 → binCost [q.2.inputIds.length] ≤ binCost [p.2.inputIds.length]) ∧
        (Filled q → Filled p → q.1 < p.1 → binCost [p.2.inputIds.length] ≤ binCost [q.2.inputIds.length]) := by
      refine (h.and hasc).imp fun {p q} hpq => ⟨fun _ _ _ => ?_, fun hq hp hlt => ?_⟩
      · rcases hpq.1 with h | h
        · exact h.le
        · exact h.1.le
      · exact absurd (hpq.2 hp hq) (Nat.not_le.2 hlt)
    have : Std.Symm fun p q : Nat × MicroBatch F =>
        (Filled p → Filled q → p.1 < q.1 → binCost [q.2.inputIds.length] ≤ binCost [p.2.inputIds.length]) ∧
        (Filled q → Filled p → q.1 < p.1 → binCost [p.2.inputIds.length] ≤ binCost [q.2.inputIds.length]) :=
      ⟨fun _ _ hpq => ⟨hpq.2, hpq.1⟩⟩
    have hself : ∀ r ∈ b.samples,
        (Filled r → Filled r → r.1 < r.1 → binCost [r.2.inputIds.length] ≤ binCost [r.2.inputIds.length]) ∧
        (Filled r → Filled r → r.1 < r.1 → binCost [r.2.inputIds.length] ≤ binCost [r.2.inputIds.length]) :=
      fun r _ => ⟨fun _ _ _ => le_rfl, fun _ _ _ => le_rfl⟩
    exact (List.Pairwise.forall_of_forall hself hboth hp hq).1
  · intro hnone
    refine h.imp_of_mem fun {p q} hp hq hpq hfp hfq => ?_
    by_contra hlt
    have hcost := hnone q hq p hp hfq hfp (Nat.lt_of_not_le hlt)
    rcases hpq with h | h
    · omega
    · exact hlt h.2

/-- Each micro-batch is a bin's, or a dummy of one, and the layers send its tokens to the adapters of their own
LoRAs. -/
def RoutesOwn [Zero F] [One F] (np : Numpy) (numLoras pad : Nat) (bins : List (MicroBatchBin F))
    (grid : List (List (MicroBatch F))) : Prop :=
  ∃ packed dummies, List.Forall₂ (fun b m => ∃ n, PacksBin np numLoras pad b n m ∧ OwnAdapters numLoras n b m)
      bins packed ∧
    grid.flatten.Perm (packed ++ dummies) ∧ ∀ d ∈ dummies, ∃ m ∈ packed, d = makeDummyBatch m

theorem packBins_nil {w seqLen : Nat} {binCost : List Nat → Nat} :
    packBins ([] : List (Nat × MicroBatch F)) seqLen w binCost = [] := by
  have hrounds : ∀ n, splitRounds binCost n ([] : List (MicroBatchBin F)) = []
    | 0 => rfl
    | _ + 1 => rfl
  unfold packBins
  dsimp only
  split
  · exact hrounds _
  · rfl

section
variable [Zero F] [One F] [DecidableEq F] {np : Numpy} {rollouts : List (TrainingSample F)} {idxs : List Nat}
  {seqLen w numLoras pad : Nat} {binCost : List Nat → Nat}

/-- **Every token goes to the adapter of its own LoRA exactly where no bin that a split made has a sample that outweighs
one of a lower LoRA.** -/
theorem prepareBatch_routesOwn_iff {grid : List (List (MicroBatch F))} (hw : 0 < w) (hpad : 0 < pad)
    (hgrid : prepareBatch np rollouts seqLen w idxs numLoras binCost pad = .ok grid) :
    ∃ samples, (idxs.zip rollouts).mapM (prepareOne np seqLen) = .ok samples ∧
      (RoutesOwn np numLoras pad (packBins samples seqLen w binCost) grid ↔
        ∀ b ∈ packBins samples seqLen w binCost, b ∈ firstFit samples seqLen ∨ NoneOutweighs binCost b) := by
  obtain ⟨samples, hsamples, hgrid⟩ := bind_eq_ok.1 hgrid
  refine ⟨samples, hsamples, ?_⟩
  have hprep := prepared_of_ok hsamples
  obtain ⟨packed, dummies, hbins, hperm, hdummies⟩ := packSamples_bins hw hpad hprep hgrid
  have hfirst := firstFit_ascending samples seqLen
  have hcost : ∀ b ∈ packBins samples seqLen w binCost, b ∈ firstFit samples seqLen ∨
      b.samples.Pairwise (CostOrder binCost) := by
    unfold packBins
    dsimp only
    split
    · exact splitRounds_cost hfirst _ _ fun b hb => Or.inl hb
    · exact fun b hb => Or.inl hb
  have hasc : (∀ b ∈ packBins samples seqLen w binCost, Ascending b.samples) ↔
      ∀ b ∈ packBins samples seqLen w binCost, b ∈ firstFit samples seqLen ∨ NoneOutweighs binCost b := by
    refine forall₂_congr fun b hb => ?_
    by_cases hmade : b ∈ firstFit samples seqLen
    · exact iff_of_true ((hfirst b hmade).imp fun {p q} hpq _ _ => hpq) (Or.inl hmade)
    · rw [ascending_iff ((hcost b hb).resolve_left hmade)]
      exact (or_iff_right hmade).symm
  have hpos : packBins samples seqLen w binCost ≠ [] → 0 < numLoras := by
    intro hne
    have hsome : samples ≠ [] := fun hnil => hne (hnil ▸ packBins_nil)
    obtain ⟨p, hp⟩ := List.exists_mem_of_ne_nil samples hsome
    have hcontents := (@packBins_ok F seqLen w samples binCost fun p hp => (hprep p hp).fits).2
    obtain ⟨b, hb, hp⟩ := List.mem_flatMap.1 (hcontents.mem_iff.2 hp)
    obtain ⟨m, -, n, ⟨u, hu, -⟩, -⟩ := forall₂_mem_left hbins b hb
    exact Nat.zero_lt_of_lt (materializeBin_lora hu p hp)
  rw [← hasc]
  constructor
  · rintro ⟨packed', dummies', hall, -⟩ b hb
    obtain ⟨m, -, n, hpacks, hown⟩ := forall₂_mem_left hall b hb
    exact (hpacks.ownAdapters_iff (hpos (List.ne_nil_of_mem hb))).1 hown
  · intro hall
    refine ⟨packed, dummies, ?_, hperm, hdummies⟩
    refine List.Forall₂.imp ?_ ((List.forall₂_and_left _ _).2 ⟨fun b hb => hb, hbins⟩)
    rintro b m ⟨hb, n, hpacks⟩
    exact ⟨n, hpacks, (hpacks.ownAdapters_iff (hpos (List.ne_nil_of_mem hb))).2 (hall b hb)⟩

end

def twoEach : List (TrainingSample Int) := [textSample Int 3, textSample Int 2, textSample Int 2, textSample Int 1]

/-- Two LoRAs over two workers: one bin, split once into halves of both LoRAs, and no sample of the second LoRA outweighs
one of the first. -/
theorem prepareBatch_routesOwn_sample : ∃ grid samples,
    prepareBatch expertDtypes twoEach 8 2 [0, 0, 1, 1] 2 List.sum 2 = .ok grid ∧
      ([0, 0, 1, 1].zip twoEach).mapM (prepareOne expertDtypes 8) = .ok samples ∧
      (firstFit samples 8).length = 1 ∧
      (packBins samples 8 2 List.sum).map (fun b => b.samples.map Prod.fst) = [[0, 1], [0, 1]] ∧
      RoutesOwn expertDtypes 2 2 (packBins samples 8 2 List.sum) grid := by
  have hrun : ∃ grid samples, prepareBatch expertDtypes twoEach 8 2 [0, 0, 1, 1] 2 List.sum 2 = .ok grid ∧
      ([0, 0, 1, 1].zip twoEach).mapM (prepareOne expertDtypes 8) = .ok samples ∧
      (firstFit samples 8).length = 1 ∧
      (packBins samples 8 2 List.sum).map (fun b => b.samples.map Prod.fst) = [[0, 1], [0, 1]] ∧
      ∀ b ∈ packBins samples 8 2 List.sum, ∀ p ∈ b.samples, ∀ q ∈ b.samples, p.1 < q.1 →
        List.sum [q.2.inputIds.length] ≤ List.sum [p.2.inputIds.length] := ⟨_, _, rfl, rfl, by decide +kernel⟩
  obtain ⟨grid, samples, hgrid, hsamples, hone, htwo, hbins⟩ := hrun
  obtain ⟨samples', hsamples', hiff⟩ := prepareBatch_routesOwn_iff (by decide) (by decide) hgrid
  obtain rfl := Except.ok.inj (hsamples'.symm.trans hsamples)
  exact ⟨grid, _, hgrid, hsamples, hone, htwo, hiff.2 fun b hb => Or.inr fun p hp q hq _ _ => hbins b hb p hp q hq⟩

/-- One token of the first LoRA, and three and two of the second, in one bin: its split puts the two before the one. -/
theorem not_every_token_routesOwn :
    ¬ ∀ (rollouts : List (TrainingSample Int)) (idxs : List Nat) (seqLen w numLoras : Nat)
        (grid : List (List (MicroBatch Int))), 0 < seqLen → 0 < w → (∀ i ∈ idxs, i < numLoras) →
      prepareBatch expertDtypes rollouts seqLen w idxs numLoras List.sum 1 = .ok grid →
      ∃ samples, (idxs.zip rollouts).mapM (prepareOne expertDtypes seqLen) = .ok samples ∧
        RoutesOwn expertDtypes numLoras 1 (packBins samples seqLen w List.sum) grid := by
  intro hall
  have hrun : ∃ grid samples, prepareBatch expertDtypes [textSample Int 1, textSample Int 3, textSample Int 2] 6 2
        [0, 1, 1] 2 List.sum 1 = .ok grid ∧
      ([0, 1, 1].zip [textSample Int 1, textSample Int 3, textSample Int 2]).mapM (prepareOne expertDtypes 6) =
        .ok samples ∧
      ∃ b ∈ packBins samples 6 2 List.sum, ¬ Ascending b.samples := ⟨_, _, rfl, rfl, by decide +kernel⟩
  obtain ⟨grid, samples, hgrid, hsamples, b, hb, hasc⟩ := hrun
  obtain ⟨samples', hsamples', packed, dummies, hbins, -⟩ := hall _ [0, 1, 1] 6 2 2 grid (by decide) (by decide)
    (by decide) hgrid
  obtain rfl := Except.ok.inj (hsamples'.symm.trans hsamples)
  obtain ⟨m, -, n, hpacks, hown⟩ := forall₂_mem_left hbins b hb
  exact hasc ((hpacks.ownAdapters_iff (by decide)).1 hown)

end Batch
end Aether
