import AetherRl.LossTokens
import AetherRl.BatchConserve
/-!
# LossCounts — the normalizers of a step against the prepared samples

The counts of tokens over all workers are those of the samples, whatever the packing.  The count of rl sequences is not:
the train loop slices the rows of a tensor of one row, and so counts the micro-batches that train an rl token.
-/
namespace Aether
namespace Loss

open Checked Batch

variable {K : Type} [Field K] [LinearOrder K]

/-! ## Counts as tokens -/

def Token.rlMember (t : Token K) : Bool := t.mask && decide (t.rl ≠ 0)

theorem rlMask_eq {m : MicroBatch K} {trainer : List K} {ts : List (Token K)}
    (h : Describes (wholeSequence m trainer) ts) : rlMask m = ts.map Token.rlMember := by
  have hw := h.rlWeights
  have hmask : m.lossMask = ts.map (·.mask) := h.lossMask
  unfold rlMask
  cases hs : m.rlWeights with
  | none =>
    rw [wholeSequence, hs, Option.getD_none] at hw
    dsimp only
    rw [hmask]
    refine List.map_congr_left fun t ht => ?_
    rw [Token.rlMember, eq_fill hw t ht, decide_eq_true one_ne_zero, Bool.and_true]
  | some w =>
    rw [wholeSequence, hs, Option.getD_some] at hw
    subst hw
    dsimp only
    rw [hmask, List.zipWith_map, List.zipWith_self]
    rfl

theorem nonzero_eq {stream : Option (List K)} {ts : List (Token K)} {w : Token K → K}
    (h : stream.getD (List.replicate ts.length 0) = ts.map w) : nonzero stream = ts.countP fun t => decide (w t ≠ 0) := by
  cases stream with
  | none =>
    refine (List.countP_eq_zero.2 fun t ht => ?_).symm
    simpa using eq_fill h t ht
  | some l =>
    rw [Option.getD_some] at h
    rw [nonzero, h, List.countP_map]
    rfl

/-- A count of tokens, where the trainer's log-probabilities do not matter. -/
structure CountsTokens (count : MicroBatch K → Nat) (p : Token K → Bool) : Prop where
  tokens : ∀ {m trainer ts}, Describes (wholeSequence m trainer) ts → count m = ts.countP p
  trainer : ∀ s t t' k, p (tokenAt s t k) = p (tokenAt s t' k)
  padding : ∀ m k, p (padToken m k) = false
  dummy : ∀ m, count (makeDummyBatch m) = 0

theorem rlTokens_counts : CountsTokens rlTokens (Token.rlMember (K := K)) where
  tokens h := by
    rw [rlTokens, rlMask_eq h, List.countP_map]
    rfl
  trainer _ _ _ _ := rfl
  padding _ _ := rfl
  dummy m := by
    rw [rlTokens, rlMask, makeDummyBatch, List.countP_replicate]
    rfl

theorem ceTokens_counts : CountsTokens ceTokens fun t : Token K => decide (t.ce ≠ 0) where
  tokens h := nonzero_eq h.ceWeights
  trainer _ _ _ _ := rfl
  padding _ _ := decide_eq_false (not_not_intro rfl)
  dummy _ := rfl

theorem refKlTokens_counts : CountsTokens refKlTokens fun t : Token K => decide (t.refKl ≠ 0) where
  tokens h := nonzero_eq h.refKlWeights
  trainer _ _ _ _ := rfl
  padding _ _ := decide_eq_false (not_not_intro rfl)
  dummy _ := rfl

section
variable {count : MicroBatch K → Nat} {p : Token K → Bool}
omit [LinearOrder K]

theorem countP_sampleTokens (hc : CountsTokens count p) {s : MicroBatch K} (hs : Aligned s) (t : Nat → K) :
    (sampleTokens s t).countP p = count s := (hc.tokens (sampleTokens_describes hs t)).symm

theorem countP_packTokens (hc : CountsTokens count p) {trainer : List K} : ∀ {samples : List (MicroBatch K)}
    (offset : Nat), (∀ s ∈ samples, Aligned s) →
      (packTokens trainer offset samples).countP p = (samples.map count).sum
  | [], _, _ => rfl
  | s :: samples, offset, hs => by
    rw [packTokens, List.countP_append, countP_sampleTokens hc (hs s List.mem_cons_self), List.map_cons, List.sum_cons,
      countP_packTokens hc _ fun u hu => hs u (List.mem_cons_of_mem s hu)]

/-- **A micro-batch counts what its samples count.** -/
theorem count_packs (hc : CountsTokens count p) {np : Numpy} {samples : List (MicroBatch K)} {padding : Nat}
    {m : MicroBatch K} (h : Packs np samples padding m) (hs : ∀ s ∈ samples, Aligned s) :
    count m = (samples.map count).sum := by
  have hts := microBatchTokens_describes h hs (List.length_replicate (n := m.inputIds.length) (a := 0))
  have hpads : (padTokens m (List.replicate m.inputIds.length 0) (lens samples) padding).countP p = 0 :=
    List.countP_eq_zero.2 fun t ht => by
      obtain ⟨k, -, rfl⟩ := List.mem_map.1 ht
      rw [hc.padding]
      exact Bool.false_ne_true
  rw [hc.tokens hts, microBatchTokens, List.countP_append, countP_packTokens hc 0 hs, hpads, Nat.add_zero]

/-! ## Over all workers -/

omit [Field K] in
theorem allReduce_eq (cp : Nat) (count : MicroBatch K → Nat) : ∀ grid : List (List (MicroBatch K)),
    allReduce cp grid count = cp * (grid.flatten.map count).sum
  | [] => (Nat.mul_zero cp).symm
  | batches :: grid => by
    have ih := allReduce_eq cp count grid
    rw [allReduce] at ih ⊢
    rw [List.flatMap_cons, List.sum_append, ih, List.sum_replicate_nat, List.flatten_cons, List.map_append,
      List.sum_append, Nat.mul_add]

theorem allReduce_packed {np : Numpy} {seqLen pad cp : Nat} {samples : List (Nat × MicroBatch K)}
    {grid : List (List (MicroBatch K))} {bins : List (MicroBatchBin K)} {packed : List (MicroBatch K × Nat)}
    {dummies : List (MicroBatch K)} (h : PackedBy np seqLen pad samples grid bins packed dummies)
    (hdummy : ∀ m, count (makeDummyBatch m) = 0) :
    allReduce cp grid count = cp * (packed.map fun p => count p.1).sum := by
  have hzero : (dummies.map count).sum = 0 := List.sum_eq_zero fun n hn => by
    obtain ⟨d, hd, rfl⟩ := List.mem_map.1 hn
    obtain ⟨p, -, rfl⟩ := h.dummy d hd
    exact hdummy p.1
  rw [allReduce_eq, (h.distributed.map count).sum_nat, List.map_append, List.sum_append, hzero, Nat.add_zero,
    List.map_map]
  rfl

end

/-! ## The rl sequences -/

/-- Past the one row nothing is counted. -/
theorem countSequences_past (row : List Bool) : ∀ (lengths : List Nat) (offset : Nat), 0 < offset →
    countSequences [row] offset lengths = 0
  | [], _, _ => rfl
  | n :: lengths, offset, h => by
    have hdrop : [row].drop offset = [] := List.drop_eq_nil_of_le h
    rw [countSequences, hdrop, countSequences_past row lengths (offset + n) (by omega)]
    simp

/-- **One row counts once, if any of it is set.** -/
theorem countSequences_row {row : List Bool} : ∀ {lengths : List Nat}, lengths.sum = row.length →
    countSequences [row] 0 lengths = (row.any id).toNat
  | [], h => by
    rw [List.eq_nil_of_length_eq_zero h.symm]
    rfl
  | 0 :: lengths, h => by
    rw [List.sum_cons, Nat.zero_add] at h
    rw [countSequences, countSequences_row h]
    simp
  | (n + 1) :: lengths, h => by
    rw [countSequences, countSequences_past row lengths (0 + (n + 1)) (by omega)]
    simp

/-- Rows of which none is set count nothing. -/
theorem countSequences_unset {rows : List (List Bool)} (h : ∀ row ∈ rows, row.any id = false) :
    ∀ (lengths : List Nat) (offset : Nat), countSequences rows offset lengths = 0
  | [], _ => rfl
  | n :: lengths, offset => by
    have hany : ((rows.drop offset).take n).any (·.any id) = false := List.any_eq_false.2 fun row hrow => by
      rw [h row (List.mem_of_mem_drop (List.mem_of_mem_take hrow))]
      exact Bool.false_ne_true
    rw [countSequences, hany, countSequences_unset h lengths]
    rfl

theorem rlSequences_dummy (m : MicroBatch K) : rlSequences (makeDummyBatch m) = 0 := by
  refine countSequences_unset (fun row hrow => ?_) _ _
  rw [List.mem_singleton.1 hrow, List.any_eq_false]
  intro b hb
  rw [List.eq_of_mem_replicate hb]
  exact Bool.false_ne_true

/-- The sequences of a sample that the rl component trains: itself, or none. -/
def sampleSequences (s : MicroBatch K) : Nat := if 0 < rlTokens s then 1 else 0

theorem any_toNat (l : List Bool) : (l.any id).toNat = if 0 < l.countP id then 1 else 0 := by
  by_cases h : l.any id = true
  · have hpos : 0 < l.countP id := by
      obtain ⟨b, hb, hid⟩ := List.any_eq_true.1 h
      exact List.countP_pos_iff.2 ⟨b, hb, hid⟩
    rw [h, if_pos hpos]
    rfl
  · have hzero : l.countP id = 0 := List.countP_eq_zero.2 fun b hb hid => h (List.any_eq_true.2 ⟨b, hb, hid⟩)
    have hfalse : l.any id = false := by simpa using h
    rw [hfalse, if_neg (by omega)]
    rfl

/-- **A micro-batch counts one rl sequence, however many of its samples are trained.** -/
theorem rlSequences_packs {np : Numpy} {samples : List (MicroBatch K)} {padding : Nat} {m : MicroBatch K}
    (h : Packs np samples padding m) (hs : ∀ s ∈ samples, Aligned s) (hm : Aligned m) :
    rlSequences m = min 1 (samples.map sampleSequences).sum := by
  have hts := microBatchTokens_describes h hs (List.length_replicate (n := m.inputIds.length) (a := 0))
  have hlen : m.sequenceLengths.sum = (rlMask m).length := by
    rw [rlMask_eq hts, List.length_map, hts.length, hm.sequenceLengths]
    exact List.length_replicate.symm
  have hcount : (rlMask m).countP id = (samples.map rlTokens).sum := count_packs rlTokens_counts h hs
  rw [rlSequences, countSequences_row hlen, any_toNat, hcount]
  clear hcount hlen hts hs h
  induction samples with
  | nil => rfl
  | cons s samples ih =>
    rw [List.map_cons, List.sum_cons, List.map_cons, List.sum_cons, sampleSequences]
    by_cases hpos : 0 < rlTokens s
    · rw [if_pos hpos, if_pos (by omega)]
      omega
    · rw [if_neg hpos, Nat.zero_add, ← ih, Nat.eq_zero_of_not_pos hpos, Nat.zero_add]

/-- Counting once in each group is right where no group has two. -/
theorem sum_min_one : ∀ {l : List Nat}, (l.map (min 1)).sum = l.sum ↔ ∀ n ∈ l, n ≤ 1
  | [] => by simp
  | n :: l => by
    have ih := @sum_min_one l
    have hle : (l.map (min 1)).sum ≤ l.sum := by
      clear ih
      induction l with
      | nil => exact le_rfl
      | cons k l ih =>
        rw [List.map_cons, List.sum_cons, List.sum_cons]
        omega
    rw [List.map_cons, List.sum_cons, List.sum_cons, List.forall_mem_cons, ← ih]
    omega

end Loss
end Aether
