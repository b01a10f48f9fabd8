import AetherRl.BatchSample
import Mathlib.Data.List.Sort
/-!
# BatchBins — first-fit packing of prepared samples into bins, and the splitting of bins

`_MicroBatchBin` and the first half of `packed_samples_into_micro_bs`.  A bin is in order when its length is the sum of
its samples', fits the maximal length, and each of its samples was acceptable to the ones before it.
-/
namespace Aether
namespace Batch

variable {F : Type}

/-! ## Bins -/

structure MicroBatchBin (F : Type) where
  samples : List (Nat × MicroBatch F)
  length : Nat

def tokens (samples : List (Nat × MicroBatch F)) : Nat := (samples.map fun p => p.2.inputIds.length).sum

def MicroBatchBin.fromSample (loraIdx : Nat) (sample : MicroBatch F) : MicroBatchBin F :=
  ⟨[(loraIdx, sample)], sample.inputIds.length⟩

/-- The `mm_kwargs` of `first_multimodal_sample`. -/
def MicroBatchBin.firstMultimodal (b : MicroBatchBin F) : Option (List (String × EncodedTensor)) :=
  b.samples.findSome? fun p => p.2.mmKwargs

/-- The same keys, and tensors that stack along their first dimension. -/
def compatibleKwargs (dst src : List (String × EncodedTensor)) : Bool :=
  dst.all (fun p => (src.lookup p.1).isSome) && src.all (fun p => (dst.lookup p.1).isSome) &&
    dst.all fun (key, t) => (src.lookup key).any fun u =>
      t.dtype == u.dtype && 0 < t.shape.length && t.shape.length == u.shape.length && t.shape.tail == u.shape.tail

def MicroBatchBin.canAdd (b : MicroBatchBin F) (sample : MicroBatch F) (maxSeqLen loraIdx : Nat) : Bool :=
  match b.samples with
  -- no bin is empty here: `first_sample` would raise
  | [] => false
  | (firstLoraIdx, firstSample) :: _ =>
    if maxSeqLen < b.length + sample.inputIds.length then false
    else if firstSample.routedExperts.isNone ≠ sample.routedExperts.isNone then false
    else match b.firstMultimodal, sample.mmKwargs with
      | none, none => true
      | some dst, some src => firstLoraIdx == loraIdx && compatibleKwargs dst src
      | _, _ => firstLoraIdx == loraIdx

def MicroBatchBin.add (b : MicroBatchBin F) (loraIdx : Nat) (sample : MicroBatch F) : MicroBatchBin F :=
  ⟨b.samples ++ [(loraIdx, sample)], b.length + sample.inputIds.length⟩

def MicroBatchBin.workload (b : MicroBatchBin F) (binCost : List Nat → Nat) : Nat :=
  binCost (b.samples.map fun p => p.2.inputIds.length)

/-- The two sides of a split, with their workloads. -/
structure Sides (F : Type) where
  left : List (Nat × MicroBatch F)
  right : List (Nat × MicroBatch F)
  leftWorkload : Nat
  rightWorkload : Nat

def Sides.place (binCost : List Nat → Nat) (s : Sides F) (p : Nat × MicroBatch F) : Sides F :=
  let workload := binCost [p.2.inputIds.length]
  if s.leftWorkload ≤ s.rightWorkload then
    { s with left := s.left ++ [p], leftWorkload := s.leftWorkload + workload }
  else { s with right := s.right ++ [p], rightWorkload := s.rightWorkload + workload }

/-- The heaviest sample goes to the lighter side. -/
def MicroBatchBin.splitByWorkload (b : MicroBatchBin F) (binCost : List Nat → Nat) :
    MicroBatchBin F × MicroBatchBin F :=
  let ranked := b.samples.insertionSort fun p q => binCost [q.2.inputIds.length] ≤ binCost [p.2.inputIds.length]
  let s := ranked.foldl (Sides.place binCost) ⟨[], [], 0, 0⟩
  (⟨s.left, tokens s.left⟩, ⟨s.right, tokens s.right⟩)

/-! ## Packing -/

/-- The sample goes to the first bin that can take it, or to a new one. -/
def placeSample (maxSeqLen : Nat) (bins : List (MicroBatchBin F)) (p : Nat × MicroBatch F) : List (MicroBatchBin F) :=
  match bins with
  | [] => [.fromSample p.1 p.2]
  | b :: bins =>
    if b.canAdd p.2 maxSeqLen p.1 then b.add p.1 p.2 :: bins else b :: placeSample maxSeqLen bins p

/-- `samples.sort(key=lambda x: (x[0], -len(x[1].input_ids)))`. -/
def sortSamples (samples : List (Nat × MicroBatch F)) : List (Nat × MicroBatch F) :=
  samples.insertionSort fun p q => p.1 < q.1 ∨ p.1 = q.1 ∧ q.2.inputIds.length ≤ p.2.inputIds.length

def firstFit (samples : List (Nat × MicroBatch F)) (maxSeqLen : Nat) : List (MicroBatchBin F) :=
  (sortSamples samples).foldl (placeSample maxSeqLen) []

/-- The greatest of the candidates `(workload, idx)`. -/
def heaviest : List (Nat × Nat) → Option (Nat × Nat)
  | [] => none
  | c :: cs =>
    match heaviest cs with
    | none => some c
    | some d => if c.1 < d.1 ∨ c.1 = d.1 ∧ c.2 < d.2 then some d else some c

/-- The bins that may be split: of more than one sample, all text. -/
def splitCandidates (binCost : List Nat → Nat) (bins : List (MicroBatchBin F)) : List (Nat × Nat) :=
  (bins.zipIdx.filter fun (b, _) => 1 < b.samples.length && b.firstMultimodal.isNone).map fun (b, idx) =>
    (b.workload binCost, idx)

/-- `while len(bins) < target_count`: each round makes one bin more. -/
def splitRounds (binCost : List Nat → Nat) : Nat → List (MicroBatchBin F) → List (MicroBatchBin F)
  | 0, bins => bins
  | n + 1, bins =>
    match (heaviest (splitCandidates binCost bins)).bind fun c => (bins[c.2]?).map fun b => (c.2, b) with
    | none => bins
    | some (idx, b) =>
      splitRounds binCost n (bins.set idx (b.splitByWorkload binCost).1 ++ [(b.splitByWorkload binCost).2])

def expandBinsBySplitting (bins : List (MicroBatchBin F)) (targetCount : Nat) (binCost : List Nat → Nat) :
    List (MicroBatchBin F) :=
  splitRounds binCost (targetCount - bins.length) bins

def packBins (samples : List (Nat × MicroBatch F)) (maxSeqLen numTrainWorkers : Nat) (binCost : List Nat → Nat) :
    List (MicroBatchBin F) :=
  let bins := firstFit samples maxSeqLen
  if 1 < numTrainWorkers then
    expandBinsBySplitting bins
      (max ((bins.length + numTrainWorkers - 1) / numTrainWorkers * numTrainWorkers) numTrainWorkers) binCost
  else bins

/-! ## Bins in order -/

/-- A bin whose samples fit, each of them acceptable to the ones before. -/
structure MicroBatchBin.Ok (maxSeqLen : Nat) (b : MicroBatchBin F) : Prop where
  length : b.length = tokens b.samples
  fits : tokens b.samples ≤ maxSeqLen
  accepted : ∀ before p after, b.samples = before ++ p :: after → before ≠ [] →
    (⟨before, tokens before⟩ : MicroBatchBin F).canAdd p.2 maxSeqLen p.1 = true

theorem tokens_append (a b : List (Nat × MicroBatch F)) : tokens (a ++ b) = tokens a + tokens b := by
  simp [tokens]

theorem tokens_perm {a b : List (Nat × MicroBatch F)} (h : a.Perm b) : tokens a = tokens b := (h.map _).sum_nat

/-- What an acceptance says: it fits, routed experts like the first, multimodal kwargs like the ones there. -/
theorem canAdd_eq_true {b : MicroBatchBin F} {sample : MicroBatch F} {maxSeqLen loraIdx : Nat}
    (h : b.canAdd sample maxSeqLen loraIdx = true) :
    b.length + sample.inputIds.length ≤ maxSeqLen ∧
      (∀ p, b.samples.head? = some p → p.2.routedExperts.isNone = sample.routedExperts.isNone) ∧
      ∀ dst src, b.firstMultimodal = some dst → sample.mmKwargs = some src → compatibleKwargs dst src = true := by
  unfold MicroBatchBin.canAdd at h
  split at h
  · cases h
  rename_i firstLora first rest hs
  split at h
  · cases h
  rename_i hfits
  split at h
  · cases h
  rename_i hrouted
  refine ⟨by omega, fun p hp => ?_, fun dst src hd hsrc => ?_⟩
  · rw [hs, List.head?_cons, Option.some.injEq] at hp
    subst hp
    exact not_not.1 hrouted
  · rw [hd, hsrc] at h
    exact (Bool.and_eq_true_iff.1 h).2

/-- **Text samples that fit, with routed experts all or none, are in order in any order.** -/
theorem ok_of_text {maxSeqLen : Nat} {samples : List (Nat × MicroBatch F)} {routed : Bool}
    (htext : ∀ p ∈ samples, p.2.mmKwargs = none) (hrouted : ∀ p ∈ samples, p.2.routedExperts.isNone = routed)
    (hfits : tokens samples ≤ maxSeqLen) : (⟨samples, tokens samples⟩ : MicroBatchBin F).Ok maxSeqLen := by
  refine ⟨rfl, hfits, fun before p after hs hne => ?_⟩
  dsimp only at hs
  subst hs
  obtain ⟨⟨lora, first⟩, rest, rfl⟩ := List.exists_cons_of_ne_nil hne
  have hnone : ∀ q ∈ (lora, first) :: rest, q.2.mmKwargs = none := fun q hq => htext q (List.mem_append_left _ hq)
  have hmm : (⟨(lora, first) :: rest, tokens ((lora, first) :: rest)⟩ : MicroBatchBin F).firstMultimodal = none := by
    rw [MicroBatchBin.firstMultimodal, List.findSome?_eq_none_iff]
    exact hnone
  have hfit : ¬ maxSeqLen < tokens ((lora, first) :: rest) + p.2.inputIds.length := by
    rw [tokens_append] at hfits
    have hp : tokens (p :: after) = p.2.inputIds.length + tokens after := by simp [tokens]
    omega
  have hsame : ¬ first.routedExperts.isNone ≠ p.2.routedExperts.isNone := by
    rw [hrouted (lora, first) (by simp), hrouted p (by simp)]
    exact not_not_intro rfl
  unfold MicroBatchBin.canAdd
  rw [hmm, htext p (by simp)]
  dsimp only
  rw [if_neg hfit, if_neg hsame]

/-- Routed experts come with all samples of a bin or with none. -/
theorem MicroBatchBin.Ok.routed {maxSeqLen : Nat} {b : MicroBatchBin F} (hb : b.Ok maxSeqLen) :
    ∀ p ∈ b.samples, ∀ q, b.samples.head? = some q → p.2.routedExperts.isNone = q.2.routedExperts.isNone := by
  intro p hp q hq
  obtain ⟨before, after, hs⟩ := List.append_of_mem hp
  cases before with
  | nil =>
    rw [hs, List.nil_append, List.head?_cons, Option.some.injEq] at hq
    rw [hq]
  | cons r before =>
    rw [hs, List.cons_append, List.head?_cons, Option.some.injEq] at hq
    subst hq
    exact ((canAdd_eq_true (hb.accepted (r :: before) p after hs (List.cons_ne_nil _ _))).2.1 r rfl).symm

theorem fromSample_ok {maxSeqLen : Nat} {p : Nat × MicroBatch F} (hp : p.2.inputIds.length ≤ maxSeqLen) :
    (MicroBatchBin.fromSample p.1 p.2).Ok maxSeqLen := by
  refine ⟨by simp [MicroBatchBin.fromSample, tokens], by simpa [MicroBatchBin.fromSample, tokens] using hp,
    fun before q after hs hne => ?_⟩
  have hlen := congrArg List.length hs
  have hpos := List.length_pos_iff.2 hne
  simp only [MicroBatchBin.fromSample, List.length_append, List.length_cons, List.length_nil] at hlen
  omega

/-- **A bin that accepts a sample stays in order with it.** -/
theorem add_ok {maxSeqLen : Nat} {b : MicroBatchBin F} {p : Nat × MicroBatch F} (hb : b.Ok maxSeqLen)
    (ha : b.canAdd p.2 maxSeqLen p.1 = true) : (b.add p.1 p.2).Ok maxSeqLen := by
  have hone : tokens [(p.1, p.2)] = p.2.inputIds.length := by simp [tokens]
  have hlen := (canAdd_eq_true ha).1
  rw [hb.length] at hlen
  refine ⟨?_, ?_, fun before q after hs hne => ?_⟩
  · rw [MicroBatchBin.add, tokens_append, hone, hb.length]
  · rw [MicroBatchBin.add, tokens_append, hone]
    exact hlen
  · -- the last sample is the accepted one, any other was there
    rcases List.eq_nil_or_concat after with rfl | ⟨after, last, rfl⟩
    · have hs' : b.samples ++ [(p.1, p.2)] = before ++ [q] := hs
      obtain ⟨rfl, hq⟩ := List.append_inj' hs' rfl
      rw [List.cons.injEq] at hq
      obtain ⟨rfl, -⟩ := hq
      rw [← hb.length]
      exact ha
    · rw [List.concat_eq_append] at hs
      have hs' : b.samples ++ [(p.1, p.2)] = (before ++ q :: after) ++ [last] := by
        rw [List.append_assoc]
        exact hs
      exact hb.accepted before q after (List.append_inj' hs' rfl).1 hne

/-! ## Every sample in one bin -/

def contents (bins : List (MicroBatchBin F)) : List (Nat × MicroBatch F) := bins.flatMap MicroBatchBin.samples

/-- **A placed sample is added to what the bins hold, and they stay in order.** -/
theorem placeSample_ok {maxSeqLen : Nat} {p : Nat × MicroBatch F} (hp : p.2.inputIds.length ≤ maxSeqLen) :
    ∀ bins : List (MicroBatchBin F), (∀ b ∈ bins, b.Ok maxSeqLen) →
      (∀ b ∈ placeSample maxSeqLen bins p, b.Ok maxSeqLen) ∧
        (contents (placeSample maxSeqLen bins p)).Perm (p :: contents bins)
  | [], _ => by
    rw [placeSample]
    exact ⟨fun b hb => List.mem_singleton.1 hb ▸ fromSample_ok hp, List.Perm.refl _⟩
  | b :: bins, hok => by
    rw [placeSample]
    split
    · rename_i ha
      refine ⟨fun c hc => ?_, ?_⟩
      · rcases List.mem_cons.1 hc with rfl | hc
        · exact add_ok (hok b List.mem_cons_self) ha
        · exact hok c (List.mem_cons_of_mem b hc)
      · rw [contents, contents, List.flatMap_cons, List.flatMap_cons, MicroBatchBin.add, List.append_assoc]
        exact List.perm_middle
    · obtain ⟨ih, hperm⟩ := placeSample_ok hp bins fun c hc => hok c (List.mem_cons_of_mem b hc)
      refine ⟨fun c hc => ?_, ?_⟩
      · rcases List.mem_cons.1 hc with rfl | hc
        · exact hok c List.mem_cons_self
        · exact ih c hc
      · rw [contents, contents, List.flatMap_cons, List.flatMap_cons]
        exact (hperm.append_left _).trans List.perm_middle

theorem placeSamples_ok {maxSeqLen : Nat} : ∀ (samples : List (Nat × MicroBatch F)) (bins : List (MicroBatchBin F)),
    (∀ p ∈ samples, p.2.inputIds.length ≤ maxSeqLen) → (∀ b ∈ bins, b.Ok maxSeqLen) →
      (∀ b ∈ samples.foldl (placeSample maxSeqLen) bins, b.Ok maxSeqLen) ∧
        (contents (samples.foldl (placeSample maxSeqLen) bins)).Perm (samples ++ contents bins)
  | [], bins, _, hok => ⟨hok, List.Perm.refl _⟩
  | p :: samples, bins, hfit, hok => by
    obtain ⟨hok', hperm⟩ := placeSample_ok (hfit p List.mem_cons_self) bins hok
    obtain ⟨hall, hperm'⟩ := placeSamples_ok samples (placeSample maxSeqLen bins p)
      (fun q hq => hfit q (List.mem_cons_of_mem p hq)) hok'
    exact ⟨hall, hperm'.trans ((hperm.append_left samples).trans List.perm_middle)⟩

/-- **First fit puts every sample in one bin, and the bins are in order.** -/
theorem firstFit_ok {maxSeqLen : Nat} {samples : List (Nat × MicroBatch F)}
    (hfit : ∀ p ∈ samples, p.2.inputIds.length ≤ maxSeqLen) :
    (∀ b ∈ firstFit samples maxSeqLen, b.Ok maxSeqLen) ∧ (contents (firstFit samples maxSeqLen)).Perm samples := by
  have hsort : (sortSamples samples).Perm samples := List.perm_insertionSort _ samples
  obtain ⟨hok, hperm⟩ := placeSamples_ok (sortSamples samples) [] (fun p hp => hfit p (hsort.mem_iff.1 hp))
    (fun b hb => by cases hb)
  refine ⟨hok, hperm.trans ?_⟩
  rw [contents, List.flatMap_nil, List.append_nil]
  exact hsort

/-! ## Splitting -/

theorem sides_perm (binCost : List Nat → Nat) : ∀ (samples : List (Nat × MicroBatch F)) (s : Sides F),
    ((samples.foldl (Sides.place binCost) s).left ++ (samples.foldl (Sides.place binCost) s).right).Perm
      (samples ++ (s.left ++ s.right))
  | [], s => List.Perm.refl _
  | p :: samples, s => by
    rw [List.foldl_cons]
    refine (sides_perm binCost samples _).trans ?_
    refine ((List.Perm.append_left samples ?_).trans List.perm_middle)
    unfold Sides.place
    dsimp only
    split
    · dsimp only
      rw [List.append_assoc]
      exact List.perm_middle
    · dsimp only
      rw [← List.append_assoc]
      exact List.perm_append_singleton p _

/-- **A split keeps every sample of the bin.** -/
theorem splitByWorkload_perm (b : MicroBatchBin F) (binCost : List Nat → Nat) :
    ((b.splitByWorkload binCost).1.samples ++ (b.splitByWorkload binCost).2.samples).Perm b.samples := by
  have h := sides_perm binCost (b.samples.insertionSort fun p q =>
    binCost [q.2.inputIds.length] ≤ binCost [p.2.inputIds.length]) ⟨[], [], 0, 0⟩
  rw [List.append_nil, List.append_nil] at h
  exact h.trans (List.perm_insertionSort _ b.samples)

/-- **The sides of a text bin are in order.** -/
theorem splitByWorkload_ok {maxSeqLen : Nat} {b : MicroBatchBin F} (binCost : List Nat → Nat) (hb : b.Ok maxSeqLen)
    (htext : b.firstMultimodal = none) :
    (b.splitByWorkload binCost).1.Ok maxSeqLen ∧ (b.splitByWorkload binCost).2.Ok maxSeqLen := by
  have hperm := splitByWorkload_perm b binCost
  have hsum := tokens_perm hperm
  rw [tokens_append] at hsum
  have hfits := hb.fits
  rw [MicroBatchBin.firstMultimodal, List.findSome?_eq_none_iff] at htext
  have hrouted : ∃ routed, ∀ p ∈ b.samples, p.2.routedExperts.isNone = routed := by
    cases hs : b.samples with
    | nil => exact ⟨true, by simp⟩
    | cons q rest => exact ⟨q.2.routedExperts.isNone, fun p hp => hb.routed p (hs ▸ hp) q (by rw [hs]; rfl)⟩
  obtain ⟨routed, hrouted⟩ := hrouted
  have hleft : tokens (b.splitByWorkload binCost).1.samples ≤ maxSeqLen := by omega
  have hright : tokens (b.splitByWorkload binCost).2.samples ≤ maxSeqLen := by omega
  exact ⟨ok_of_text (fun p hp => htext p (hperm.mem_iff.1 (List.mem_append_left _ hp)))
      (fun p hp => hrouted p (hperm.mem_iff.1 (List.mem_append_left _ hp))) hleft,
    ok_of_text (fun p hp => htext p (hperm.mem_iff.1 (List.mem_append_right _ hp)))
      (fun p hp => hrouted p (hperm.mem_iff.1 (List.mem_append_right _ hp))) hright⟩

theorem heaviest_mem : ∀ {cs : List (Nat × Nat)} {c : Nat × Nat}, heaviest cs = some c → c ∈ cs
  | [], c, h => by cases h
  | d :: cs, c, h => by
    rw [heaviest] at h
    cases hcs : heaviest cs with
    | none =>
      rw [hcs, Option.some.injEq] at h
      exact h ▸ List.mem_cons_self
    | some e =>
      rw [hcs] at h
      dsimp only at h
      split at h
      · cases h
        exact List.mem_cons_of_mem d (heaviest_mem hcs)
      · cases h
        exact List.mem_cons_self

theorem candidate_text {binCost : List Nat → Nat} {bins : List (MicroBatchBin F)} {c : Nat × Nat}
    {b : MicroBatchBin F} (hc : c ∈ splitCandidates binCost bins) (hb : bins[c.2]? = some b) :
    b.firstMultimodal = none := by
  obtain ⟨⟨b', idx⟩, hmem, rfl⟩ := List.mem_map.1 hc
  obtain ⟨hzip, htext⟩ := List.mem_filter.1 hmem
  have hidx := List.mk_mem_zipIdx_iff_getElem?.1 hzip
  rw [hidx, Option.some.injEq] at hb
  subst hb
  simpa using (Bool.and_eq_true_iff.1 htext).2

theorem contents_set {bins : List (MicroBatchBin F)} {idx : Nat} {b c d : MicroBatchBin F}
    (hb : bins[idx]? = some b) (hperm : (c.samples ++ d.samples).Perm b.samples) :
    (contents (bins.set idx c ++ [d])).Perm (contents bins) := by
  obtain ⟨hlt, rfl⟩ := List.getElem?_eq_some_iff.1 hb
  have hset : bins.set idx c = bins.take idx ++ c :: bins.drop (idx + 1) := List.set_eq_take_append_cons_drop ▸ if_pos hlt
  have hbins : bins = bins.take idx ++ bins[idx] :: bins.drop (idx + 1) := by
    rw [← List.drop_eq_getElem_cons hlt, List.take_append_drop]
  have hsplit : contents bins = contents (bins.take idx) ++ (bins[idx].samples ++ contents (bins.drop (idx + 1))) := by
    conv_lhs => rw [hbins]
    rw [contents, List.flatMap_append, List.flatMap_cons]
    rfl
  rw [hsplit, contents, List.flatMap_append, hset, List.flatMap_append, List.flatMap_cons, List.flatMap_singleton,
    List.append_assoc]
  refine List.Perm.append_left _ ?_
  rw [List.append_assoc]
  refine (List.Perm.append_left _ List.perm_append_comm).trans ?_
  rw [← List.append_assoc]
  exact hperm.append_right _

/-- **Splitting keeps every sample in one bin, and the bins in order.** -/
theorem splitRounds_ok {maxSeqLen : Nat} (binCost : List Nat → Nat) : ∀ (n : Nat) (bins : List (MicroBatchBin F)),
    (∀ b ∈ bins, b.Ok maxSeqLen) → (∀ b ∈ splitRounds binCost n bins, b.Ok maxSeqLen) ∧
      (contents (splitRounds binCost n bins)).Perm (contents bins) ∧ bins.length ≤ (splitRounds binCost n bins).length
  | 0, bins, hok => ⟨hok, List.Perm.refl _, le_rfl⟩
  | n + 1, bins, hok => by
    rw [splitRounds]
    split
    · exact ⟨hok, List.Perm.refl _, le_rfl⟩
    · rename_i idx b hc
      simp only [Option.bind_eq_some_iff, Option.map_eq_some_iff, Prod.mk.injEq] at hc
      obtain ⟨c, hheavy, b', hb, rfl, rfl⟩ := hc
      obtain ⟨hleft, hright⟩ := splitByWorkload_ok binCost (hok b' (List.mem_of_getElem? hb))
        (candidate_text (heaviest_mem hheavy) hb)
      obtain ⟨hall, hperm, hlen⟩ := splitRounds_ok binCost n
        (bins.set c.2 (b'.splitByWorkload binCost).1 ++ [(b'.splitByWorkload binCost).2]) (fun d hd => by
          rcases List.mem_append.1 hd with hd | hd
          · rcases List.mem_or_eq_of_mem_set hd with hd | rfl
            · exact hok d hd
            · exact hleft
          · exact List.mem_singleton.1 hd ▸ hright)
      refine ⟨hall, hperm.trans (contents_set hb (splitByWorkload_perm b' binCost)), ?_⟩
      rw [List.length_append, List.length_set] at hlen
      omega

/-- **The packed bins are in order and hold every sample once.** -/
theorem packBins_ok {maxSeqLen numTrainWorkers : Nat} {samples : List (Nat × MicroBatch F)} {binCost : List Nat → Nat}
    (hfit : ∀ p ∈ samples, p.2.inputIds.length ≤ maxSeqLen) :
    (∀ b ∈ packBins samples maxSeqLen numTrainWorkers binCost, b.Ok maxSeqLen) ∧
      (contents (packBins samples maxSeqLen numTrainWorkers binCost)).Perm samples := by
  obtain ⟨hok, hperm⟩ := firstFit_ok hfit
  unfold packBins
  dsimp only
  split
  · obtain ⟨hall, hperm', -⟩ := splitRounds_ok binCost (max (((firstFit samples maxSeqLen).length + numTrainWorkers - 1) /
      numTrainWorkers * numTrainWorkers) numTrainWorkers - (firstFit samples maxSeqLen).length) _ hok
    exact ⟨hall, hperm'.trans hperm⟩
  · exact ⟨hok, hperm⟩

end Batch
end Aether
