import AetherRl.LossCounts
/-!
# LossPacking — when the loss of a step does not depend on the packing

What each sample brings to the loss is the same in every packing.  The normalizers and the losses are the samples' own
exactly where no bin has two samples with trained rl tokens, and every micro-batch can be split and has the references it
needs.
-/
namespace Aether
namespace Loss

open Checked Batch

variable {K : Type} [Field K] [LinearOrder K]

/-! ## The loss of a bin -/

/-- A bin whose micro-batch is counted and split like its samples. -/
structure FairBin (pad : Nat) (b : MicroBatchBin K) : Prop where
  nonempty : b.samples ≠ []
  split : ¬ (tokens b.samples = 1 ∧ pad = 1)
  oneTrained : (b.samples.map fun p => sampleSequences p.2).sum ≤ 1
  references : (∃ p ∈ b.samples, 0 < refKlTokens p.2) → ∃ p ∈ b.samples, p.2.refLogprobs.isSome

instance (pad : Nat) (b : MicroBatchBin K) : Decidable (FairBin pad b) :=
  decidable_of_iff (b.samples ≠ [] ∧ ¬ (tokens b.samples = 1 ∧ pad = 1) ∧
    (b.samples.map fun p => sampleSequences p.2).sum ≤ 1 ∧
    ((∃ p ∈ b.samples, 0 < refKlTokens p.2) → ∃ p ∈ b.samples, p.2.refLogprobs.isSome))
    ⟨fun ⟨h₁, h₂, h₃, h₄⟩ => ⟨h₁, h₂, h₃, h₄⟩, fun ⟨h₁, h₂, h₃, h₄⟩ => ⟨h₁, h₂, h₃, h₄⟩⟩

section
variable {np : Numpy} {samples : List (MicroBatch K)} {padding : Nat} {m : MicroBatch K} {trainer : List K}

/-- A token of the micro-batch is in the ref_kl component where one of a sample is. -/
theorem refKl_packs (h : Packs np samples padding m) (hs : ∀ s ∈ samples, Aligned s)
    (ht : trainer.length = m.inputIds.length) :
    (∃ t ∈ microBatchTokens samples padding m trainer, t.refKl ≠ 0) ↔ ∃ s ∈ samples, 0 < refKlTokens s := by
  have hcount := count_packs refKlTokens_counts h hs
  rw [refKlTokens_counts.tokens (microBatchTokens_describes h hs ht)] at hcount
  have hpos : (∃ t ∈ microBatchTokens samples padding m trainer, t.refKl ≠ 0) ↔ 0 < (samples.map refKlTokens).sum := by
    rw [← hcount, List.countP_pos_iff]
    simp only [decide_eq_true_eq]
  rw [hpos, List.sum_pos_iff_exists_pos_nat]
  constructor
  · rintro ⟨n, hn, hlt⟩
    obtain ⟨s, hs', rfl⟩ := List.mem_map.1 hn
    exact ⟨s, hs', hlt⟩
  · rintro ⟨s, hs', hlt⟩
    exact ⟨refKlTokens s, List.mem_map_of_mem hs', hlt⟩

omit [LinearOrder K] in
theorem refLogprobs_packs (h : Packs np samples padding m) :
    m.refLogprobs.isSome ↔ ∃ s ∈ samples, s.refLogprobs.isSome := by
  rw [h.refLogprobs, Option.isSome_map, backfill]
  split
  · rename_i hany
    exact ⟨fun _ => List.any_eq_true.1 hany, fun _ => rfl⟩
  · rename_i hany
    exact ⟨fun hnone => (Bool.false_ne_true hnone).elim, fun hsome => absurd (List.any_eq_true.2 hsome) hany⟩

end

/-- What a bin's micro-batch has to be for its loss to be computed. -/
structure Splits (b : MicroBatchBin K) (m : MicroBatch K) : Prop where
  nonempty : b.samples ≠ []
  length : m.inputIds.length ≠ 1
  references : (∃ p ∈ b.samples, 0 < refKlTokens p.2) → ∃ p ∈ b.samples, p.2.refLogprobs.isSome

section
variable {np : Numpy} {b : MicroBatchBin K} {padding : Nat} {m : MicroBatch K} {exp : K → K} {config : LossConfig K}
  {scales : Scales} {trainer : MicroBatch K → List K}

theorem lastPlus_eq_nil {n : Nat} : ∀ {l : List Nat}, lastPlus n l = [] ↔ l = []
  | [] => Iff.rfl
  | [_] => by simp [lastPlus]
  | _ :: _ :: _ => by simp [lastPlus]

/-- **The loss of a bin's micro-batch is the sum of its samples' losses, where it can be computed.** -/
theorem binLoss_eq {own : MicroBatch K → Nat → K} (h : Packs np (b.samples.map Prod.snd) padding m)
    (hs : ∀ s ∈ b.samples.map Prod.snd, Aligned s) (hm : Aligned m) (hsplits : Splits b m)
    (ht : Agrees own (b.samples.map Prod.snd) m (trainer m)) :
    microBatchLoss exp config scales trainer m =
      .ok (b.samples.map fun p => sampleLoss exp config scales own p.2).sum := by
  have hseq : m.sequenceLengths ≠ [] := by
    rw [h.sequenceLengths, ne_eq, lastPlus_eq_nil, List.map_eq_nil_iff, List.map_eq_nil_iff]
    exact hsplits.nonempty
  rw [microBatchLoss_eq hm ht.length (microBatchTokens_describes h hs ht.length) hsplits.length hseq fun hkl => ?_,
    microBatchTokens_loss ht, List.map_map]
  · rfl
  · obtain ⟨s, hs', hpos⟩ := (refKl_packs h hs ht.length).1 hkl
    obtain ⟨p, hp, rfl⟩ := List.mem_map.1 hs'
    obtain ⟨q, hq, hsome⟩ := hsplits.references ⟨p, hp, hpos⟩
    exact (refLogprobs_packs h).2 ⟨q.2, List.mem_map_of_mem hq, hsome⟩

/-- Where it is computed, it can be. -/
theorem splits_of_loss {k : K} (h : Packs np (b.samples.map Prod.snd) padding m)
    (hs : ∀ s ∈ b.samples.map Prod.snd, Aligned s) (hm : Aligned m) (ht : (trainer m).length = m.inputIds.length)
    (hok : microBatchLoss exp config scales trainer m = .ok k) : Splits b m := by
  obtain ⟨hlen, hseq, hkl⟩ := of_microBatchLoss hm ht (microBatchTokens_describes h hs ht) hok
  refine ⟨fun hnil => hseq ?_, hlen, fun ⟨p, hp, hpos⟩ => ?_⟩
  · rw [h.sequenceLengths, hnil]
    rfl
  · have hsome := hkl ((refKl_packs h hs ht).2 ⟨p.2, List.mem_map_of_mem hp, hpos⟩)
    obtain ⟨s, hs', href⟩ := (refLogprobs_packs h).1 hsome
    obtain ⟨q, hq, rfl⟩ := List.mem_map.1 hs'
    exact ⟨q, hq, href⟩

/-- **A dummy adds nothing**: none of its tokens is in a component. -/
theorem dummyLoss_eq (hm : Aligned m) (hlen : m.inputIds.length ≠ 1) (hseq : m.sequenceLengths ≠ [])
    (ht : (trainer (makeDummyBatch m)).length = (makeDummyBatch m).inputIds.length) :
    microBatchLoss exp config scales trainer (makeDummyBatch m) = .ok 0 := by
  have hd : Aligned (makeDummyBatch m) := makeDummyBatch_aligned hm
  have hts := sampleTokens_describes hd fun k => (trainer (makeDummyBatch m)).getD k 0
  rw [map_getD ht] at hts
  have hnone : ∀ t ∈ sampleTokens (makeDummyBatch m) fun k => (trainer (makeDummyBatch m)).getD k 0,
      t.mask = false ∧ t.ce = 0 ∧ t.refKl = 0 := by
    intro t htok
    obtain ⟨k, hk, rfl⟩ := List.mem_map.1 htok
    refine ⟨?_, rfl, rfl⟩
    show (List.replicate m.inputIds.length false).getD k false = false
    rw [List.getD_replicate]
    exact List.mem_range.1 hk
  rw [microBatchLoss_eq hd ht hts hlen hseq fun ⟨t, htok, hne⟩ => absurd (hnone t htok).2.2 hne, tokensLoss,
    sum_map_zero fun t htok => by rw [Token.rlTerm, (hnone t htok).1, tokenLoss_false, zero_mul],
    sum_map_zero fun t htok => by rw [Token.ceTerm, (hnone t htok).2.1, mul_zero],
    sum_map_zero fun t htok => by rw [Token.refKlTerm, (hnone t htok).2.2, mul_zero]]
  simp [Losses.scaled]

end

/-! ## The whole step -/

/-- The counts over the samples, each counted by every context-parallel rank. -/
def sampleCounts (cp : Nat) (prepared : List (MicroBatch K)) : Counts :=
  ⟨cp * (prepared.map rlTokens).sum, cp * (prepared.map ceTokens).sum, cp * (prepared.map refKlTokens).sum,
    cp * (prepared.map sampleSequences).sum⟩

/-- The loss of the samples, by their own counts. -/
def samplesLoss (exp : K → K) (config : LossConfig K) (cp : Nat) (own : MicroBatch K → Nat → K)
    (prepared : List (MicroBatch K)) : Except Error K := do
  let scales ← lossScales config cp (sampleCounts cp prepared)
  .ok (prepared.map (sampleLoss exp config scales own)).sum

/-- The trainer's log-probabilities of all micro-batches: the samples' own, where a component trains them. -/
structure TrainerAgrees (own : MicroBatch K → Nat → K) (bins : List (MicroBatchBin K))
    (packed : List (MicroBatch K × Nat)) (dummies : List (MicroBatch K)) (trainer : MicroBatch K → List K) : Prop where
  packed : List.Forall₂ (fun b p => Agrees own (b.samples.map Prod.snd) p.1 (trainer p.1)) bins packed
  dummies : ∀ d ∈ dummies, (trainer d).length = d.inputIds.length

/-- **The loss inputs of a step do not depend on the packing**: the samples' arrays are conserved, dummies are in no
component, the normalizers are the samples' counts, and the losses add up to that of the samples. -/
structure InvariantBy (np : Numpy) (seqLen pad cp : Nat) (samples : List (Nat × MicroBatch K))
    (grid : List (List (MicroBatch K))) (bins : List (MicroBatchBin K)) (packed : List (MicroBatch K × Nat))
    (dummies : List (MicroBatch K)) : Prop where
  packing : PackedBy np seqLen pad samples grid bins packed dummies
  conserved : ConservedBy np seqLen pad (samples.map Prod.snd) grid bins packed dummies
  unweighted : ∀ d ∈ dummies, rlTokens d = 0 ∧ ceTokens d = 0 ∧ refKlTokens d = 0
  counts : globalScales cp grid = sampleCounts cp (samples.map Prod.snd)
  loss : ∀ exp config own trainer, TrainerAgrees own bins packed dummies trainer → ∃ total,
    totalLoss exp config cp trainer grid = .ok total ∧
      samplesLoss exp config cp own (samples.map Prod.snd) = .ok total

omit [Field K] [LinearOrder K] in
theorem lossScales_ok {config : LossConfig K} {cp : Nat} {counts : Counts} (hcp : 0 < cp)
    (hdvd : counts.rlSequences % cp = 0) : ∃ scales, lossScales config cp counts = .ok scales := by
  have hscale : ∃ n, rlNormalizationScale config counts.rl counts.rlSequences cp = .ok n := by
    unfold rlNormalizationScale
    split
    · rw [if_neg (by omega)]
      exact ⟨_, rfl⟩
    · exact ⟨_, rfl⟩
  obtain ⟨n, hn⟩ := hscale
  exact ⟨_, by rw [lossScales, hn, ok_bind]⟩

section
variable {np : Numpy} {seqLen pad cp : Nat} {samples : List (Nat × MicroBatch K)} {grid : List (List (MicroBatch K))}
  {bins : List (MicroBatchBin K)} {packed : List (MicroBatch K × Nat)} {dummies : List (MicroBatch K)}

omit [Field K] [LinearOrder K] in
/-- Samples summed bin by bin. -/
theorem sum_bins {N : Type} [AddCommMonoid N] {g : MicroBatch K × Nat → N} {f : MicroBatch K → N}
    {bins : List (MicroBatchBin K)} {packed : List (MicroBatch K × Nat)}
    (hbins : List.Forall₂ (fun b p => g p = (b.samples.map fun q => f q.2).sum) bins packed) :
    (packed.map g).sum = ((contents bins).map fun q => f q.2).sum := by
  induction hbins with
  | nil => rfl
  | cons h hs ih =>
    rw [List.map_cons, List.sum_cons, h, ih, contents, contents, List.flatMap_cons, List.map_append, List.sum_append]

omit [LinearOrder K] in
/-- **The tokens of all workers are counted like those of the samples.** -/
theorem allReduce_samples {count : MicroBatch K → Nat} {p : Token K → Bool} (hc : CountsTokens count p)
    (h : PackedBy np seqLen pad samples grid bins packed dummies) (hs : ∀ p ∈ samples, Aligned p.2) :
    allReduce cp grid count = cp * ((samples.map Prod.snd).map count).sum := by
  have hcount : List.Forall₂ (fun b p => count p.1 = (b.samples.map fun q => count q.2).sum) bins packed :=
    ((List.forall₂_and_left bins packed).2 ⟨h.aligned hs, h.packs⟩).imp fun b p ⟨ha, hp⟩ => by
      rw [count_packs hc hp ha, List.map_map]
      rfl
  rw [allReduce_packed h hc.dummy, sum_bins hcount, ((h.contents.map _).sum_nat), List.map_map]
  rfl

/-- **The rl sequences are counted like those of the samples exactly where no bin has two.** -/
theorem rlSequences_iff (hcp : 0 < cp) (h : PackedBy np seqLen pad samples grid bins packed dummies)
    (hs : ∀ p ∈ samples, Aligned p.2) :
    allReduce cp grid rlSequences = cp * ((samples.map Prod.snd).map sampleSequences).sum ↔
      ∀ b ∈ bins, (b.samples.map fun p => sampleSequences p.2).sum ≤ 1 := by
  have hcount : List.Forall₂ (fun b p => rlSequences p.1 = min 1 (b.samples.map fun q => sampleSequences q.2).sum)
      bins packed := by
    have hpacked : ∀ p ∈ packed, Aligned p.1 := h.packed_aligned hs
    have hboth := (List.forall₂_and_left bins packed).2 ⟨h.aligned hs, h.packs⟩
    refine List.forall₂_iff_zip.2 ⟨hboth.length_eq, fun {b p} hmem => ?_⟩
    obtain ⟨ha, hp⟩ := (List.forall₂_iff_zip.1 hboth).2 hmem
    rw [rlSequences_packs hp ha (hpacked p (List.of_mem_zip hmem).2), List.map_map]
    rfl
  -- once for each bin, against the sum of each
  have hleft : (packed.map fun p => rlSequences p.1).sum =
      ((bins.map fun b => (b.samples.map fun q => sampleSequences q.2).sum).map (min 1)).sum := by
    clear h
    induction hcount with
    | nil => rfl
    | cons hp _ ih => rw [List.map_cons, List.map_cons, List.map_cons, List.sum_cons, List.sum_cons, hp, ih]
  have hright : ((samples.map Prod.snd).map sampleSequences).sum =
      (bins.map fun b => (b.samples.map fun q => sampleSequences q.2).sum).sum := by
    rw [List.map_map, ← (h.contents.map _).sum_nat, contents]
    clear h hcount hleft
    induction bins with
    | nil => rfl
    | cons b bins ih =>
      rw [List.flatMap_cons, List.map_append, List.sum_append, ih, List.map_cons, List.sum_cons]
      rfl
  rw [allReduce_packed h rlSequences_dummy, hleft, hright, Nat.mul_left_cancel_iff hcp, sum_min_one]
  exact List.forall_mem_map

omit [LinearOrder K] in
/-- A micro-batch has one token only where its samples have, and nothing is padded. -/
theorem length_ne_one_iff {b : MicroBatchBin K} {p : MicroBatch K × Nat}
    (h : Packs np (b.samples.map Prod.snd) p.2 p.1) (hp : p.2 < pad ∧ p.1.inputIds.length % pad = 0) :
    p.1.inputIds.length ≠ 1 ↔ ¬ (tokens b.samples = 1 ∧ pad = 1) := by
  have hlen : p.1.inputIds.length = tokens b.samples + p.2 := by
    rw [h.inputIds, List.length_append, length_flatMap_of fun _ _ => rfl, List.length_replicate, List.map_map]
    rfl
  have hone : p.1.inputIds.length = 1 → pad = 1 := fun h => by
    by_contra hne
    have hmod := hp.2
    rw [h, Nat.mod_eq_of_lt (by omega)] at hmod
    cases hmod
  omega

/-- A fair bin's micro-batch can be split. -/
theorem FairBin.splits {b : MicroBatchBin K} {p : MicroBatch K × Nat} (hb : FairBin pad b)
    (h : Packs np (b.samples.map Prod.snd) p.2 p.1) (hp : p.2 < pad ∧ p.1.inputIds.length % pad = 0) :
    Splits b p.1 :=
  ⟨hb.nonempty, (length_ne_one_iff h hp).2 hb.split, hb.references⟩

/-- **With fair bins the losses of all micro-batches add up to that of the samples.** -/
theorem losses_sum {exp : K → K} {config : LossConfig K} {scales : Scales} {own : MicroBatch K → Nat → K}
    {trainer : MicroBatch K → List K} (h : PackedBy np seqLen pad samples grid bins packed dummies)
    (hs : ∀ p ∈ samples, Aligned p.2) (hfair : ∀ b ∈ bins, FairBin pad b)
    (ht : TrainerAgrees own bins packed dummies trainer) : ∃ losses,
      grid.flatten.mapM (microBatchLoss exp config scales trainer) = .ok losses ∧
        losses.sum = ((samples.map Prod.snd).map (sampleLoss exp config scales own)).sum := by
  have hpacked := h.packed_aligned hs
  have hbin : ∀ b p, (b, p) ∈ bins.zip packed → Packs np (b.samples.map Prod.snd) p.2 p.1 ∧ Splits b p.1 ∧
      microBatchLoss exp config scales trainer p.1 =
        .ok (b.samples.map fun q => sampleLoss exp config scales own q.2).sum := by
    intro b p hmem
    have hp := (List.forall₂_iff_zip.1 h.packs).2 hmem
    have hb := (List.of_mem_zip hmem).1
    have hsplits := (hfair b hb).splits hp (h.padding p (List.of_mem_zip hmem).2)
    exact ⟨hp, hsplits, binLoss_eq hp (h.aligned hs b hb) (hpacked p (List.of_mem_zip hmem).2) hsplits
      ((List.forall₂_iff_zip.1 ht.packed).2 hmem)⟩
  have hpair : ∀ p ∈ packed, ∃ b, (b, p) ∈ bins.zip packed := by
    intro p hp
    obtain ⟨i, hi, rfl⟩ := List.mem_iff_getElem.1 hp
    have hi' : i < bins.length := h.packs.length_eq ▸ hi
    exact ⟨bins[i], by rw [← List.getElem_zip (h := by rw [List.length_zip]; omega)]; exact List.getElem_mem _⟩
  have hdummy : ∀ d ∈ dummies, microBatchLoss exp config scales trainer d = .ok 0 := by
    intro d hd
    obtain ⟨p, hp, rfl⟩ := h.dummy d hd
    obtain ⟨b, hmem⟩ := hpair p hp
    obtain ⟨hpacks, hsplits, -⟩ := hbin b p hmem
    refine dummyLoss_eq (hpacked p hp) hsplits.length ?_ (ht.dummies _ hd)
    rw [hpacks.sequenceLengths, ne_eq, lastPlus_eq_nil, List.map_eq_nil_iff, List.map_eq_nil_iff]
    exact hsplits.nonempty
  have hreturns : ∀ m ∈ grid.flatten, ∃ k, microBatchLoss exp config scales trainer m = .ok k := by
    intro m hm
    rcases List.mem_append.1 (h.distributed.mem_iff.1 hm) with hm | hm
    · obtain ⟨p, hp, rfl⟩ := List.mem_map.1 hm
      obtain ⟨b, hmem⟩ := hpair p hp
      exact ⟨_, (hbin b p hmem).2.2⟩
    · exact ⟨0, hdummy m hm⟩
  obtain ⟨value, hvalue⟩ : ∃ value : MicroBatch K → K, ∀ m ∈ grid.flatten,
      microBatchLoss exp config scales trainer m = .ok (value m) := by
    refine ⟨fun m => (microBatchLoss exp config scales trainer m).toOption.getD 0, fun m hm => ?_⟩
    obtain ⟨k, hk⟩ := hreturns m hm
    dsimp only
    rw [hk]
    rfl
  have hgrid : ∀ m ∈ packed.map Prod.fst ++ dummies, microBatchLoss exp config scales trainer m = .ok (value m) :=
    fun m hm => hvalue m (h.distributed.mem_iff.2 hm)
  have hzero : (dummies.map value).sum = 0 := sum_map_zero fun d hd =>
    Except.ok.inj ((hgrid d (List.mem_append_right _ hd)).symm.trans (hdummy d hd))
  have hsum : List.Forall₂ (fun b p => value p.1 = (b.samples.map fun q => sampleLoss exp config scales own q.2).sum)
      bins packed := List.forall₂_iff_zip.2 ⟨h.packs.length_eq, fun {b p} hmem => Except.ok.inj
        ((hgrid p.1 (List.mem_append_left _ (List.mem_map_of_mem (List.of_mem_zip hmem).2))).symm.trans
          (hbin b p hmem).2.2)⟩
  refine ⟨_, mapM_of_forall hvalue, ?_⟩
  rw [(h.distributed.map value).sum_eq, List.map_append, List.sum_append, hzero, add_zero, List.map_map, List.map_map]
  exact (sum_bins hsum).trans (h.contents.map _).sum_eq

/-- **The loss inputs of a packing do not depend on it, where its bins are fair.** -/
theorem invariantBy_of_fair (hcp : 0 < cp) (h : PackedBy np seqLen pad samples grid bins packed dummies)
    (hs : ∀ p ∈ samples, Aligned p.2) (hfair : ∀ b ∈ bins, FairBin pad b) :
    InvariantBy np seqLen pad cp samples grid bins packed dummies := by
  have hcounts : globalScales cp grid = sampleCounts cp (samples.map Prod.snd) := by
    rw [globalScales, sampleCounts, allReduce_samples rlTokens_counts h hs, allReduce_samples ceTokens_counts h hs,
      allReduce_samples refKlTokens_counts h hs, (rlSequences_iff hcp h hs).2 fun b hb => (hfair b hb).oneTrained]
  refine ⟨h, h.conserves hs, fun d hd => ?_, hcounts, fun exp config own trainer ht => ?_⟩
  · obtain ⟨p, -, rfl⟩ := h.dummy d hd
    exact ⟨rlTokens_counts.dummy p.1, ceTokens_counts.dummy p.1, refKlTokens_counts.dummy p.1⟩
  · obtain ⟨scales, hscales⟩ : ∃ scales, lossScales config cp (sampleCounts cp (samples.map Prod.snd)) = .ok scales :=
      lossScales_ok hcp (Nat.mul_mod_right cp _)
    obtain ⟨losses, hlosses, hsum⟩ := losses_sum h hs hfair ht
    exact ⟨losses.sum, by rw [totalLoss, hcounts, hscales, ok_bind, hlosses, ok_bind],
      by rw [samplesLoss, hscales, ok_bind, hsum]⟩

/-- A trainer that finds every token certain. -/
def zeros (m : MicroBatch K) : List K := List.replicate m.inputIds.length 0

omit [LinearOrder K] in
theorem zeros_agrees {samples : List (MicroBatch K)} {padding : Nat} {m : MicroBatch K}
    (h : Packs np samples padding m) : Agrees (fun _ _ => 0) samples m (zeros m) := by
  refine ⟨List.length_replicate, fun before s after hall k hk _ => ?_⟩
  have hlen : m.inputIds.length = lens samples + padding := by
    rw [h.inputIds, List.length_append, length_flatMap_of fun _ _ => rfl, List.length_replicate]
    rfl
  have hlens : lens samples = lens before + (s.inputIds.length + lens after) := by simp [lens, hall]
  rw [zeros, List.getElem?_replicate_of_lt (by omega)]

/-- **Where they do not depend on the packing, its bins are fair.** -/
theorem fair_of_invariantBy (hcp : 0 < cp) (h : PackedBy np seqLen pad samples grid bins packed dummies)
    (hs : ∀ p ∈ samples, Aligned p.2) (hcounts : globalScales cp grid = sampleCounts cp (samples.map Prod.snd))
    (hloss : ∀ m ∈ grid.flatten, ∃ exp config scales k, microBatchLoss exp config scales zeros m = .ok k) :
    ∀ b ∈ bins, FairBin pad b := by
  have htrained := (rlSequences_iff hcp h hs).1 (congrArg Counts.rlSequences hcounts)
  intro b hb
  obtain ⟨p, hp, hpacks⟩ := forall₂_mem_left h.packs b hb
  have hgrid : p.1 ∈ grid.flatten :=
    h.distributed.mem_iff.2 (List.mem_append_left _ (List.mem_map_of_mem hp))
  obtain ⟨exp, config, scales, k, hk⟩ := hloss p.1 hgrid
  have hsplits := splits_of_loss hpacks (h.aligned hs b hb) (h.packed_aligned hs p hp) List.length_replicate hk
  exact ⟨hsplits.nonempty, (length_ne_one_iff hpacks (h.padding p hp)).1 hsplits.length, htrained b hb,
    hsplits.references⟩

end

/-! ## prepare_batch -/

/-- One way to pack: for so many workers, to so many tokens, padded, and balanced by a cost. -/
structure Choice where
  seqLen : Nat
  numTrainWorkers : Nat
  padToMultipleOf : Nat
  binCost : List Nat → Nat

/-- **The loss inputs that this choice makes of the rollouts are the prepared samples'**, and so do not depend on it. -/
def Invariant (np : Numpy) (rollouts : List (TrainingSample K)) (idxs : List Nat) (numLoras cp : Nat)
    (prepared : List (MicroBatch K)) (c : Choice) : Prop :=
  ∃ grid bins packed dummies,
    prepareBatch np rollouts c.seqLen c.numTrainWorkers idxs numLoras c.binCost c.padToMultipleOf = .ok grid ∧
      InvariantBy np c.seqLen c.padToMultipleOf cp (idxs.zip prepared) grid bins packed dummies

/-- The bins that first fit and splitting make of the prepared samples are fair, and their routed experts agree. -/
def FairBins (idxs : List Nat) (prepared : List (MicroBatch K)) (c : Choice) : Prop :=
  BinsAlike (packBins (idxs.zip prepared) c.seqLen c.numTrainWorkers c.binCost) ∧
    ∀ b ∈ packBins (idxs.zip prepared) c.seqLen c.numTrainWorkers c.binCost, FairBin c.padToMultipleOf b

instance (idxs : List Nat) (prepared : List (MicroBatch K)) (c : Choice) : Decidable (FairBins idxs prepared c) :=
  inferInstanceAs (Decidable (_ ∧ _))

section
variable {np : Numpy} {rollouts : List (TrainingSample K)} {idxs : List Nat} {numLoras cp : Nat}
  {prepared : List (MicroBatch K)}

theorem invariant_iff {c : Choice} (hcp : 0 < cp) (hlen : idxs.length = rollouts.length)
    (hlora : ∀ i ∈ idxs, i < numLoras) (hw : 0 < c.numTrainWorkers) (hpad : 0 < c.padToMultipleOf)
    (hprep : rollouts.mapM (prepareSample np · c.seqLen) = .ok prepared) :
    Invariant np rollouts idxs numLoras cp prepared c ↔ FairBins idxs prepared c := by
  obtain ⟨hiff, hpacked⟩ := @prepareBatch_packed K _ _ _ np rollouts idxs c.seqLen c.numTrainWorkers numLoras
    c.padToMultipleOf c.binCost prepared hlen hprep hw hpad hlora
  have hs : ∀ p ∈ idxs.zip prepared, Aligned p.2 := aligned_prepared hprep
  constructor
  · rintro ⟨grid, bins, packed, dummies, hgrid, hinv⟩
    obtain ⟨packed', dummies', h⟩ := hpacked grid hgrid
    refine ⟨hiff.1 ⟨grid, hgrid⟩, fair_of_invariantBy hcp h hs hinv.counts fun m hm => ?_⟩
    -- the losses add up, so each is computed
    obtain ⟨total, htotal, -⟩ := hinv.loss id (.default ⟨0, 0, 0, 0, .activeTokens⟩) (fun _ _ => 0) zeros
      ⟨hinv.packing.packs.imp fun _ _ => zeros_agrees, fun d _ => List.length_replicate⟩
    obtain ⟨scales, -, htotal⟩ := bind_eq_ok.1 htotal
    obtain ⟨losses, hlosses, -⟩ := bind_eq_ok.1 htotal
    obtain ⟨k, -, hk⟩ := mapM_of_mem hlosses m hm
    exact ⟨_, _, scales, k, hk⟩
  · rintro ⟨halike, hfair⟩
    obtain ⟨grid, hgrid⟩ := hiff.2 halike
    obtain ⟨packed, dummies, h⟩ := hpacked grid hgrid
    exact ⟨grid, _, packed, dummies, hgrid, invariantBy_of_fair hcp h hs hfair⟩

/-- **Two choices make the same loss inputs of the samples exactly where the bins of both are fair.** -/
theorem packing_invariant_iff {c c' : Choice} (hcp : 0 < cp) (hlen : idxs.length = rollouts.length)
    (hlora : ∀ i ∈ idxs, i < numLoras) (hw : 0 < c.numTrainWorkers) (hw' : 0 < c'.numTrainWorkers)
    (hpad : 0 < c.padToMultipleOf) (hpad' : 0 < c'.padToMultipleOf)
    (hprep : rollouts.mapM (prepareSample np · c.seqLen) = .ok prepared)
    (hprep' : rollouts.mapM (prepareSample np · c'.seqLen) = .ok prepared) :
    Invariant np rollouts idxs numLoras cp prepared c ∧ Invariant np rollouts idxs numLoras cp prepared c' ↔
      FairBins idxs prepared c ∧ FairBins idxs prepared c' :=
  and_congr (invariant_iff hcp hlen hlora hw hpad hprep) (invariant_iff hcp hlen hlora hw' hpad' hprep')

end

/-- A sample of a prompt token and a trained one. -/
def trainedSample (advantage : Rat) : TrainingSample Rat where
  tokenIds := [7, 8]
  mask := [false, true]
  logprobs := [0, -1]
  temperatures := [1, 1]
  envName := "reverse-text"
  refLogprobs := none
  mmKwargs := none
  routedExperts := none
  mmTokenTypeIds := none
  rlWeights := none
  ceWeights := none
  refKlWeights := none
  advantages := some [0, advantage]

theorem packing_invariant_sample : ∃ prepared,
    Invariant expertDtypes [trainedSample 1, trainedSample (-1)] [0, 0] 1 2 prepared ⟨2, 1, 1, List.sum⟩ ∧
      Invariant expertDtypes [trainedSample 1, trainedSample (-1)] [0, 0] 1 2 prepared ⟨2, 4, 4, List.sum⟩ := by
  have hprep : ∃ prepared, [trainedSample 1, trainedSample (-1)].mapM (prepareSample expertDtypes · 2) = .ok prepared ∧
      FairBins [0, 0] prepared ⟨2, 1, 1, List.sum⟩ ∧ FairBins [0, 0] prepared ⟨2, 4, 4, List.sum⟩ :=
    ⟨_, rfl, by decide +kernel, by decide +kernel⟩
  obtain ⟨prepared, hprep, hfair, hfair'⟩ := hprep
  exact ⟨prepared, (packing_invariant_iff (by decide) rfl (by decide) (by decide) (by decide) (by decide) (by decide)
    hprep hprep).2 ⟨hfair, hfair'⟩⟩

theorem not_every_packing_invariant :
    ¬ ∀ (rollouts : List (TrainingSample Rat)) (prepared : List (MicroBatch Rat)) (c c' : Choice),
      0 < c.numTrainWorkers → 0 < c'.numTrainWorkers → 0 < c.padToMultipleOf → 0 < c'.padToMultipleOf →
      rollouts.mapM (prepareSample expertDtypes · c.seqLen) = .ok prepared →
      rollouts.mapM (prepareSample expertDtypes · c'.seqLen) = .ok prepared →
      Invariant expertDtypes rollouts (List.replicate rollouts.length 0) 1 1 prepared c ∧
        Invariant expertDtypes rollouts (List.replicate rollouts.length 0) 1 1 prepared c' := by
  intro h
  -- both samples in one micro-batch, which counts one rl sequence
  have hcounts : ∃ prepared, [trainedSample 1, trainedSample (-1)].mapM (prepareSample expertDtypes · 4) = .ok prepared ∧
      ((prepareBatch expertDtypes [trainedSample 1, trainedSample (-1)] 4 1 [0, 0] 1 List.sum 1).toOption.map
        (globalScales 1)) = some ⟨2, 0, 0, 1⟩ ∧ sampleCounts 1 (([0, 0].zip prepared).map Prod.snd) = ⟨2, 0, 0, 2⟩ :=
    ⟨_, rfl, by decide +kernel, by decide +kernel⟩
  obtain ⟨prepared, hprep, hscales, hsamples⟩ := hcounts
  obtain ⟨grid, _, _, _, hgrid, hinv⟩ := (h _ prepared ⟨4, 1, 1, List.sum⟩ ⟨4, 1, 1, List.sum⟩ (by decide) (by decide)
    (by decide) (by decide) hprep hprep).1
  have hgrid' : prepareBatch expertDtypes [trainedSample 1, trainedSample (-1)] 4 1 [0, 0] 1 List.sum 1 = .ok grid := hgrid
  rw [hgrid'] at hscales
  have hglobal := Option.some.inj hscales
  have hsequences := congrArg Counts.rlSequences (hglobal.symm.trans (hinv.counts.trans hsamples))
  exact absurd hsequences (by decide)

end Loss
end Aether
