import AetherRl.BatchConserve
/-!
# BatchBounds — the length of a micro-batch

First fit keeps a bin within `seq_len`, and the padding then rounds it up.  A micro-batch stays within `seq_len` exactly
where its bin left room for that, and all do whatever the samples exactly where the padding multiple divides `seq_len`.
`get_parallel_dims` would check as much, but the trainer gives it no `seq_len`.
-/
namespace Aether

/-! ## Start-up -/

/-- What `ModelConfig` says of the parallel dimensions. -/
structure ParallelConfig where
  dpReplicate : Nat
  cp : Nat
  ep : Nat

structure ParallelDims where
  dpReplicate : Nat
  dpShard : Nat
  cp : Nat
  pp : Nat
  ep : Nat
  worldSize : Nat

namespace ParallelDims

open Checked
open Batch (Error)

/-- `_validate`, with `dp_shard = -1`. -/
def validate (config : ParallelConfig) (pp worldSize : Nat) : Except Error ParallelDims := do
  raiseUnless (1 ≤ config.dpReplicate ∧ 1 ≤ config.cp ∧ 1 ≤ pp ∧ 1 ≤ config.ep)
    (.assertion "Parallelism degree should be >= 1, except for dp_shard")
  let dpShard := worldSize / (config.dpReplicate * config.cp * pp)
  raiseUnless (1 ≤ dpShard) (.assertion "")
  raiseUnless (config.dpReplicate * dpShard * config.cp * pp = worldSize)
    (.assertion s!"Invalid parallel dims: dp_replicate({config.dpReplicate}) * dp_shard({dpShard}) * cp({config.cp}) * pp({pp}) != WORLD_SIZE({worldSize})")
  raiseUnless (1 < config.ep → config.ep % config.cp = 0 ∧ dpShard * config.cp % config.ep = 0) (.assertion "")
  .ok ⟨config.dpReplicate, dpShard, config.cp, pp, config.ep, worldSize⟩

def seqLenDivisor (d : ParallelDims) : Nat := d.cp * 2

def getParallelDims (config : ParallelConfig) (worldSize : Nat) (seqLen : Option Nat) : Except Error ParallelDims := do
  let parallelDims ← validate config 1 worldSize
  match seqLen with
  | none => .ok parallelDims
  | some seqLen => do
    raiseUnless (seqLen % parallelDims.seqLenDivisor = 0)
      (.value s!"Sequence length ({seqLen}) must be divisible by seq_len_divisor ({parallelDims.seqLenDivisor}) for the given parallel dimensions. This requirement comes from context parallel (CP={config.cp}).")
    .ok parallelDims

/-- **A sequence length that was checked is a multiple of the context-parallel size.** -/
theorem cp_dvd_of_checked {config : ParallelConfig} {worldSize seqLen : Nat} {d : ParallelDims}
    (h : getParallelDims config worldSize (some seqLen) = .ok d) : config.cp ∣ seqLen := by
  simp only [getParallelDims, validate, bind_eq_ok, raiseUnless_eq_ok, Except.ok.injEq] at h
  obtain ⟨_, ⟨_, -, _, -, _, -, _, -, rfl⟩, _, hmod, -⟩ := h
  exact Nat.dvd_trans (Nat.dvd_mul_right config.cp 2) (Nat.dvd_of_mod_eq_zero hmod)

end ParallelDims

namespace Batch

open Checked

variable {F : Type}

/-! ## The micro-batch of a bin -/

theorem foldlM_lora_lt : ∀ {samples : List (Nat × MicroBatch F)} {l l' : List Nat},
    samples.foldlM (fun l p => addLoraTokens l p.1 p.2.inputIds.length) l = .ok l' → ∀ p ∈ samples, p.1 < l.length
  | [], _, _, _, p, hp => by cases hp
  | q :: samples, l, l', h, p, hp => by
    rw [List.foldlM_cons, bind_eq_ok] at h
    obtain ⟨k, hk, h⟩ := h
    unfold addLoraTokens at hk
    split at hk
    · rename_i n hn
      obtain rfl := Except.ok.inj hk
      rcases List.mem_cons.1 hp with rfl | hp
      · exact (List.getElem?_eq_some_iff.1 hn).1
      · have hlt := foldlM_lora_lt h p hp
        rwa [List.length_set] at hlt
    · cases hk

/-- A bin is materialized only if there is a count for each of its samples' LoRAs. -/
theorem materializeBin_lora [Zero F] [One F] {b : MicroBatchBin F} {numLoras : Nat} {m : MicroBatch F}
    (h : materializeBin b numLoras = .ok m) : ∀ p ∈ b.samples, p.1 < numLoras := by
  intro p hp
  obtain ⟨sidecars, hstack, -⟩ := bind_eq_ok.1 h
  have hlt := foldlM_lora_lt (stackAll_eq_ok.1 hstack).2.2 p hp
  rwa [List.length_replicate] at hlt

/-- The micro-batch is the bin's, with so many tokens of padding. -/
structure PacksBin [Zero F] [One F] (np : Numpy) (numLoras pad : Nat) (b : MicroBatchBin F) (n : Nat)
    (m : MicroBatch F) : Prop where
  made : ∃ u, materializeBin b numLoras = .ok u ∧ padMicroBatch np pad u = .ok m
  packs : Packs np (b.samples.map Prod.snd) n m
  padding : n < pad
  multiple : m.inputIds.length % pad = 0
  aligned : Aligned m

theorem PacksBin.length [Zero F] [One F] {np : Numpy} {numLoras pad n : Nat} {b : MicroBatchBin F} {m : MicroBatch F}
    (h : PacksBin np numLoras pad b n m) : m.inputIds.length = tokens b.samples + n := by
  rw [h.packs.inputIds, List.length_append, List.length_replicate, length_flatMap_of fun _ _ => rfl, List.map_map]
  rfl

section
variable [Zero F] [One F] {np : Numpy} {samples : List (Nat × MicroBatch F)} {seqLen w numLoras pad : Nat}
  {binCost : List Nat → Nat}

/-- **What is returned is the micro-batch of each bin, and dummies of them.** -/
theorem packSamples_bins {grid : List (List (MicroBatch F))} (hw : 0 < w) (hpad : 0 < pad)
    (hprep : ∀ p ∈ samples, Prepared np seqLen p.2)
    (h : packSamples np samples seqLen w numLoras binCost pad = .ok grid) :
    ∃ packed dummies, List.Forall₂ (fun b m => ∃ n, PacksBin np numLoras pad b n m)
        (packBins samples seqLen w binCost) packed ∧
      grid.flatten.Perm (packed ++ dummies) ∧ ∀ d ∈ dummies, ∃ m ∈ packed, d = makeDummyBatch m := by
  have hfit : ∀ p ∈ samples, p.2.inputIds.length ≤ seqLen := fun p hp => (hprep p hp).fits
  obtain ⟨ms, hms, h⟩ := bind_eq_ok.1 h
  obtain ⟨packed, hpacked, hgrid⟩ := bind_eq_ok.1 h
  have hbins : List.Forall₂ (fun b m => ∃ n, PacksBin np numLoras pad b n m) (packBins samples seqLen w binCost)
      packed := by
    refine List.Forall₂.imp ?_ ((List.forall₂_and_left _ _).2 ⟨fun b hb => hb, mapM_comp hms hpacked⟩)
    rintro b m ⟨hb, u, hu, hm⟩
    obtain ⟨n, m', hm', hpacks, hlt, hmod, haligned⟩ := packBin_ok hpad ((packBins_ok hfit).1 b hb)
      (mem_packBins hfit hprep b hb) (materializeBin_lora hu) hu
    obtain rfl := Except.ok.inj (hm'.symm.trans hm)
    exact ⟨n, ⟨u, hu, hm⟩, hpacks, hlt, hmod, haligned⟩
  have haligned : ∀ m ∈ packed, Aligned m := by
    intro m hm
    obtain ⟨b, -, n, hb⟩ := forall₂_mem_right hbins m hm
    exact hb.aligned
  obtain ⟨grid', dummies, hgrid', hperm, hdummies⟩ := distribute_ok binCost hw haligned
  obtain rfl := Except.ok.inj (hgrid'.symm.trans hgrid)
  exact ⟨packed, dummies, hbins, hperm, hdummies⟩

/-! ## The bound -/

/-- The micro-batch has one length, a multiple of the padding's, within `seq_len`. -/
structure Bounded (seqLen pad : Nat) (m : MicroBatch F) : Prop where
  aligned : Aligned m
  multiple : m.inputIds.length % pad = 0
  bounded : m.inputIds.length ≤ seqLen

theorem padded_le_iff {t n s : Nat} (hn : n < pad) (hm : (t + n) % pad = 0) : t + n ≤ s ↔ t ≤ s - s % pad := by
  obtain ⟨k, hk⟩ := Nat.dvd_of_mod_eq_zero hm
  have hs : s - s % pad = pad * (s / pad) := by
    have hdiv := Nat.div_add_mod s pad
    omega
  have hr := Nat.mod_lt s (Nat.zero_lt_of_lt hn)
  have hdiv := Nat.div_add_mod s pad
  rw [hs, hk]
  constructor
  · intro hle
    have hkq : k ≤ s / pad := (Nat.le_div_iff_mul_le (Nat.zero_lt_of_lt hn)).2 (by rwa [Nat.mul_comm])
    have hmul := Nat.mul_le_mul_left pad hkq
    omega
  · intro hle
    have hkq : k ≤ s / pad := by
      by_contra hlt
      have hmul := Nat.mul_le_mul_left pad (Nat.succ_le_of_lt (Nat.lt_of_not_le hlt))
      rw [Nat.mul_succ] at hmul
      omega
    have hmul := Nat.mul_le_mul_left pad hkq
    omega

/-- **The micro-batches stay within `seq_len` exactly where each bin keeps the rest of `seq_len` free.** -/
theorem packSamples_bounded {grid : List (List (MicroBatch F))} (hw : 0 < w) (hpad : 0 < pad)
    (hprep : ∀ p ∈ samples, Prepared np seqLen p.2)
    (h : packSamples np samples seqLen w numLoras binCost pad = .ok grid) :
    (∀ m ∈ grid.flatten, Bounded seqLen pad m) ↔
      ∀ b ∈ packBins samples seqLen w binCost, tokens b.samples ≤ seqLen - seqLen % pad := by
  obtain ⟨packed, dummies, hbins, hperm, hdummies⟩ := packSamples_bins hw hpad hprep h
  constructor
  · intro hall b hb
    obtain ⟨m, hm, n, hpacks⟩ := forall₂_mem_left hbins b hb
    have hle := (hall m (hperm.mem_iff.2 (List.mem_append_left _ hm))).bounded
    have hmod := hpacks.multiple
    rw [hpacks.length] at hle hmod
    exact (padded_le_iff hpacks.padding hmod).1 hle
  · intro hall
    have hpacked : ∀ m ∈ packed, Bounded seqLen pad m := by
      intro m hm
      obtain ⟨b, hb, n, hpacks⟩ := forall₂_mem_right hbins m hm
      have hmod := hpacks.multiple
      rw [hpacks.length] at hmod
      refine ⟨hpacks.aligned, hpacks.multiple, ?_⟩
      rw [hpacks.length]
      exact (padded_le_iff hpacks.padding hmod).2 (hall b hb)
    intro m hm
    rcases List.mem_append.1 (hperm.mem_iff.1 hm) with hm | hm
    · exact hpacked m hm
    · obtain ⟨source, hs, rfl⟩ := hdummies m hm
      have hsource := hpacked source hs
      exact ⟨makeDummyBatch_aligned hsource.aligned, hsource.multiple, hsource.bounded⟩

end

/-! ## prepare_batch -/

/-- A text sample of so many tokens, none of them trained. -/
def textSample (F : Type) [Zero F] [One F] (n : Nat) : TrainingSample F where
  tokenIds := List.replicate n 7
  mask := List.replicate n false
  logprobs := List.replicate n 0
  temperatures := List.replicate n 1
  envName := "reverse-text"
  refLogprobs := none
  mmKwargs := none
  routedExperts := none
  mmTokenTypeIds := none
  rlWeights := none
  ceWeights := none
  refKlWeights := none
  advantages := some (List.replicate n 0)

theorem prepareSample_text [Zero F] [One F] [DecidableEq F] (np : Numpy) (n : Nat) :
    ∃ m, prepareSample np (textSample F n) n = .ok m ∧ m.inputIds.length = n ∧ m.routedExperts = none := by
  refine ⟨{ ofSample (textSample F n) (List.replicate n 0) with sequenceLengths := [n], seqLens := [n] }, ?_,
    List.length_replicate, rfl⟩
  simp [prepareSample, multimodalSampleError, preparedAdvantages, truncate, checkPrepared, checkStream,
    checkRoutedExperts, raiseUnless, ofSample, textSample, ok_bind]

theorem le_tokens {samples : List (Nat × MicroBatch F)} {p : Nat × MicroBatch F} (hp : p ∈ samples) :
    p.2.inputIds.length ≤ tokens samples := by
  obtain ⟨before, after, rfl⟩ := List.append_of_mem hp
  have hcons : tokens (p :: after) = p.2.inputIds.length + tokens after := by simp [tokens]
  rw [tokens_append, hcons]
  omega

section
variable [Zero F] [One F] [DecidableEq F] {np : Numpy} {seqLen w numLoras pad : Nat} {binCost : List Nat → Nat}

omit [One F] in
theorem prepared_of_ok {rollouts : List (Nat × TrainingSample F)} {samples : List (Nat × MicroBatch F)}
    (h : rollouts.mapM (prepareOne np seqLen) = .ok samples) : ∀ p ∈ samples, Prepared np seqLen p.2 := by
  intro p hp
  obtain ⟨q, -, hq⟩ := mapM_mem h p hp
  exact (prepareOne_eq_ok hq).2

/-- One text sample of `seq_len` tokens is returned, in a bin it fills. -/
theorem prepareBatch_text (hw : 0 < w) (hpad : 0 < pad) :
    ∃ grid samples, prepareBatch np [textSample F seqLen] seqLen w [0] 1 binCost pad = .ok grid ∧
      ([0].zip [textSample F seqLen]).mapM (prepareOne np seqLen) = .ok samples ∧
      ∃ b ∈ packBins samples seqLen w binCost, seqLen ≤ tokens b.samples := by
  obtain ⟨m, hm, hlen, hrouted⟩ := @prepareSample_text F _ _ _ np seqLen
  have hsamples : ([0].zip [textSample F seqLen]).mapM (prepareOne np seqLen) = .ok [(0, m)] :=
    prepareOne_zip rfl (.cons hm .nil)
  have hprep := prepared_of_ok hsamples
  have hfit : ∀ p ∈ [(0, m)], p.2.inputIds.length ≤ seqLen := fun p hp => (hprep p hp).fits
  have hlora : ∀ p ∈ [(0, m)], p.1 < 1 := fun p hp => List.mem_singleton.1 hp ▸ Nat.zero_lt_one
  have halike : BinsAlike (packBins [(0, m)] seqLen w binCost) := by
    have hnone : ∀ p ∈ [(0, m)], p.2.routedExperts = none := fun p hp => List.mem_singleton.1 hp ▸ hrouted
    intro b hb p hp q _ r r' hr
    rw [mem_packBins hfit hnone b hb p hp] at hr
    cases hr
  obtain ⟨grid, packed, dummies, hgrid, hpacked⟩ := packSamples_packed hw hpad hprep hlora halike
  refine ⟨grid, [(0, m)], ?_, hsamples, ?_⟩
  · rw [prepareBatch, hsamples, ok_bind, hgrid]
  · obtain ⟨b, hb, hp⟩ := List.mem_flatMap.1 (hpacked.contents.mem_iff.2 (List.mem_singleton_self (0, m)))
    exact ⟨b, hb, hlen ▸ le_tokens hp⟩

/-- **The micro-batches of a batch stay within `seq_len` exactly where no bin reaches into what `seq_len` has over a
multiple of the padding's, and those of every batch exactly where `seq_len` is such a multiple.** -/
theorem prepareBatch_bounded_iff (hw : 0 < w) (hpad : 0 < pad) :
    (∀ (rollouts : List (TrainingSample F)) (idxs : List Nat) (numLoras : Nat) (binCost : List Nat → Nat)
        (grid : List (List (MicroBatch F))), prepareBatch np rollouts seqLen w idxs numLoras binCost pad = .ok grid →
      ∃ samples, (idxs.zip rollouts).mapM (prepareOne np seqLen) = .ok samples ∧
        ((∀ m ∈ grid.flatten, Bounded seqLen pad m) ↔
          ∀ b ∈ packBins samples seqLen w binCost, tokens b.samples ≤ seqLen - seqLen % pad)) ∧
    ((∀ (rollouts : List (TrainingSample F)) (idxs : List Nat) (numLoras : Nat) (binCost : List Nat → Nat)
        (grid : List (List (MicroBatch F))), prepareBatch np rollouts seqLen w idxs numLoras binCost pad = .ok grid →
      ∀ m ∈ grid.flatten, Bounded seqLen pad m) ↔ pad ∣ seqLen) := by
  have hone : ∀ (rollouts : List (TrainingSample F)) (idxs : List Nat) (numLoras : Nat) (binCost : List Nat → Nat)
      (grid : List (List (MicroBatch F))), prepareBatch np rollouts seqLen w idxs numLoras binCost pad = .ok grid →
      ∃ samples, (idxs.zip rollouts).mapM (prepareOne np seqLen) = .ok samples ∧
        ((∀ m ∈ grid.flatten, Bounded seqLen pad m) ↔
          ∀ b ∈ packBins samples seqLen w binCost, tokens b.samples ≤ seqLen - seqLen % pad) := by
    intro rollouts idxs numLoras binCost grid h
    obtain ⟨samples, hsamples, h⟩ := bind_eq_ok.1 h
    exact ⟨samples, hsamples, packSamples_bounded hw hpad (prepared_of_ok hsamples) h⟩
  refine ⟨hone, fun hall => ?_, fun hdvd rollouts idxs numLoras binCost grid h => ?_⟩
  · obtain ⟨grid, samples, hgrid, hsamples, b, hb, hle⟩ :=
      @prepareBatch_text F _ _ _ np seqLen w pad List.sum hw hpad
    obtain ⟨samples', hsamples', hiff⟩ := hone _ _ _ _ _ hgrid
    obtain rfl := Except.ok.inj (hsamples'.symm.trans hsamples)
    have hbin := hiff.1 (hall _ _ _ _ _ hgrid) b hb
    have hmod := Nat.mod_le seqLen pad
    exact Nat.dvd_of_mod_eq_zero (by omega)
  · obtain ⟨samples, hsamples, hiff⟩ := hone _ _ _ _ _ h
    refine hiff.2 fun b hb => ?_
    have hfits := ((packBins_ok fun p hp => (prepared_of_ok hsamples p hp).fits).1 b hb).fits
    rwa [Nat.mod_eq_zero_of_dvd hdvd, Nat.sub_zero]

end

/-- Two workers and 6 tokens: padding to a multiple of 2 bounds every batch, padding to one of 4 that of a sample of 4
tokens, and not every batch. -/
theorem prepareBatch_bounded_sample :
    (∀ (rollouts : List (TrainingSample Int)) (idxs : List Nat) (numLoras : Nat) (binCost : List Nat → Nat)
        (grid : List (List (MicroBatch Int))), prepareBatch expertDtypes rollouts 6 2 idxs numLoras binCost 2 = .ok grid →
      ∀ m ∈ grid.flatten, Bounded 6 2 m) ∧
    (∃ grid, prepareBatch expertDtypes [textSample Int 4] 6 2 [0] 1 List.sum 4 = .ok grid ∧
      ∀ m ∈ grid.flatten, Bounded 6 4 m) ∧
    ¬ ∀ (rollouts : List (TrainingSample Int)) (idxs : List Nat) (numLoras : Nat) (binCost : List Nat → Nat)
        (grid : List (List (MicroBatch Int))), prepareBatch expertDtypes rollouts 6 2 idxs numLoras binCost 4 = .ok grid →
      ∀ m ∈ grid.flatten, Bounded 6 4 m := by
  refine ⟨(prepareBatch_bounded_iff (by decide) (by decide)).2.2 (by decide), ?_, fun hall =>
    absurd ((prepareBatch_bounded_iff (by decide) (by decide)).2.1 hall) (by decide)⟩
  have hrun : ∃ grid samples, prepareBatch expertDtypes [textSample Int 4] 6 2 [0] 1 List.sum 4 = .ok grid ∧
      ([0].zip [textSample Int 4]).mapM (prepareOne expertDtypes 6) = .ok samples ∧
      ∀ b ∈ packBins samples 6 2 List.sum, tokens b.samples ≤ 6 - 6 % 4 := ⟨_, _, rfl, rfl, by decide +kernel⟩
  obtain ⟨grid, samples, hgrid, hsamples, hbins⟩ := hrun
  obtain ⟨samples', hsamples', hiff⟩ := (prepareBatch_bounded_iff (by decide) (by decide)).1 _ _ _ _ _ hgrid
  obtain rfl := Except.ok.inj (hsamples'.symm.trans hsamples)
  exact ⟨grid, hgrid, hiff.2 hbins⟩

/-- A context-parallel size of 3 is accepted beside a `seq_len` of 4, and makes a micro-batch of 6 tokens. -/
theorem not_every_batch_bounded :
    ¬ ∀ (config : ParallelConfig) (worldSize seqLen w : Nat) (dims : ParallelDims) (rollouts : List (TrainingSample Int))
        (grid : List (List (MicroBatch Int))), 0 < seqLen → 0 < w →
      ParallelDims.getParallelDims config worldSize none = .ok dims →
      prepareBatch expertDtypes rollouts seqLen w (List.replicate rollouts.length 0) 1 List.sum config.cp = .ok grid →
      ∀ m ∈ grid.flatten, Bounded seqLen config.cp m := by
  intro hall
  have hrun : ∃ grid m, prepareBatch expertDtypes [textSample Int 4] 4 1 [0] 1 List.sum 3 = .ok grid ∧
      m ∈ grid.flatten ∧ m.inputIds.length = 6 := ⟨_, _, rfl, List.mem_singleton_self _, rfl⟩
  obtain ⟨grid, m, hgrid, hm, hlen⟩ := hrun
  have hbounded := (hall ⟨1, 3, 1⟩ 3 4 1 _ [textSample Int 4] grid (by decide) (by decide) rfl hgrid m hm).bounded
  omega

end Batch
end Aether
