import AetherRl.BatchPrepare
import AetherRl.BatchSegments
/-!
# BatchConserve — what `prepare_batch` returns, against the samples it was given

`prepare_batch` returns exactly when the routed experts that share a bin agree: `can_add` compares only whether there are
any, `_materialize_bin` asserts the rest.  What it returns holds every prepared sample once, and keeps the workers in
lock-step.
-/
namespace Aether
namespace Batch

open Checked

variable {F : Type}

/-! ## Packings -/

/-- The samples are packed in bins in order; a micro-batch packs each bin; beside the micro-batches there are dummies. -/
structure PackedBy [Zero F] [One F] (np : Numpy) (seqLen pad : Nat) (samples : List (Nat × MicroBatch F))
    (grid : List (List (MicroBatch F))) (bins : List (MicroBatchBin F)) (packed : List (MicroBatch F × Nat))
    (dummies : List (MicroBatch F)) : Prop where
  inOrder : ∀ b ∈ bins, b.Ok seqLen
  contents : (contents bins).Perm samples
  packs : List.Forall₂ (fun b p => Packs np (b.samples.map Prod.snd) p.2 p.1) bins packed
  padding : ∀ p ∈ packed, p.2 < pad ∧ p.1.inputIds.length % pad = 0
  distributed : grid.flatten.Perm (packed.map Prod.fst ++ dummies)
  dummy : ∀ d ∈ dummies, ∃ p ∈ packed, d = makeDummyBatch p.1

/-- The routed experts that share a bin agree. -/
def BinsAlike (bins : List (MicroBatchBin F)) : Prop :=
  ∀ b ∈ bins, ∀ p ∈ b.samples, ∀ q ∈ b.samples, RoutedAlike p.2 q.2

instance (s t : MicroBatch F) : Decidable (RoutedAlike s t) :=
  decidable_of_iff (∀ r ∈ s.routedExperts.toList, ∀ r' ∈ t.routedExperts.toList,
    r.dtype = r'.dtype ∧ r.shape.tail = r'.shape.tail) (by simp only [RoutedAlike, Option.mem_toList]; exact
      ⟨fun h r r' hr hr' => h r hr r' hr', fun h r hr r' hr' => h r r' hr hr'⟩)

instance (bins : List (MicroBatchBin F)) : Decidable (BinsAlike bins) :=
  inferInstanceAs (Decidable (∀ b ∈ bins, ∀ p ∈ b.samples, ∀ q ∈ b.samples, RoutedAlike p.2 q.2))

/-- One bin, materialized and padded. -/
theorem packBin_ok [Zero F] [One F] {np : Numpy} {seqLen numLoras pad : Nat} {b : MicroBatchBin F} (hpad : 0 < pad)
    (hb : b.Ok seqLen) (hprep : ∀ p ∈ b.samples, Prepared np seqLen p.2) (hlora : ∀ p ∈ b.samples, p.1 < numLoras)
    {m : MicroBatch F} (hm : materializeBin b numLoras = .ok m) :
    ∃ n m', padMicroBatch np pad m = .ok m' ∧ Packs np (b.samples.map Prod.snd) n m' ∧ n < pad ∧
      m'.inputIds.length % pad = 0 ∧ Aligned m' := by
  obtain ⟨hpacks, l, hl, hlen⟩ := (materializeBin_ok hb hprep hlora).2 m hm
  have haligned : ∀ s ∈ b.samples.map Prod.snd, Aligned s := by
    intro s hs
    obtain ⟨p, hp, rfl⟩ := List.mem_map.1 hs
    exact (hprep p hp).toAligned
  have hnum : b.samples.map Prod.snd ≠ [] → ∃ l, m.loraNumTokens = some l ∧ l ≠ [] := by
    intro hne
    obtain ⟨p, hp⟩ := List.exists_mem_of_ne_nil b.samples (by simpa using hne)
    have hpos := hlora p hp
    exact ⟨l, hl, List.length_pos_iff.1 (by omega)⟩
  obtain ⟨n, m', hm', hpacks', hlt, hzero, hmod⟩ := padMicroBatch_ok hpad hpacks haligned hnum
  refine ⟨n, m', hm', hpacks', hlt, hmod, hpacks'.aligned haligned ?_⟩
  by_cases he : b.samples.map Prod.snd = []
  · exact .inr (hzero he)
  · exact .inl he

/-- The bins, materialized and padded. -/
theorem packAll_ok [Zero F] [One F] {np : Numpy} {seqLen numLoras pad : Nat} (hpad : 0 < pad) :
    ∀ {bins : List (MicroBatchBin F)} {ms : List (MicroBatch F)}, (∀ b ∈ bins, b.Ok seqLen) →
      (∀ b ∈ bins, ∀ p ∈ b.samples, Prepared np seqLen p.2 ∧ p.1 < numLoras) →
      List.Forall₂ (fun b m => materializeBin b numLoras = .ok m) bins ms →
      ∃ packed : List (MicroBatch F × Nat), ms.mapM (padMicroBatch np pad) = .ok (packed.map Prod.fst) ∧
        List.Forall₂ (fun b p => Packs np (b.samples.map Prod.snd) p.2 p.1) bins packed ∧
        ∀ p ∈ packed, (p.2 < pad ∧ p.1.inputIds.length % pad = 0) ∧ Aligned p.1
  | [], _, _, _, .nil => ⟨[], rfl, .nil, fun p hp => by cases hp⟩
  | b :: bins, m :: ms, hok, hprep, .cons hm hms => by
    obtain ⟨packed, hpacked, hall, hpadded⟩ := packAll_ok hpad (fun c hc => hok c (List.mem_cons_of_mem b hc))
      (fun c hc => hprep c (List.mem_cons_of_mem b hc)) hms
    obtain ⟨n, m', hm', hpacks, hlt, hmod, haligned⟩ := packBin_ok hpad (hok b List.mem_cons_self)
      (fun p hp => (hprep b List.mem_cons_self p hp).1) (fun p hp => (hprep b List.mem_cons_self p hp).2) hm
    refine ⟨(m', n) :: packed, ?_, .cons hpacks hall, fun p hp => ?_⟩
    · exact mapM_eq_ok.2 (.cons hm' (mapM_eq_ok.1 hpacked))
    · rcases List.mem_cons.1 hp with rfl | hp
      · exact ⟨⟨hlt, hmod⟩, haligned⟩
      · exact hpadded p hp

/-- What the samples are, the bins' are. -/
theorem mem_packBins {samples : List (Nat × MicroBatch F)} {seqLen w : Nat} {binCost : List Nat → Nat}
    {P : Nat × MicroBatch F → Prop} (hfit : ∀ p ∈ samples, p.2.inputIds.length ≤ seqLen) (hP : ∀ p ∈ samples, P p) :
    ∀ b ∈ packBins samples seqLen w binCost, ∀ p ∈ b.samples, P p := by
  intro b hb p hp
  have hmem : p ∈ contents (packBins samples seqLen w binCost) := List.mem_flatMap.2 ⟨b, hb, hp⟩
  exact hP p ((packBins_ok hfit).2.mem_iff.1 hmem)

section
variable [Zero F] [One F] {np : Numpy} {samples : List (Nat × MicroBatch F)} {seqLen w numLoras pad : Nat}
  {binCost : List Nat → Nat}

/-- **Bins that agree are packed**: prepared samples come back as a packing. -/
theorem packSamples_packed (hw : 0 < w) (hpad : 0 < pad) (hprep : ∀ p ∈ samples, Prepared np seqLen p.2)
    (hlora : ∀ p ∈ samples, p.1 < numLoras) (halike : BinsAlike (packBins samples seqLen w binCost)) :
    ∃ grid packed dummies, packSamples np samples seqLen w numLoras binCost pad = .ok grid ∧
      PackedBy np seqLen pad samples grid (packBins samples seqLen w binCost) packed dummies := by
  have hfit : ∀ p ∈ samples, p.2.inputIds.length ≤ seqLen := fun p hp => (hprep p hp).fits
  obtain ⟨hok, hperm⟩ := @packBins_ok F seqLen w samples binCost hfit
  have hall : ∀ b ∈ packBins samples seqLen w binCost, ∀ p ∈ b.samples, Prepared np seqLen p.2 ∧ p.1 < numLoras :=
    mem_packBins hfit fun p hp => ⟨hprep p hp, hlora p hp⟩
  obtain ⟨ms, hms⟩ := mapM_isOk fun b hb => (materializeBin_ok (hok b hb) (fun p hp => (hall b hb p hp).1)
    fun p hp => (hall b hb p hp).2).1.2 (halike b hb)
  obtain ⟨packed, hpacked, hpacks, hpadded⟩ := packAll_ok hpad hok hall (mapM_eq_ok.1 hms)
  have haligned : ∀ m ∈ packed.map Prod.fst, Aligned m := by
    intro m hm
    obtain ⟨p, hp, rfl⟩ := List.mem_map.1 hm
    exact (hpadded p hp).2
  obtain ⟨grid, dummies, hgrid, hdist, hdummy⟩ := distribute_ok binCost hw haligned
  refine ⟨grid, packed, dummies, by rw [packSamples, hms, ok_bind, hpacked, ok_bind, hgrid],
    ⟨hok, hperm, hpacks, fun p hp => (hpadded p hp).1, hdist, fun d hd => ?_⟩⟩
  obtain ⟨m, hm, rfl⟩ := hdummy d hd
  obtain ⟨p, hp, rfl⟩ := List.mem_map.1 hm
  exact ⟨p, hp, rfl⟩

/-- Bins that do not agree stop the packing. -/
theorem packSamples_alike (hprep : ∀ p ∈ samples, Prepared np seqLen p.2) (hlora : ∀ p ∈ samples, p.1 < numLoras)
    {grid : List (List (MicroBatch F))} (h : packSamples np samples seqLen w numLoras binCost pad = .ok grid) :
    BinsAlike (packBins samples seqLen w binCost) := by
  have hfit : ∀ p ∈ samples, p.2.inputIds.length ≤ seqLen := fun p hp => (hprep p hp).fits
  obtain ⟨ms, hms, -⟩ := bind_eq_ok.1 h
  intro b hb
  obtain ⟨m, -, hm⟩ := mapM_of_mem hms b hb
  exact (materializeBin_ok ((packBins_ok hfit).1 b hb) (mem_packBins hfit hprep b hb) (mem_packBins hfit hlora b hb)).1.1
    ⟨m, hm⟩

end

/-! ## Conservation -/

/-- **Each prepared sample is one segment of one micro-batch**: the micro-batches that are not dummies, cut at their
recorded sequence lengths, their padding dropped, are the samples of their bins. -/
structure ConservedBy [Zero F] [One F] (np : Numpy) (seqLen pad : Nat) (prepared : List (MicroBatch F))
    (grid : List (List (MicroBatch F))) (bins : List (MicroBatchBin F)) (packed : List (MicroBatch F × Nat))
    (dummies : List (MicroBatch F)) : Prop where
  inOrder : ∀ b ∈ bins, b.Ok seqLen
  cut : List.Forall₂ (fun b p => segments np p.1 p.2 = b.samples.map fun s => whole s.2) bins packed
  padded : ∀ p ∈ packed, PaddedBy p.1 p.2 ∧ p.2 < pad
  distributed : grid.flatten.Perm (packed.map Prod.fst ++ dummies)
  dummy : ∀ d ∈ dummies, ∃ p ∈ packed, d = makeDummyBatch p.1
  conserved : (packed.flatMap fun p => segments np p.1 p.2).Perm (prepared.map whole)

def Conserves [Zero F] [One F] (np : Numpy) (seqLen pad : Nat) (prepared : List (MicroBatch F))
    (grid : List (List (MicroBatch F))) : Prop :=
  ∃ bins packed dummies, ConservedBy np seqLen pad prepared grid bins packed dummies

theorem PackedBy.aligned [Zero F] [One F] {np : Numpy} {seqLen pad : Nat} {samples : List (Nat × MicroBatch F)}
    {grid : List (List (MicroBatch F))} {bins : List (MicroBatchBin F)} {packed : List (MicroBatch F × Nat)}
    {dummies : List (MicroBatch F)} (h : PackedBy np seqLen pad samples grid bins packed dummies)
    (hs : ∀ p ∈ samples, Aligned p.2) : ∀ b ∈ bins, ∀ s ∈ b.samples.map Prod.snd, Aligned s := by
  intro b hb s hs'
  obtain ⟨p, hp, rfl⟩ := List.mem_map.1 hs'
  exact hs p (h.contents.mem_iff.1 (List.mem_flatMap.2 ⟨b, hb, hp⟩))

/-- **A micro-batch of a packing is aligned.** -/
theorem PackedBy.packed_aligned [Zero F] [One F] {np : Numpy} {seqLen pad : Nat} {samples : List (Nat × MicroBatch F)}
    {grid : List (List (MicroBatch F))} {bins : List (MicroBatchBin F)} {packed : List (MicroBatch F × Nat)}
    {dummies : List (MicroBatch F)} (h : PackedBy np seqLen pad samples grid bins packed dummies)
    (hs : ∀ p ∈ samples, Aligned p.2) : ∀ p ∈ packed, Aligned p.1 := by
  intro p hp
  obtain ⟨b, hb, hpacks⟩ := forall₂_mem_right h.packs p hp
  refine hpacks.aligned (h.aligned hs b hb) ?_
  by_cases hne : b.samples.map Prod.snd = []
  · -- without samples there is padding only, and less than a multiple of it
    obtain ⟨hlt, hmod⟩ := h.padding p hp
    have hlen : p.1.inputIds.length = p.2 := by rw [hpacks.inputIds, hne]; simp
    rw [hlen, Nat.mod_eq_of_lt hlt] at hmod
    exact .inr hmod
  · exact .inl hne

/-- **A packing conserves its samples.** -/
theorem PackedBy.conserves [Zero F] [One F] {np : Numpy} {seqLen pad : Nat} {samples : List (Nat × MicroBatch F)}
    {grid : List (List (MicroBatch F))} {bins : List (MicroBatchBin F)} {packed : List (MicroBatch F × Nat)}
    {dummies : List (MicroBatch F)} (h : PackedBy np seqLen pad samples grid bins packed dummies)
    (hs : ∀ p ∈ samples, Aligned p.2) :
    ConservedBy np seqLen pad (samples.map Prod.snd) grid bins packed dummies := by
  have haligned := h.aligned hs
  have hcut : List.Forall₂ (fun b p => segments np p.1 p.2 = b.samples.map (fun s => whole s.2) ∧ PaddedBy p.1 p.2)
      bins packed := by
    refine List.Forall₂.imp ?_ ((List.forall₂_and_left bins packed).2 ⟨haligned, h.packs⟩)
    rintro b p ⟨ha, hp⟩
    rw [hp.segments ha, List.map_map]
    exact ⟨rfl, hp.paddedBy ha⟩
  have hsegments := hcut.imp fun _ _ hp => hp.1
  refine ⟨h.inOrder, hsegments, fun p hp => ?_, h.distributed, h.dummy, ?_⟩
  · obtain ⟨b, -, hb⟩ := forall₂_mem_right hcut p hp
    exact ⟨hb.2, (h.padding p hp).1⟩
  · rw [flatMap_eq_of_forall₂ hsegments, List.map_map, ← List.map_flatMap]
    exact h.contents.map _

/-! ## prepare_batch -/

theorem prepareOne_zip [Zero F] [DecidableEq F] {np : Numpy} {seqLen : Nat} : ∀ {idxs : List Nat}
    {rollouts : List (TrainingSample F)} {prepared : List (MicroBatch F)}, idxs.length = rollouts.length →
      List.Forall₂ (fun s m => prepareSample np s seqLen = .ok m) rollouts prepared →
      (idxs.zip rollouts).mapM (prepareOne np seqLen) = .ok (idxs.zip prepared)
  | [], _, _, hlen, hprep => by
    cases hprep with
    | nil => rfl
    | cons _ _ => cases hlen
  | i :: idxs, [], _, hlen, _ => by cases hlen
  | i :: idxs, _ :: _, _ :: _, hlen, .cons hm hprep => by
    have ih := prepareOne_zip (Nat.succ.inj hlen) hprep
    refine mapM_eq_ok.2 (.cons ?_ (mapM_eq_ok.1 ih))
    rw [prepareOne, hm]
    rfl

theorem prepareOne_eq_ok [Zero F] [DecidableEq F] {np : Numpy} {seqLen : Nat} {p : Nat × TrainingSample F}
    {q : Nat × MicroBatch F} (h : prepareOne np seqLen p = .ok q) : q.1 = p.1 ∧ Prepared np seqLen q.2 := by
  obtain ⟨m, hm, h⟩ := bind_eq_ok.1 h
  cases h
  exact ⟨rfl, prepareSample_prepared hm⟩

/-- What `prepare_batch` packs: prepared samples, under the idxs it was given. -/
theorem mem_prepared [Zero F] [DecidableEq F] {np : Numpy} {seqLen numLoras : Nat} {idxs : List Nat}
    {rollouts : List (TrainingSample F)} {samples : List (Nat × MicroBatch F)}
    (hlora : ∀ i ∈ idxs, i < numLoras) (h : (idxs.zip rollouts).mapM (prepareOne np seqLen) = .ok samples) :
    ∀ p ∈ samples, Prepared np seqLen p.2 ∧ p.1 < numLoras := by
  intro p hp
  obtain ⟨⟨i, s⟩, hmem, hp⟩ := mapM_mem h p hp
  obtain ⟨hi, hprep⟩ := prepareOne_eq_ok hp
  exact ⟨hprep, hi ▸ hlora i (List.of_mem_zip hmem).1⟩

section
variable [Zero F] [One F] [DecidableEq F] {np : Numpy} {rollouts : List (TrainingSample F)} {idxs : List Nat}
  {seqLen w numLoras pad : Nat} {binCost : List Nat → Nat}

section
variable {prepared : List (MicroBatch F)} (hlen : idxs.length = rollouts.length)
  (hprep : rollouts.mapM (prepareSample np · seqLen) = .ok prepared)
include hlen hprep

theorem prepareBatch_eq : prepareBatch np rollouts seqLen w idxs numLoras binCost pad =
    packSamples np (idxs.zip prepared) seqLen w numLoras binCost pad := by
  rw [prepareBatch, prepareOne_zip hlen (mapM_eq_ok.1 hprep), ok_bind]

omit [One F] in
theorem prepared_zip : (idxs.zip prepared).map Prod.snd = prepared :=
  List.map_snd_zip (by rw [hlen, (mapM_eq_ok.1 hprep).length_eq])

/-- **`prepare_batch` returns exactly where the routed experts that share a bin agree, and returns a packing.** -/
theorem prepareBatch_packed (hw : 0 < w) (hpad : 0 < pad) (hlora : ∀ i ∈ idxs, i < numLoras) :
    ((∃ grid, prepareBatch np rollouts seqLen w idxs numLoras binCost pad = .ok grid) ↔
      BinsAlike (packBins (idxs.zip prepared) seqLen w binCost)) ∧
    ∀ grid, prepareBatch np rollouts seqLen w idxs numLoras binCost pad = .ok grid → ∃ packed dummies,
      PackedBy np seqLen pad (idxs.zip prepared) grid (packBins (idxs.zip prepared) seqLen w binCost) packed dummies := by
  have hall := mem_prepared hlora (prepareOne_zip hlen (mapM_eq_ok.1 hprep))
  have hprepared : ∀ p ∈ idxs.zip prepared, Prepared np seqLen p.2 := fun p hp => (hall p hp).1
  have hloras : ∀ p ∈ idxs.zip prepared, p.1 < numLoras := fun p hp => (hall p hp).2
  rw [prepareBatch_eq hlen hprep]
  refine ⟨⟨fun ⟨grid, hgrid⟩ => packSamples_alike hprepared hloras hgrid, fun halike => ?_⟩, fun grid hgrid => ?_⟩
  · obtain ⟨grid, packed, dummies, hgrid, -⟩ := packSamples_packed hw hpad hprepared hloras halike
    exact ⟨grid, hgrid⟩
  · obtain ⟨grid', packed, dummies, hgrid', hpacked⟩ := packSamples_packed hw hpad hprepared hloras
      (packSamples_alike hprepared hloras hgrid)
    obtain rfl : grid' = grid := Except.ok.inj (hgrid'.symm.trans hgrid)
    exact ⟨packed, dummies, hpacked⟩

omit [One F] hlen in
theorem aligned_prepared : ∀ p ∈ idxs.zip prepared, Aligned p.2 := by
  intro p hp
  obtain ⟨s, -, hs⟩ := mapM_mem hprep p.2 (List.of_mem_zip hp).2
  exact (prepareSample_prepared hs).toAligned

/-- **`prepare_batch` conserves the prepared samples exactly where the routed experts that share a bin agree.** -/
theorem prepareBatch_conserves (hw : 0 < w) (hpad : 0 < pad) (hlora : ∀ i ∈ idxs, i < numLoras) :
    (∃ grid, prepareBatch np rollouts seqLen w idxs numLoras binCost pad = .ok grid ∧
      Conserves np seqLen pad prepared grid) ↔ BinsAlike (packBins (idxs.zip prepared) seqLen w binCost) := by
  obtain ⟨hiff, hpacked⟩ := @prepareBatch_packed F _ _ _ np rollouts idxs seqLen w numLoras pad binCost prepared hlen
    hprep hw hpad hlora
  constructor
  · rintro ⟨grid, hgrid, -⟩
    exact hiff.1 ⟨grid, hgrid⟩
  · intro halike
    obtain ⟨grid, hgrid⟩ := hiff.2 halike
    obtain ⟨packed, dummies, hp⟩ := hpacked grid hgrid
    have hconserved := hp.conserves (aligned_prepared hprep)
    rw [prepared_zip hlen hprep] at hconserved
    exact ⟨grid, hgrid, _, packed, dummies, hconserved⟩

end

end

/-- The items of the dtypes that routed experts come in. -/
def expertDtypes : Numpy where
  itemsize dtype := if dtype = "uint8" then 1 else if dtype = "int16" then 2 else 8
  rows _ := .error (.value "cannot reshape")

/-- A sample of one trained token, with its routed experts of one layer. -/
def routedSample (dtype : String) (data : Bytes) : TrainingSample Int where
  tokenIds := [7]
  mask := [true]
  logprobs := [-1]
  temperatures := [1]
  envName := "reverse-text"
  refLogprobs := none
  mmKwargs := none
  routedExperts := some ⟨data, [1, 1, 1], dtype⟩
  mmTokenTypeIds := none
  rlWeights := none
  ceWeights := none
  refKlWeights := none
  advantages := some [2]

theorem prepareBatch_conserves_sample : ∃ prepared grid,
    prepareBatch expertDtypes [routedSample "uint8" [3], routedSample "uint8" [4]] 2 1 [0, 0] 1 List.sum 4 = .ok grid ∧
      Conserves expertDtypes 2 4 prepared grid := by
  have hprep : ∃ prepared, [routedSample "uint8" [3], routedSample "uint8" [4]].mapM (prepareSample expertDtypes · 2) =
      .ok prepared ∧ BinsAlike (packBins ([0, 0].zip prepared) 2 1 List.sum) := ⟨_, rfl, by decide +kernel⟩
  obtain ⟨prepared, hprep, halike⟩ := hprep
  have hiff := @prepareBatch_conserves Int _ _ _ expertDtypes _ [0, 0] 2 1 1 4 List.sum prepared rfl hprep (by decide)
    (by decide) (by decide)
  exact ⟨prepared, hiff.2 halike⟩

theorem not_every_batch_conserved :
    ¬ ∀ (rollouts : List (TrainingSample Int)) (prepared : List (MicroBatch Int)) (seqLen w : Nat), 0 < seqLen → 0 < w →
      rollouts.mapM (prepareSample expertDtypes · seqLen) = .ok prepared →
      ∃ grid, prepareBatch expertDtypes rollouts seqLen w (List.replicate rollouts.length 0) 1 List.sum 1 = .ok grid ∧
        Conserves expertDtypes seqLen 1 prepared grid := by
  intro h
  obtain ⟨grid, hgrid, -⟩ := h [routedSample "uint8" [3], routedSample "int16" [4, 0]] _ 2 1 (by decide) (by decide) rfl
  have hraise : prepareBatch expertDtypes [routedSample "uint8" [3], routedSample "int16" [4, 0]] 2 1 [0, 0] 1 List.sum
      1 = .error (.assertion "") := by rfl
  cases hraise.symm.trans hgrid

section
variable [Zero F] [One F] [DecidableEq F] {np : Numpy} {rollouts : List (TrainingSample F)} {idxs : List Nat}
  {seqLen w numLoras pad : Nat} {binCost : List Nat → Nat}

omit [DecidableEq F] in
theorem packSamples_lockStep {samples : List (Nat × MicroBatch F)} {grid : List (List (MicroBatch F))} (hw : 0 < w)
    (hne : samples ≠ []) (hfit : ∀ p ∈ samples, p.2.inputIds.length ≤ seqLen)
    (h : packSamples np samples seqLen w numLoras binCost pad = .ok grid) : ∃ n, 0 < n ∧ LockStep w n grid := by
  obtain ⟨ms, hms, h⟩ := bind_eq_ok.1 h
  obtain ⟨padded, hpadded, h⟩ := bind_eq_ok.1 h
  refine distribute_lockStep hw ?_ h
  -- there is a sample, so a bin, so a micro-batch
  rintro rfl
  have hms' : ms = [] := List.forall₂_nil_right_iff.1 (mapM_eq_ok.1 hpadded)
  subst hms'
  have hbins : packBins samples seqLen w binCost = [] := List.forall₂_nil_right_iff.1 (mapM_eq_ok.1 hms)
  have hperm := (@packBins_ok F seqLen w samples binCost hfit).2
  rw [hbins] at hperm
  exact hne (List.nil_perm.1 hperm)

/-- **`prepare_batch` gives the workers as many micro-batches, at each step of one modality, exactly where the samples
can be prepared and the routed experts that share a bin agree.** -/
theorem prepareBatch_lockStep (hw : 0 < w) (hpad : 0 < pad) (hne : idxs.zip rollouts ≠ [])
    (hlora : ∀ i ∈ idxs, i < numLoras) :
    (∃ grid n, prepareBatch np rollouts seqLen w idxs numLoras binCost pad = .ok grid ∧ 0 < n ∧ LockStep w n grid) ↔
      ∃ samples, (idxs.zip rollouts).mapM (prepareOne np seqLen) = .ok samples ∧
        BinsAlike (packBins samples seqLen w binCost) := by
  constructor
  · rintro ⟨grid, -, hgrid, -⟩
    obtain ⟨samples, hsamples, hgrid⟩ := bind_eq_ok.1 hgrid
    have hall := mem_prepared hlora hsamples
    exact ⟨samples, hsamples, packSamples_alike (fun p hp => (hall p hp).1) (fun p hp => (hall p hp).2) hgrid⟩
  · rintro ⟨samples, hsamples, halike⟩
    have hall := mem_prepared hlora hsamples
    obtain ⟨grid, packed, dummies, hgrid, -⟩ := packSamples_packed hw hpad
      (fun p hp => (hall p hp).1) (fun p hp => (hall p hp).2) halike
    have hne' : samples ≠ [] := by
      rintro rfl
      exact hne (List.forall₂_nil_right_iff.1 (mapM_eq_ok.1 hsamples))
    obtain ⟨n, hn, hlock⟩ := packSamples_lockStep hw hne' (fun p hp => (hall p hp).1.fits) hgrid
    exact ⟨grid, n, by rw [prepareBatch, hsamples, ok_bind, hgrid], hn, hlock⟩

end

theorem prepareBatch_lockStep_sample : ∃ grid n, prepareBatch expertDtypes
    [routedSample "uint8" [3], routedSample "uint8" [4], routedSample "uint8" [5]] 2 2 [0, 0, 0] 1 List.sum 1 =
      .ok grid ∧ 0 < n ∧ LockStep 2 n grid := by
  have halike : ∃ samples, ([0, 0, 0].zip [routedSample "uint8" [3], routedSample "uint8" [4],
      routedSample "uint8" [5]]).mapM (prepareOne expertDtypes 2) = .ok samples ∧
        BinsAlike (packBins samples 2 2 List.sum) := ⟨_, rfl, by decide +kernel⟩
  have hne : [0, 0, 0].zip [routedSample "uint8" [3], routedSample "uint8" [4], routedSample "uint8" [5]] ≠ [] :=
    List.cons_ne_nil _ _
  exact (prepareBatch_lockStep (by decide) (by decide) hne (by decide)).2 halike

theorem not_every_batch_lockStep :
    ¬ ∀ (rollouts : List (TrainingSample Int)) (samples : List (MicroBatch Int)) (seqLen w : Nat), rollouts ≠ [] →
      0 < seqLen → 0 < w → rollouts.mapM (prepareSample expertDtypes · seqLen) = .ok samples →
      ∃ grid n, prepareBatch expertDtypes rollouts seqLen w (List.replicate rollouts.length 0) 1 List.sum 1 = .ok grid ∧
        0 < n ∧ LockStep w n grid := by
  intro h
  obtain ⟨grid, n, hgrid, -⟩ := h [routedSample "uint8" [3], routedSample "int16" [4, 0]] _ 2 1 (List.cons_ne_nil _ _)
    (by decide) (by decide) rfl
  have hraise : prepareBatch expertDtypes [routedSample "uint8" [3], routedSample "int16" [4, 0]] 2 1 [0, 0] 1 List.sum
      1 = .error (.assertion "") := by rfl
  cases hraise.symm.trans hgrid

end Batch
end Aether
