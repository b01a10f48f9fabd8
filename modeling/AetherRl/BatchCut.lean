import AetherRl.BatchLayout
/-!
# BatchCut — which samples `prepare_sample` takes, and where it cuts them

An aligned sample is refused for its environment's name alone, or because its images cannot be cut.  A sample with
well-formed images is cut at the largest place that splits no image, which is nowhere when an image comes first that does
not fit.
-/
namespace Aether
namespace Batch

open Checked

variable {F : Type}

/-! ## What is taken -/

/-- A sample whose arrays are those of its tokens. -/
structure Laid (np : Numpy) (s : TrainingSample F) : Prop where
  mask : s.mask.length = s.tokenIds.length
  logprobs : s.logprobs.length = s.tokenIds.length
  temperatures : s.temperatures.length = s.tokenIds.length
  advantages : ∀ l, s.advantages = some l → l.length = s.tokenIds.length
  refLogprobs : ∀ l, s.refLogprobs = some l → l.length = s.tokenIds.length
  rlWeights : ∀ l, s.rlWeights = some l → l.length = s.tokenIds.length
  ceWeights : ∀ l, s.ceWeights = some l → l.length = s.tokenIds.length
  refKlWeights : ∀ l, s.refKlWeights = some l → l.length = s.tokenIds.length
  routed : ∀ r, s.routedExperts = some r → ∃ layers topk, r.shape = [s.tokenIds.length, layers, topk] ∧
    r.data.length = s.tokenIds.length * (layers * topk * np.itemsize r.dtype)

/-- Such a sample with what else the checks of `prepare_sample` ask of its producer. -/
structure Acceptable [Zero F] [DecidableEq F] (np : Numpy) (s : TrainingSample F) : Prop extends Laid np s where
  members : s.advantages = none → hasRlMembers s.mask s.rlWeights = false
  mmTokenTypeIds : ∀ l, s.mmTokenTypeIds = some l → l.length = s.tokenIds.length
  images : ∀ kwargs, s.mmKwargs = some kwargs → (kwargs.lookup "image_grid_thw").isSome → s.mmTokenTypeIds.isSome

/-- A micro-batch with the length of its one sequence. -/
def finish (m : MicroBatch F) : MicroBatch F :=
  { m with sequenceLengths := [m.inputIds.length], seqLens := [m.inputIds.length] }

theorem Acceptable.error [Zero F] [DecidableEq F] {np : Numpy} {s : TrainingSample F} (h : Acceptable np s) :
    multimodalSampleError s = none := by
  unfold multimodalSampleError
  split
  · rename_i ids hids
    exact if_neg (not_not.2 (h.mmTokenTypeIds ids hids))
  · rename_i hids
    split
    · rename_i kwargs hkwargs
      refine if_neg fun hgrid => ?_
      have hsome := h.images kwargs hkwargs hgrid
      rw [hids] at hsome
      cases hsome
    · rfl

/-- A sample `prepare_sample` does not refuse before it cuts: its type ids have the tokens' length and are there where a
grid is, it has advantages where a token is trained with them, and its environment's name is not the reserved one. -/
structure Admitted [Zero F] [DecidableEq F] (s : TrainingSample F) : Prop where
  mm : multimodalSampleError s = none
  members : s.advantages = none → hasRlMembers s.mask s.rlWeights = false
  envName : s.envName ≠ "all"

theorem Admitted.mmTokenTypeIds [Zero F] [DecidableEq F] {s : TrainingSample F} (h : Admitted s) :
    ∀ l, s.mmTokenTypeIds = some l → l.length = s.tokenIds.length := by
  intro l hl
  have hmm := h.mm
  simp only [multimodalSampleError, hl] at hmm
  by_contra hne
  rw [if_pos hne] at hmm
  cases hmm

theorem Admitted.acceptable [Zero F] [DecidableEq F] {np : Numpy} {s : TrainingSample F} (h : Admitted s)
    (hlaid : Laid np s) : Acceptable np s where
  toLaid := hlaid
  members := h.members
  mmTokenTypeIds := h.mmTokenTypeIds
  images := by
    intro kwargs hkwargs hgrid
    cases hids : s.mmTokenTypeIds with
    | some ids => rfl
    | none =>
      have hmm := h.mm
      simp only [multimodalSampleError, hids, hkwargs] at hmm
      rw [if_pos hgrid] at hmm
      cases hmm

theorem Acceptable.admitted [Zero F] [DecidableEq F] {np : Numpy} {s : TrainingSample F} (h : Acceptable np s)
    (henv : s.envName ≠ "all") : Admitted s := ⟨h.error, h.members, henv⟩

theorem prepareSample_admitted [Zero F] [DecidableEq F] {np : Numpy} {s : TrainingSample F} {seqLen : Nat}
    {m : MicroBatch F} (h : prepareSample np s seqLen = .ok m) : Admitted s := by
  unfold prepareSample at h
  split at h
  · cases h
  rename_i hmm
  obtain ⟨advantages, hadvantages, h⟩ := bind_eq_ok.1 h
  obtain ⟨_, hname, -⟩ := bind_eq_ok.1 h
  refine ⟨hmm, fun hnone => ?_, raiseUnless_eq_ok.1 hname⟩
  rw [preparedAdvantages, hnone] at hadvantages
  dsimp only at hadvantages
  by_contra hmembers
  rw [Bool.not_eq_false] at hmembers
  rw [if_pos hmembers] at hadvantages
  cases hadvantages

theorem Acceptable.preparedAdvantages [Zero F] [DecidableEq F] {np : Numpy} {s : TrainingSample F}
    (h : Acceptable np s) : ∃ l, preparedAdvantages s = .ok l ∧ l.length = s.tokenIds.length := by
  unfold Batch.preparedAdvantages
  split
  · rename_i l hl
    exact ⟨l, rfl, h.advantages l hl⟩
  · rename_i hnone
    rw [h.members hnone]
    exact ⟨_, rfl, List.length_replicate⟩

/-- Routed experts cut to the first rows. -/
theorem cutRoutedExperts_ok {np : Numpy} {n cut : Nat} {routed : Option RoutedExperts} (hcut : cut ≤ n)
    (h : ∀ r, routed = some r → ∃ layers topk, r.shape = [n, layers, topk] ∧
      r.data.length = n * (layers * topk * np.itemsize r.dtype)) :
    ∃ routed', cutRoutedExperts np cut routed = .ok routed' ∧
      ∀ r, routed' = some r → ∃ layers topk, r.shape = [cut, layers, topk] ∧
        r.data.length = cut * (layers * topk * np.itemsize r.dtype) := by
  cases routed with
  | none => exact ⟨none, rfl, fun r hr => by cases hr⟩
  | some r =>
    obtain ⟨layers, topk, hshape, hdata⟩ := h r rfl
    refine ⟨some ⟨r.data.take (cut * (layers * topk * np.itemsize r.dtype)), [cut, layers, topk], r.dtype⟩, ?_, ?_⟩
    · rw [cutRoutedExperts, sliceRoutedExperts, hshape]
      rfl
    · rintro r' hr'
      cases hr'
      refine ⟨layers, topk, rfl, ?_⟩
      rw [List.length_take, hdata]
      exact Nat.min_eq_left (Nat.mul_le_mul_right _ hcut)

theorem checkRoutedExperts_of {np : Numpy} {n : Nat} {routed : Option RoutedExperts}
    (h : ∀ r, routed = some r → ∃ layers topk, r.shape = [n, layers, topk] ∧
      r.data.length = n * (layers * topk * np.itemsize r.dtype)) : checkRoutedExperts np n routed = .ok () := by
  cases routed with
  | none => rfl
  | some r =>
    obtain ⟨layers, topk, hshape, hdata⟩ := h r rfl
    have hrow : routedExpertsRowSize np r = .ok (layers * topk * np.itemsize r.dtype) := by
      rw [routedExpertsRowSize, hshape]
    rw [checkRoutedExperts, raiseUnless_of _ (by rw [hshape]; rfl), ok_bind, hrow, ok_bind, raiseUnless_of _ hdata]

theorem checkStream_of {n : Nat} {name : String} {stream : Option (List F)}
    (h : ∀ l, stream = some l → l.length = n) : checkStream n name stream = .ok () := by
  cases stream with
  | none => rfl
  | some l => exact raiseUnless_of _ (h l rfl)

theorem length_map_take {α : Type} {n cut : Nat} {stream : Option (List α)} (h : ∀ l, stream = some l → l.length = n) :
    ∀ l, stream.map (·.take cut) = some l → l.length = min cut n := by
  intro l hl
  obtain ⟨l', hl', rfl⟩ := Option.map_eq_some_iff.1 hl
  rw [List.length_take, h l' hl']

/-- **An acceptable sample passes the checks**, whole or cut. -/
theorem Acceptable.checkPrepared [Zero F] [DecidableEq F] {np : Numpy} {s : TrainingSample F} (h : Acceptable np s)
    {advantages : List F} (hadv : advantages.length = s.tokenIds.length) {cut : Nat} (hcut : cut ≤ s.tokenIds.length)
    {routed : Option RoutedExperts} (hrouted : ∀ r, routed = some r → ∃ layers topk, r.shape = [cut, layers, topk] ∧
      r.data.length = cut * (layers * topk * np.itemsize r.dtype)) (kwargs : Option (List (String × EncodedTensor))) :
    checkPrepared np (cutTo (ofSample s advantages) cut routed kwargs) = .ok () := by
  have hlen : ∀ {α : Type} {l : List α}, l.length = s.tokenIds.length → (l.take cut).length = cut := by
    intro α l hl
    rw [List.length_take, hl]
    exact Nat.min_eq_left hcut
  have hstream : ∀ {stream : Option (List F)}, (∀ l, stream = some l → l.length = s.tokenIds.length) →
      ∀ l, stream.map (·.take cut) = some l → l.length = cut := by
    intro stream hs l hl
    rw [length_map_take hs l hl]
    exact Nat.min_eq_left hcut
  have hn : (cutTo (ofSample s advantages) cut routed kwargs).inputIds.length = cut := hlen rfl
  have hstreams : checkStream cut "ref_logprobs" (cutTo (ofSample s advantages) cut routed kwargs).refLogprobs = .ok () ∧
      checkStream cut "rl_weights" (cutTo (ofSample s advantages) cut routed kwargs).rlWeights = .ok () ∧
      checkStream cut "ce_weights" (cutTo (ofSample s advantages) cut routed kwargs).ceWeights = .ok () ∧
      checkStream cut "ref_kl_weights" (cutTo (ofSample s advantages) cut routed kwargs).refKlWeights = .ok () :=
    ⟨checkStream_of (hstream h.refLogprobs), checkStream_of (hstream h.rlWeights),
      checkStream_of (hstream h.ceWeights), checkStream_of (hstream h.refKlWeights)⟩
  have hexperts : checkRoutedExperts np cut (cutTo (ofSample s advantages) cut routed kwargs).routedExperts = .ok () :=
    checkRoutedExperts_of hrouted
  have hnames : (cutTo (ofSample s advantages) cut routed kwargs).envNames.length = cut :=
    hlen List.length_replicate
  obtain ⟨href, hrl, hce, hkl⟩ := hstreams
  unfold Batch.checkPrepared
  rw [hn]
  dsimp only
  rw [raiseUnless_of, ok_bind, href, ok_bind, hrl, ok_bind, hce, ok_bind, hkl, ok_bind, hexperts, ok_bind,
    raiseUnless_of _ hnames]
  exact ⟨hlen hadv, hlen h.mask, hlen List.length_range, hlen h.logprobs, hlen h.temperatures⟩

/-- A sample that is not cut is cut at its end. -/
theorem cutTo_length [Zero F] [DecidableEq F] {np : Numpy} {s : TrainingSample F} (h : Acceptable np s)
    {advantages : List F} (hadv : advantages.length = s.tokenIds.length) :
    cutTo (ofSample s advantages) s.tokenIds.length s.routedExperts s.mmKwargs = ofSample s advantages := by
  have htake : ∀ {α : Type} {l : List α}, l.length = s.tokenIds.length → l.take s.tokenIds.length = l :=
    fun hl => List.take_of_length_le hl.le
  have hstream : ∀ {α : Type} {stream : Option (List α)}, (∀ l, stream = some l → l.length = s.tokenIds.length) →
      stream.map (·.take s.tokenIds.length) = stream := by
    intro α stream hs
    cases stream with
    | none => rfl
    | some l => rw [Option.map_some, htake (hs l rfl)]
  simp only [cutTo, ofSample, htake rfl, htake h.mask, htake hadv, htake h.logprobs, htake h.temperatures,
    htake List.length_range, htake List.length_replicate, hstream h.refLogprobs, hstream h.rlWeights,
    hstream h.ceWeights, hstream h.refKlWeights, hstream h.mmTokenTypeIds]

/-- **An acceptable sample is prepared as it is where it fits, and else cut where its images allow**: it is refused for
the reserved name, or with the error of the cut. -/
theorem prepareSample_eq [Zero F] [DecidableEq F] {np : Numpy} {s : TrainingSample F} (h : Acceptable np s)
    (henv : s.envName ≠ "all") (seqLen : Nat) : ∃ advantages, preparedAdvantages s = .ok advantages ∧
      (s.tokenIds.length ≤ seqLen → prepareSample np s seqLen = .ok (finish (ofSample s advantages))) ∧
      (seqLen < s.tokenIds.length → (∀ e, cutPoint np seqLen s.mmTokenTypeIds s.mmKwargs = .error e →
          prepareSample np s seqLen = .error e) ∧
        ∀ cut kwargs, cutPoint np seqLen s.mmTokenTypeIds s.mmKwargs = .ok (cut, kwargs) →
          ∃ routed, cutRoutedExperts np cut s.routedExperts = .ok routed ∧
            prepareSample np s seqLen = .ok (finish (cutTo (ofSample s advantages) cut routed kwargs))) := by
  obtain ⟨advantages, hadvantages, hlen⟩ := h.preparedAdvantages
  have hprepare : prepareSample np s seqLen = (do
      let m ← truncate np (ofSample s advantages) seqLen
      checkPrepared np m
      .ok (finish m)) := by
    rw [prepareSample, h.error, hadvantages]
    dsimp only
    rw [ok_bind, raiseUnless_of _ henv, ok_bind]
    rfl
  refine ⟨advantages, hadvantages, fun hle => ?_, fun hlt => ⟨fun e he => ?_, fun cut kwargs hcut => ?_⟩⟩
  · have hcheck := h.checkPrepared hlen le_rfl h.routed s.mmKwargs
    rw [cutTo_length h hlen] at hcheck
    have htruncate : truncate np (ofSample s advantages) seqLen = .ok (ofSample s advantages) := if_pos hle
    rw [hprepare, htruncate, ok_bind, hcheck, ok_bind]
  · have htruncate : truncate np (ofSample s advantages) seqLen = .error e := by
      rw [truncate, if_neg (show ¬ (ofSample s advantages).inputIds.length ≤ seqLen from Nat.not_le.2 hlt)]
      change (cutPoint np seqLen s.mmTokenTypeIds s.mmKwargs >>= _) = _
      rw [he]
      rfl
    rw [hprepare, htruncate]
    rfl
  · have hle : cut ≤ seqLen := by
      unfold cutPoint at hcut
      split at hcut
      · exact truncateMm_le hcut
      · cases hcut
        exact le_rfl
    obtain ⟨routed, hrouted, hshape⟩ := cutRoutedExperts_ok (hle.trans hlt.le) h.routed
    have htruncate : truncate np (ofSample s advantages) seqLen = .ok (cutTo (ofSample s advantages) cut routed kwargs) := by
      rw [truncate, if_neg (show ¬ (ofSample s advantages).inputIds.length ≤ seqLen from Nat.not_le.2 hlt)]
      change (cutPoint np seqLen s.mmTokenTypeIds s.mmKwargs >>= _) = _
      rw [hcut, ok_bind]
      change (cutRoutedExperts np cut s.routedExperts >>= _) = _
      rw [hrouted, ok_bind]
    refine ⟨routed, hrouted, ?_⟩
    rw [hprepare, htruncate, ok_bind, h.checkPrepared hlen (hle.trans hlt.le) hshape kwargs, ok_bind]

end Batch
end Aether
