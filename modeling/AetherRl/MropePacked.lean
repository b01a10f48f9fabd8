import AetherRl.BatchConserve
import AetherRl.Mrope
/-!
# MropePacked — the positions of a packed micro-batch

Packing stacks the grids of its image samples in the order of their tokens, and padding is text after the last sample.
So the builder gives every sample the positions it gives it alone.
-/
namespace Aether
namespace Mrope

open Batch Checked

variable {F : Type}

/-- A sample's token types; it is text unless it says otherwise. -/
def tokenTypes (m : MicroBatch F) : List Nat := m.mmTokenTypeIds.getD (List.replicate m.inputIds.length 0)

/-- The rows of `image_grid_thw`, if it comes with the kwargs. -/
def gridOfKwargs (np : Numpy) (mmKwargs : Option (List (String × EncodedTensor))) :
    Except Error (Option (List (List Nat))) :=
  match mmKwargs.bind (·.lookup "image_grid_thw") with
  | some t => some <$> np.rows t
  | none => .ok none

/-- The builder called on a micro-batch. -/
def positionsOf (np : Numpy) (merge : Nat) (m : MicroBatch F) : Except Error (List Position) := do
  let grids ← gridOfKwargs np m.mmKwargs
  buildMropePositionIds m.inputIds.length (tokenTypes m) grids merge m.seqLens

/-- A sample of at least a token, laid out as text and images that its grid describes. -/
structure WellFormed (np : Numpy) (merge : Nat) (m : MicroBatch F) (s : Sequence) : Prop where
  nonempty : m.inputIds ≠ []
  types : tokenTypes m = typesOf s.pieces
  layout : Layout merge s.pieces s.rows
  grid : ∀ kwargs, m.mmKwargs = some kwargs → ∃ t, kwargs.lookup "image_grid_thw" = some t ∧ np.rows t = .ok s.rows
  text : m.mmKwargs = none → s.rows = []

/-- Arrays of one dtype whose rows have one shape: the bytes of both hold the rows of both. -/
def StacksRows (np : Numpy) : Prop :=
  ∀ dtype tail n k data data' rows rows', np.rows ⟨dtype, n :: tail, data⟩ = .ok rows →
    np.rows ⟨dtype, k :: tail, data'⟩ = .ok rows' →
    np.rows ⟨dtype, (n + k) :: tail, data ++ data'⟩ = .ok (rows ++ rows')

/-! ## Stacked grids -/

/-- What stacking does to one tensor of the kwargs. -/
theorem lookup_stackTensor {src : List (String × EncodedTensor)} {key : String} {t : EncodedTensor} :
    ∀ {dst dst' : List (String × EncodedTensor)}, dst.mapM (stackTensor src) = .ok dst' → dst.lookup key = some t →
      ∃ u n k tail tail', src.lookup key = some u ∧ t.shape = n :: tail ∧ u.shape = k :: tail' ∧
        dst'.lookup key = some ⟨t.dtype, (n + k) :: tail, t.data ++ u.data⟩
  | [], _, _, ht => by cases ht
  | (key', t') :: dst, dst', h, ht => by
    obtain ⟨d, ds, hd, hds, rfl⟩ := List.forall₂_cons_left_iff.1 (mapM_eq_ok.1 h)
    rw [stackTensor] at hd
    obtain ⟨u, hu, hd⟩ := bind_eq_ok.1 hd
    have hkey : d.1 = key' := by
      split at hd
      · cases hd
        rfl
      · cases hd
    by_cases heq : key = key'
    · subst heq
      rw [List.lookup_cons_self] at ht
      obtain rfl := Option.some.inj ht
      have hlookup : src.lookup key = some u := by
        unfold tensor at hu
        split at hu
        · rename_i v hv
          cases hu
          exact hv
        · cases hu
      split at hd
      · rename_i n rest k rest' hshape hshape'
        cases hd
        exact ⟨u, n, k, rest, rest', hlookup, hshape, hshape', List.lookup_cons_self⟩
      · cases hd
    · have hne : (key == key') = false := beq_false_of_ne heq
      rw [List.lookup_cons, hne] at ht
      obtain ⟨u', n, k, tail, tail', hu', hshape, hshape', hlookup⟩ := lookup_stackTensor (mapM_eq_ok.2 hds) ht
      refine ⟨u', n, k, tail, tail', hu', hshape, hshape', ?_⟩
      obtain ⟨dkey, dt⟩ := d
      dsimp only at hkey
      rw [hkey, List.lookup_cons, hne]
      exact hlookup

/-- A compatible sample's tensor of a key has the dtype and the rows' shape. -/
theorem compatible_lookup {first src : List (String × EncodedTensor)} (h : compatibleKwargs first src = true)
    {key : String} {t u : EncodedTensor} (ht : first.lookup key = some t) (hu : src.lookup key = some u) :
    t.dtype = u.dtype ∧ t.shape.tail = u.shape.tail := by
  obtain ⟨l₁, l₂, hfirst, -⟩ := List.lookup_eq_some_iff.1 ht
  have hmem : (key, t) ∈ first := by
    rw [hfirst]
    exact List.mem_append_right l₁ List.mem_cons_self
  have hall := List.all_eq_true.1 (Bool.and_eq_true_iff.1 h).2 _ hmem
  simp only [hu, Option.any_some, Bool.and_eq_true, beq_iff_eq] at hall
  exact ⟨hall.1.1.1, hall.2⟩

/-- **The grids of compatible samples stack in the order of the samples.** -/
theorem foldlM_grid {np : Numpy} (hnp : StacksRows np) {merge : Nat} {first : List (String × EncodedTensor)}
    {g : EncodedTensor} (hg : first.lookup "image_grid_thw" = some g) {samples : List (Nat × MicroBatch F)}
    {ss : List Sequence} {dst : List (String × EncodedTensor)} {t : EncodedTensor} {rows : List (List Nat)}
    {o : Option (List (String × EncodedTensor))}
    (h : List.Forall₂ (fun p s => WellFormed np merge p.2 s) samples ss)
    (hcompat : ∀ p ∈ samples, ∀ src, p.2.mmKwargs = some src → compatibleKwargs first src = true)
    (ht : dst.lookup "image_grid_thw" = some t) (hdtype : t.dtype = g.dtype) (htail : t.shape.tail = g.shape.tail)
    (hrows : np.rows t = .ok rows)
    (ho : samples.foldlM (fun k p => stackKwargs k p.2.mmKwargs) (some dst) = .ok o) :
    ∃ dst' t', o = some dst' ∧ dst'.lookup "image_grid_thw" = some t' ∧
      np.rows t' = .ok (rows ++ ss.flatMap Sequence.rows) := by
  induction h generalizing dst t rows with
  | nil =>
    cases ho
    exact ⟨dst, t, rfl, ht, by rw [List.flatMap_nil, List.append_nil, hrows]⟩
  | @cons p s samples ss hs h ih =>
    rw [List.foldlM_cons] at ho
    obtain ⟨next, hnext, ho⟩ := bind_eq_ok.1 ho
    have hrest : ∀ q ∈ samples, ∀ src, q.2.mmKwargs = some src → compatibleKwargs first src = true :=
      fun q hq => hcompat q (List.mem_cons_of_mem p hq)
    rw [List.flatMap_cons]
    cases hkwargs : p.2.mmKwargs with
    | none =>
      rw [hkwargs] at hnext
      cases hnext
      rw [hs.text hkwargs, List.nil_append]
      exact ih hrest ht hdtype htail hrows ho
    | some src =>
      obtain ⟨u, hu, hurows⟩ := hs.grid src hkwargs
      obtain ⟨hudtype, hutail⟩ := compatible_lookup (hcompat p List.mem_cons_self src hkwargs) hg hu
      rw [hkwargs] at hnext
      cases hstack : dst.mapM (stackTensor src) with
      | error e =>
        rw [stackKwargs, hstack] at hnext
        cases hnext
      | ok dst' =>
        rw [stackKwargs, hstack] at hnext
        cases hnext
        obtain ⟨u', n, k, tail, tail', hu', hshape, hshape', hlookup⟩ := lookup_stackTensor hstack ht
        obtain rfl := Option.some.inj (hu.symm.trans hu')
        have htails : tail' = tail := by
          rw [hshape] at htail
          rw [hshape'] at hutail
          exact hutail.symm.trans htail.symm
        have hstacked : np.rows ⟨t.dtype, (n + k) :: tail, t.data ++ u.data⟩ = .ok (rows ++ s.rows) := by
          refine hnp t.dtype tail n k t.data u.data rows s.rows ?_ ?_
          · rw [← hshape]
            exact hrows
          · rw [hdtype, hudtype, ← htails, ← hshape']
            exact hurows
        rw [← List.append_assoc]
        refine ih hrest hlookup hdtype ?_ hstacked ho
        rw [← htail, hshape]
        rfl

/-- A bin's image samples are compatible with the first of them. -/
theorem compatible_after {maxSeqLen : Nat} {b : MicroBatchBin F} (hb : b.Ok maxSeqLen)
    {before after : List (Nat × MicroBatch F)} {p : Nat × MicroBatch F} {first : List (String × EncodedTensor)}
    (hs : b.samples = before ++ p :: after) (hp : p.2.mmKwargs = some first)
    (hnone : ∀ q ∈ before, q.2.mmKwargs = none) :
    ∀ q ∈ after, ∀ src, q.2.mmKwargs = some src → compatibleKwargs first src = true := by
  intro q hq src hsrc
  obtain ⟨c, d, rfl⟩ := List.append_of_mem hq
  have hacc := hb.accepted (before ++ p :: c) q d (by rw [hs, List.append_assoc, List.cons_append]) (by simp)
  refine (canAdd_eq_true hacc).2.2 first src ?_ hsrc
  exact List.findSome?_eq_some_iff.2 ⟨before, p, c, rfl, hp, hnone⟩

/-- **The grid of a bin has the rows of its samples in order**; a bin of text has none. -/
theorem gridOfKwargs_bin {np : Numpy} (hnp : StacksRows np) {merge maxSeqLen : Nat} {b : MicroBatchBin F}
    (hb : b.Ok maxSeqLen) {ss : List Sequence}
    (h : List.Forall₂ (fun p s => WellFormed np merge p.2 s) b.samples ss) {o : Option (List (String × EncodedTensor))}
    (ho : b.samples.foldlM (fun k p => stackKwargs k p.2.mmKwargs) none = .ok o) :
    ∃ grids, gridOfKwargs np o = .ok grids ∧ gridRows ss grids := by
  cases hf : b.firstMultimodal with
  | none =>
    rw [MicroBatchBin.firstMultimodal, List.findSome?_eq_none_iff] at hf
    rw [foldlM_kwargs_none hf] at ho
    cases ho
    refine ⟨none, rfl, .inr ⟨rfl, fun s hs => ?_⟩⟩
    obtain ⟨p, hp, hps⟩ := forall₂_mem_right h s hs
    exact hps.text (hf p hp)
  | some first =>
    rw [MicroBatchBin.firstMultimodal, List.findSome?_eq_some_iff] at hf
    obtain ⟨before, p, after, hs, hp, hnone⟩ := hf
    have hcompat := compatible_after hb hs hp hnone
    rw [hs] at h ho
    have hbefore := List.forall₂_take_append ss before (p :: after) h.flip
    obtain ⟨s, ss₂, hps, hafter, hdrop⟩ :=
      List.forall₂_cons_right_iff.1 (List.forall₂_drop_append ss before (p :: after) h.flip)
    have hss : ss = ss.take before.length ++ s :: ss₂ := by rw [← hdrop, List.take_append_drop]
    have hrows : ss.flatMap Sequence.rows = s.rows ++ ss₂.flatMap Sequence.rows := by
      have hempty : (ss.take before.length).flatMap Sequence.rows = [] := by
        rw [List.flatMap_eq_nil_iff]
        intro s' hs'
        obtain ⟨q, hq, hqs⟩ := forall₂_mem_left hbefore s' hs'
        exact hqs.text (hnone q hq)
      conv_lhs => rw [hss]
      rw [List.flatMap_append, hempty, List.nil_append, List.flatMap_cons]
    obtain ⟨t, ht, htrows⟩ := hps.grid first hp
    rw [List.foldlM_append, foldlM_kwargs_none hnone, ok_bind, List.foldlM_cons, hp] at ho
    obtain ⟨dst', t', rfl, ht', ht'rows⟩ := foldlM_grid hnp ht hafter.flip hcompat ht rfl rfl htrows ho
    refine ⟨some (ss.flatMap Sequence.rows), ?_, .inl rfl⟩
    rw [hrows]
    simp only [gridOfKwargs, Option.bind_some, ht', ht'rows]
    rfl

/-! ## A packed micro-batch -/

theorem materializeBin_mmKwargs [Zero F] [One F] {b : MicroBatchBin F} {numLoras : Nat} {m : MicroBatch F}
    (h : materializeBin b numLoras = .ok m) :
    b.samples.foldlM (fun k p => stackKwargs k p.2.mmKwargs) none = .ok m.mmKwargs := by
  simp only [materializeBin, bind_eq_ok, raiseUnless_eq_ok, Except.ok.injEq] at h
  obtain ⟨sidecars, hstack, -, -, -, -, rfl⟩ := h
  exact (stackAll_eq_ok.1 hstack).2.1

theorem padMicroBatch_mmKwargs [Zero F] [One F] {np : Numpy} {k : Nat} {m m' : MicroBatch F}
    (h : padMicroBatch np k m = .ok m') : m'.mmKwargs = m.mmKwargs := by
  rw [padMicroBatch] at h
  obtain ⟨_, -, h⟩ := bind_eq_ok.1 h
  obtain ⟨_, -, h⟩ := bind_eq_ok.1 h
  split at h
  · cases h
    rfl
  · simp only [bind_eq_ok, Except.ok.injEq] at h
    obtain ⟨_, -, _, -, _, -, _, -, rfl⟩ := h
    rfl

theorem replicate_flatMap {α : Type} (f : α → Nat) (x : Nat) : ∀ l : List α,
    l.flatMap (fun a => List.replicate (f a) x) = List.replicate (l.map f).sum x
  | [] => rfl
  | a :: l => by rw [List.flatMap_cons, replicate_flatMap f x l, List.map_cons, List.sum_cons, List.replicate_add]

/-- The types of a packed micro-batch are those of its samples, and text for the padding. -/
theorem tokenTypes_packs [Zero F] [One F] {np : Numpy} {samples : List (MicroBatch F)} {padding : Nat} {m : MicroBatch F}
    (h : Packs np samples padding m) : tokenTypes m = samples.flatMap tokenTypes ++ List.replicate padding 0 := by
  rw [tokenTypes, h.mmTokenTypeIds]
  cases hids : backfill (·.mmTokenTypeIds) 0 samples with
  | some ids =>
    rw [backfill_eq_some hids]
    rfl
  | none =>
    have hnone : ∀ s ∈ samples, tokenTypes s = List.replicate s.inputIds.length 0 := by
      intro s hs
      unfold backfill at hids
      split at hids
      · cases hids
      · rename_i hany
        rw [List.any_eq_true] at hany
        cases hs' : s.mmTokenTypeIds with
        | none => rw [tokenTypes, hs']; rfl
        | some ids => exact absurd ⟨s, hs, Option.isSome_iff_exists.2 ⟨ids, hs'⟩⟩ hany
    rw [List.flatMap_congr hnone, replicate_flatMap, ← List.replicate_add, h.inputIds, List.length_append,
      length_flatMap_of fun _ _ => rfl, List.length_replicate]
    rfl

theorem length_tokenTypes {np : Numpy} {seqLen : Nat} {m : MicroBatch F} (h : Prepared np seqLen m) :
    (tokenTypes m).length = m.inputIds.length := by
  rw [tokenTypes]
  exact getD_length h.mmTokenTypeIds

/-- **A sample alone.** -/
theorem WellFormed.alone {np : Numpy} {merge seqLen : Nat} (hmerge : merge ≠ 0) {m : MicroBatch F} {s : Sequence}
    (h : WellFormed np merge m s) (hprep : Prepared np seqLen m) : s.Ok merge ∧
      (typesOf s.pieces).length = m.inputIds.length ∧ positionsOf np merge m = .ok (s.positions merge) := by
  have hlen : (typesOf s.pieces).length = m.inputIds.length := by rw [← h.types, length_tokenTypes hprep]
  have hok : s.Ok merge := by
    refine ⟨h.layout, fun hnil => h.nonempty (List.length_eq_zero_iff.1 ?_)⟩
    rw [← hlen, hnil]
    rfl
  have hgrids : ∃ grids, gridOfKwargs np m.mmKwargs = .ok grids ∧ gridRows [s] grids := by
    cases hkwargs : m.mmKwargs with
    | none =>
      refine ⟨none, rfl, .inr ⟨rfl, fun s' hs' => ?_⟩⟩
      rw [List.mem_singleton.1 hs']
      exact h.text hkwargs
    | some kwargs =>
      obtain ⟨t, ht, hrows⟩ := h.grid kwargs hkwargs
      refine ⟨some s.rows, ?_, .inl ?_⟩
      · simp only [gridOfKwargs, Option.bind_some, ht, hrows]
        rfl
      · rw [List.flatMap_singleton]
  obtain ⟨grids, hgrid, hrows⟩ := hgrids
  have hbuild := @buildMropePositionIds_sequences merge hmerge [s] (by simpa using hok) grids hrows
  simp only [List.flatMap_singleton, List.map_cons, List.map_nil] at hbuild
  refine ⟨hok, hlen, ?_⟩
  rw [positionsOf, hgrid, ok_bind, h.types, hprep.singleLens, ← hlen, hbuild]

/-- **A packed and padded micro-batch gets the positions of its samples**, each as it gets them alone. -/
theorem positionsOf_packed [Zero F] [One F] {np : Numpy} {merge : Nat} (hmerge : merge ≠ 0)
    {samples : List (MicroBatch F)} {ss : List Sequence} {padding : Nat} {m : MicroBatch F}
    {grids : Option (List (List Nat))} (hm : Packs np samples padding m) (hempty : samples = [] → padding = 0)
    (hgrid : gridOfKwargs np m.mmKwargs = .ok grids) (hrows : gridRows ss grids)
    (h : List.Forall₂ (fun s seq => tokenTypes s = typesOf seq.pieces ∧ seq.Ok merge ∧
      (typesOf seq.pieces).length = s.inputIds.length) samples ss) :
    ∃ extra, positionsOf np merge m = .ok (ss.flatMap (Sequence.positions merge) ++ extra) ∧ extra.length = padding := by
  have hok : ∀ s ∈ ss, s.Ok merge := by
    intro s hs
    obtain ⟨_, -, -, hs, -⟩ := forall₂_mem_right h s hs
    exact hs
  have htypes : samples.flatMap tokenTypes = ss.flatMap fun s => typesOf s.pieces :=
    (flatMap_eq_of_forall₂ (h.imp fun _ _ hs => hs.1.symm)).symm
  have hlens : samples.map (·.inputIds.length) = ss.map fun s => (typesOf s.pieces).length := by
    clear hm hempty hrows hok htypes
    induction h with
    | nil => rfl
    | cons hs _ ih => rw [List.map_cons, ih, List.map_cons, hs.2.2]
  have hnum : m.inputIds.length = (tokenTypes m).length := by
    rw [tokenTypes_packs hm, htypes, hm.inputIds, List.length_append, List.length_append, List.length_replicate,
      List.length_replicate, length_flatMap_of fun _ _ => rfl, hlens, List.length_flatMap]
  rw [positionsOf, hgrid, ok_bind, hnum, tokenTypes_packs hm, htypes, hm.seqLens, hlens]
  by_cases hss : ss = []
  · subst hss
    obtain rfl := List.forall₂_nil_right_iff.1 h
    obtain rfl := hempty rfl
    exact ⟨[], by simpa [lastPlus] using buildMropePositionIds_sequences hmerge hok hrows, rfl⟩
  · obtain ⟨hok', hrows', hnone, htypes', hlens', extra, hextra, hlen⟩ := padLast_spec padding hss hok
    have hgrids : gridRows (padLast padding ss) grids := by
      rcases hrows with rfl | ⟨rfl, hall⟩
      · exact .inl (congrArg some hrows'.symm)
      · exact .inr ⟨rfl, hnone hall⟩
    have hbuild := buildMropePositionIds_sequences hmerge hok' hgrids
    rw [htypes', hlens', hextra] at hbuild
    exact ⟨extra, hbuild, hlen⟩

/-- **Packed multimodal positions**: of any prepared samples of text and images that are packed, every bin that is
materialized is padded, and the builder places it without an error, every sample as it places the sample alone. -/
theorem packed_positions [Zero F] [One F] {np : Numpy} (hnp : StacksRows np) {merge : Nat} (hmerge : merge ≠ 0)
    {samples : List (Nat × MicroBatch F)} {seqLen numTrainWorkers numLoras padToMultipleOf : Nat}
    {binCost : List Nat → Nat} (hprep : ∀ p ∈ samples, Prepared np seqLen p.2)
    (hwell : ∀ p ∈ samples, ∃ s, WellFormed np merge p.2 s) (hlora : ∀ p ∈ samples, p.1 < numLoras)
    (hpad : 0 < padToMultipleOf) :
    ∀ b ∈ packBins samples seqLen numTrainWorkers binCost, ∀ m, materializeBin b numLoras = .ok m →
      ∃ m' alone extra, padMicroBatch np padToMultipleOf m = .ok m' ∧
        m'.inputIds = b.samples.flatMap (·.2.inputIds) ++ List.replicate extra.length 1 ∧
        List.Forall₂ (fun p positions => positionsOf np merge p.2 = .ok positions ∧
          positions.length = p.2.inputIds.length) b.samples alone ∧
        positionsOf np merge m' = .ok (alone.flatten ++ extra) := by
  intro b hb m hm
  have hfit : ∀ p ∈ samples, p.2.inputIds.length ≤ seqLen := fun p hp => (hprep p hp).fits
  have hbin := (packBins_ok hfit).1 b hb
  have hprepared := mem_packBins hfit hprep b hb
  have hloras := mem_packBins hfit hlora b hb
  -- each sample of the bin with its layout
  have hlayouts : ∃ ss, List.Forall₂ (fun p s => WellFormed np merge p.2 s) b.samples ss := by
    have hall := mem_packBins hfit hwell b hb
    generalize b.samples = l at hall
    induction l with
    | nil => exact ⟨[], .nil⟩
    | cons p l ih =>
      obtain ⟨s, hs⟩ := hall p List.mem_cons_self
      obtain ⟨ss, hss⟩ := ih fun q hq => hall q (List.mem_cons_of_mem p hq)
      exact ⟨s :: ss, .cons hs hss⟩
  obtain ⟨ss, hss⟩ := hlayouts
  obtain ⟨hpacks, l, hl, hllen⟩ := (materializeBin_ok hbin hprepared hloras).2 m hm
  have haligned : ∀ s ∈ b.samples.map Prod.snd, Aligned s := by
    intro s hs
    obtain ⟨p, hp, rfl⟩ := List.mem_map.1 hs
    exact (hprepared p hp).toAligned
  have hnonempty : b.samples.map Prod.snd ≠ [] → ∃ l, m.loraNumTokens = some l ∧ l ≠ [] := by
    intro hne
    obtain ⟨p, hp⟩ := List.exists_mem_of_ne_nil b.samples fun hnil => hne (by rw [hnil]; rfl)
    refine ⟨l, hl, fun hnil => ?_⟩
    have hlt := hloras p hp
    rw [← hllen, hnil] at hlt
    exact absurd hlt (Nat.not_lt_zero _)
  obtain ⟨n, m', hm', hpacks', -, hempty, -⟩ := padMicroBatch_ok hpad hpacks haligned hnonempty
  obtain ⟨grids, hgrid, hrows⟩ := gridOfKwargs_bin hnp hbin hss (materializeBin_mmKwargs hm)
  rw [← padMicroBatch_mmKwargs hm'] at hgrid
  have halone := ((List.forall₂_and_left _ _).2 ⟨hprepared, hss⟩).imp fun p s h => h.2.alone hmerge h.1
  have hsequences : List.Forall₂ (fun (s : MicroBatch F) seq => tokenTypes s = typesOf seq.pieces ∧ seq.Ok merge ∧
      (typesOf seq.pieces).length = s.inputIds.length) (b.samples.map Prod.snd) ss := by
    rw [List.forall₂_map_left_iff]
    exact ((List.forall₂_and_left _ _).2 ⟨hprepared, hss⟩).imp fun p s h =>
      ⟨h.2.types, (h.2.alone hmerge h.1).1, (h.2.alone hmerge h.1).2.1⟩
  obtain ⟨extra, hpositions, hlen⟩ := positionsOf_packed hmerge hpacks' hempty hgrid hrows hsequences
  refine ⟨m', ss.map (Sequence.positions merge), extra, hm', ?_, ?_, ?_⟩
  · rw [hpacks'.inputIds, hlen, List.flatMap_map]
  · rw [List.forall₂_map_right_iff]
    refine halone.imp fun p s h => ⟨h.2.2, ?_⟩
    rw [h.1.length hmerge, h.2.1]
  · rw [← List.flatMap_def]
    exact hpositions

/-! ## Arrays of bytes -/

theorem byteArrays_stacksRows : StacksRows byteArrays := by
  intro dtype tail n k data data' rows rows' h h'
  match tail with
  | [] => cases h
  | _ :: _ :: _ => cases h
  | [w] =>
    simp only [byteArrays] at h h' ⊢
    split at h
    · split at h'
      · rename_i hlen hlen'
        cases h
        cases h'
        rw [if_pos (by rw [List.length_append, hlen, hlen', Nat.add_mul]), List.range_add, List.map_append,
          List.map_map]
        refine congrArg Except.ok (congrArg₂ _ (List.map_congr_left fun i hi => ?_) (List.map_congr_left fun i _ => ?_))
        · have hrow : (i + 1) * w ≤ n * w := Nat.mul_le_mul_right w (List.mem_range.1 hi)
          rw [Nat.succ_mul] at hrow
          rw [List.drop_append_of_le_length (by omega), List.take_append_of_le_length (by rw [List.length_drop]; omega)]
        · rw [Function.comp_apply, Nat.add_mul, ← List.drop_drop, ← hlen, List.drop_left]
      · cases h'
    · cases h

/-- An image of two tokens with text around it. -/
def pieces : List Piece := [.text 1, .image [1, 1] (by decide) (by decide), .text 1]

/-- Its sample as `prepare_sample` returns it. -/
def imageBatch : MicroBatch Int := finish (ofSample (imageSample pieces) [0, 0, 0, 0])

theorem imageBatch_wellFormed : WellFormed byteArrays 1 imageBatch ⟨pieces, [[1, 2, 1]]⟩ where
  nonempty := by decide
  types := rfl
  layout := by
    refine ⟨?_, .cons ⟨⟨1, 2, 1⟩, rfl, rfl⟩ .nil⟩
    intro block hne hblock hmem
    simp only [pieces, List.mem_cons, Piece.image.injEq, reduceCtorEq, List.not_mem_nil, or_false, false_or] at hmem
    subst hmem
    decide
  grid := by
    intro kwargs hkwargs
    cases hkwargs
    exact ⟨_, rfl, by decide +kernel⟩
  text := by
    intro hkwargs
    cases hkwargs

/-- Two such samples in one micro-batch, padded to nine tokens: the second's positions start again, with its own row. -/
theorem packed_positions_pair : ∃ b m m' alone extra,
    packBins [(0, imageBatch), (0, imageBatch)] 8 1 List.sum = [b] ∧ materializeBin b 1 = .ok m ∧
      padMicroBatch byteArrays 9 m = .ok m' ∧ positionsOf byteArrays 1 m' = .ok (List.flatten alone ++ extra) ∧
      List.flatten alone ++ extra = [⟨0, 0, 0⟩, ⟨1, 1, 1⟩, ⟨1, 2, 1⟩, ⟨3, 3, 3⟩, ⟨0, 0, 0⟩, ⟨1, 1, 1⟩, ⟨1, 2, 1⟩,
        ⟨3, 3, 3⟩, ⟨4, 4, 4⟩] := by
  have hprepared : prepareSample byteArrays (imageSample pieces) 8 = .ok imageBatch := by decide +kernel
  have hpack : ∃ b m m', packBins [(0, imageBatch), (0, imageBatch)] 8 1 List.sum = [b] ∧ materializeBin b 1 = .ok m ∧
      padMicroBatch byteArrays 9 m = .ok m' ∧ positionsOf byteArrays 1 m' = .ok [⟨0, 0, 0⟩, ⟨1, 1, 1⟩, ⟨1, 2, 1⟩,
        ⟨3, 3, 3⟩, ⟨0, 0, 0⟩, ⟨1, 1, 1⟩, ⟨1, 2, 1⟩, ⟨3, 3, 3⟩, ⟨4, 4, 4⟩] := ⟨_, _, _, rfl, rfl, rfl, by decide +kernel⟩
  obtain ⟨b, m, m', hb, hm, hm', heval⟩ := hpack
  have hsamples : ∀ p ∈ [(0, imageBatch), (0, imageBatch)], p = (0, imageBatch) := by simp
  have hprep : ∀ p ∈ [(0, imageBatch), (0, imageBatch)], Prepared byteArrays 8 p.2 := by
    intro p hp
    rw [hsamples p hp]
    exact prepareSample_prepared hprepared
  have hwell : ∀ p ∈ [(0, imageBatch), (0, imageBatch)], ∃ s, WellFormed byteArrays 1 p.2 s := by
    intro p hp
    rw [hsamples p hp]
    exact ⟨_, imageBatch_wellFormed⟩
  have hlora : ∀ p ∈ [(0, imageBatch), (0, imageBatch)], p.1 < 1 := by
    intro p hp
    rw [hsamples p hp]
    exact Nat.one_pos
  obtain ⟨m'', alone, extra, hm'', -, -, hpositions⟩ := @packed_positions Int _ _ byteArrays byteArrays_stacksRows 1
    Nat.one_ne_zero _ 8 1 1 9 List.sum hprep hwell hlora (by decide) b (by rw [hb]; exact List.mem_cons_self) m hm
  obtain rfl := Except.ok.inj (hm'.symm.trans hm'')
  exact ⟨b, m, m', alone, extra, hb, hm, hm', hpositions, Except.ok.inj (hpositions.symm.trans heval)⟩

end Mrope
end Aether
