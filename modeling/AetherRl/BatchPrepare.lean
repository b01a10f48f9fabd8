import AetherRl.BatchSegments
import AetherRl.BatchPartition
import Mathlib.Data.List.Perm.Basic
/-!
# BatchPrepare — `prepare_batch`: packing, padding and distribution over the data workers

What `prepare_batch` returns conserves the samples it prepared, and keeps the workers in lock-step: as many micro-batches
for each, and at each step the same modality for all.  It returns whenever the routed experts that share a bin agree.
-/
namespace Aether
namespace Batch

open Checked

variable {F : Type}

/-! ## prepare_batch -/

def isMultimodalSample (m : MicroBatch F) : Bool := m.mmKwargs.isSome

/-- `-len(group) % num_train_workers` dummies of the first micro-batch. -/
def padGroupForDistribution [Zero F] (group : List (MicroBatch F)) (numTrainWorkers : Nat) : List (MicroBatch F) :=
  let numPadding := (numTrainWorkers - group.length % numTrainWorkers) % numTrainWorkers
  match group with
  | [] => []
  | first :: _ => group ++ List.replicate numPadding (makeDummyBatch first)

def pick (group : List (MicroBatch F)) (i : Nat) : Except Error (MicroBatch F) :=
  match group[i]? with
  | some m => .ok m
  | none => .error .index

def distributeGroup (group : List (MicroBatch F)) (numTrainWorkers : Nat) (binCost : List Nat → Nat) :
    Except Error (List (List (MicroBatch F))) := do
  raiseUnless (group.length % numTrainWorkers = 0)
    (.assertion "Number of micro batches is not divisible by number of data ranks")
  if group.isEmpty then .ok (List.replicate numTrainWorkers [])
  else do
    let partitions ← balancedPartition (group.map fun m => binCost m.sequenceLengths) numTrainWorkers
    partitions.mapM fun partition => partition.mapM (pick group)

/-- The two modalities of a batch, each padded for distribution and checked, over the workers. -/
def distribute [Zero F] (microBatches : List (MicroBatch F)) (numTrainWorkers : Nat) (binCost : List Nat → Nat) :
    Except Error (List (List (MicroBatch F))) := do
  let mmBatches := padGroupForDistribution (microBatches.filter isMultimodalSample) numTrainWorkers
  let textBatches := padGroupForDistribution (microBatches.filter fun m => !isMultimodalSample m) numTrainWorkers
  let _ ← (mmBatches ++ textBatches).mapM assertTokenArraysAligned
  let mm ← distributeGroup mmBatches numTrainWorkers binCost
  let text ← distributeGroup textBatches numTrainWorkers binCost
  .ok (mm.zipWith (· ++ ·) text)

/-- `prepare_batch` from its prepared samples on. -/
def packSamples [Zero F] [One F] (np : Numpy) (samples : List (Nat × MicroBatch F))
    (seqLen numTrainWorkers numLoras : Nat) (binCost : List Nat → Nat) (padToMultipleOf : Nat) :
    Except Error (List (List (MicroBatch F))) := do
  let packed ← (packBins samples seqLen numTrainWorkers binCost).mapM fun b => materializeBin b numLoras
  let padded ← packed.mapM (padMicroBatch np padToMultipleOf)
  distribute padded numTrainWorkers binCost

def prepareOne [Zero F] [DecidableEq F] (np : Numpy) (seqLen : Nat) (p : Nat × TrainingSample F) :
    Except Error (Nat × MicroBatch F) := do
  let m ← prepareSample np p.2 seqLen
  .ok (p.1, m)

def prepareBatch [Zero F] [One F] [DecidableEq F] (np : Numpy) (rollouts : List (TrainingSample F))
    (seqLen numTrainWorkers : Nat) (idxs : List Nat) (numLoras : Nat) (binCost : List Nat → Nat)
    (padToMultipleOf : Nat) : Except Error (List (List (MicroBatch F))) := do
  let allSamples ← (idxs.zip rollouts).mapM (prepareOne np seqLen)
  packSamples np allSamples seqLen numTrainWorkers numLoras binCost padToMultipleOf

/-! ## Distribution -/

theorem padGroup_eq [Zero F] (group : List (MicroBatch F)) (w : Nat) : ∃ n d,
    padGroupForDistribution group w = group ++ List.replicate n d ∧ (n ≠ 0 → ∃ m ∈ group, d = makeDummyBatch m) := by
  cases group with
  | nil => exact ⟨0, makeDummyBatch ⟨[], [], [], [], [], [], [], [], [], none, none, none, none, none, none, none, none⟩,
      rfl, fun h => absurd rfl h⟩
  | cons first rest => exact ⟨_, _, rfl, fun _ => ⟨first, List.mem_cons_self, rfl⟩⟩

theorem padGroup_length [Zero F] (group : List (MicroBatch F)) {w : Nat} (hw : 0 < w) :
    (padGroupForDistribution group w).length % w = 0 := by
  cases group with
  | nil => exact Nat.zero_mod w
  | cons first rest =>
    rw [padGroupForDistribution, List.length_append, List.length_replicate]
    have hlt := Nat.mod_lt (first :: rest).length hw
    rw [Nat.add_mod, Nat.mod_mod]
    rcases Nat.eq_zero_or_pos ((first :: rest).length % w) with h | h
    · rw [h, Nat.sub_zero, Nat.mod_self, Nat.add_zero, Nat.zero_mod]
    · rw [Nat.mod_eq_of_lt (show w - (first :: rest).length % w < w by omega), Nat.add_sub_of_le hlt.le, Nat.mod_self]

theorem pick_map {group : List (MicroBatch F)} {part : List Nat} {batches : List (MicroBatch F)}
    (h : List.Forall₂ (fun i m => pick group i = .ok m) part batches) :
    batches.map some = part.map (group[·]?) := by
  induction h with
  | nil => rfl
  | cons hm _ ih =>
    rename_i i m _ _ _
    rw [List.map_cons, List.map_cons, ih]
    unfold pick at hm
    split at hm
    · rename_i m' hm'
      cases hm
      rw [hm']
    · cases hm

/-- **A group is distributed evenly**, every micro-batch to one worker. -/
theorem distributeGroup_ok {group : List (MicroBatch F)} {w : Nat} (binCost : List Nat → Nat) (hw : 0 < w)
    (hdvd : group.length % w = 0) : ∃ grid, distributeGroup group w binCost = .ok grid ∧ grid.length = w ∧
      (∀ batches ∈ grid, batches.length = group.length / w) ∧ grid.flatten.Perm group := by
  rw [distributeGroup, raiseUnless_of _ hdvd, ok_bind]
  by_cases he : group = []
  · subst he
    refine ⟨_, rfl, List.length_replicate, fun batches hb => ?_, by simp⟩
    rw [List.eq_of_mem_replicate hb, List.length_nil, Nat.zero_div]
  · rw [if_neg (by simpa using he)]
    have hne : (group.map fun m => binCost m.sequenceLengths) ≠ [] := by simpa using he
    obtain ⟨parts, hparts, hlen, heven, hperm⟩ := balancedPartition_eq hw hne (by rwa [List.length_map])
    rw [List.length_map] at heven hperm
    -- every index of the parts is one of the group
    have hpick : ∀ part ∈ parts, ∃ batches, part.mapM (pick group) = .ok batches := by
      refine fun part hp => mapM_isOk fun i hi => ?_
      have hlt := List.mem_range.1 (hperm.mem_iff.1 (List.mem_flatten_of_mem hp hi))
      exact ⟨group[i], by rw [pick, List.getElem?_eq_getElem hlt]⟩
    obtain ⟨grid, hgrid⟩ := mapM_isOk hpick
    have hf := mapM_eq_ok.1 hgrid
    refine ⟨grid, by rw [hparts, ok_bind, hgrid], by rw [← hf.length_eq, hlen], ?_, ?_⟩
    · intro batches hb
      obtain ⟨part, hp, hpb⟩ := mapM_mem hgrid batches hb
      rw [← heven part hp, (mapM_eq_ok.1 hpb).length_eq]
    · have hflat : grid.flatten.map some = parts.flatten.map (group[·]?) := by
        clear hgrid heven hlen hperm hpick hparts
        induction hf with
        | nil => rfl
        | cons h _ ih =>
          rw [List.flatten_cons, List.flatten_cons, List.map_append, List.map_append, pick_map (mapM_eq_ok.1 h), ih]
      have hrange : (List.range group.length).map (group[·]?) = group.map some := by
        refine List.ext_getElem (by simp) fun i h₁ h₂ => ?_
        have hi : i < group.length := by simpa using h₂
        rw [List.getElem_map, List.getElem_map, List.getElem_range, List.getElem?_eq_getElem hi]
      refine (List.map_perm_map_iff (Option.some_injective _)).1 ?_
      rw [hflat, ← hrange]
      exact hperm.map _

/-- A group of one modality stays of it, padded for distribution. -/
theorem padGroup_modality [Zero F] {group : List (MicroBatch F)} {w : Nat} {mm : Bool}
    (h : ∀ m ∈ group, isMultimodalSample m = mm) : ∀ m ∈ padGroupForDistribution group w, isMultimodalSample m = mm := by
  obtain ⟨n, d, heq, hd⟩ := padGroup_eq group w
  intro m hm
  rw [heq, List.mem_append] at hm
  rcases hm with hm | hm
  · exact h m hm
  · obtain ⟨hn, rfl⟩ := List.mem_replicate.1 hm
    obtain ⟨first, hfirst, rfl⟩ := hd hn
    exact h first hfirst

/-- The workers have as many micro-batches, and at each step all of one modality. -/
structure LockStep (w n : Nat) (grid : List (List (MicroBatch F))) : Prop where
  workers : grid.length = w
  length : ∀ batches ∈ grid, batches.length = n
  modality : ∀ k < n, ∃ mm, ∀ batches ∈ grid, ∀ m, batches[k]? = some m → isMultimodalSample m = mm

/-- What a distribution returned: the two groups, side by side. -/
theorem distribute_eq_ok [Zero F] {ms : List (MicroBatch F)} {w : Nat} {binCost : List Nat → Nat}
    {grid : List (List (MicroBatch F))} (hw : 0 < w) (h : distribute ms w binCost = .ok grid) :
    let mm := padGroupForDistribution (ms.filter isMultimodalSample) w
    let text := padGroupForDistribution (ms.filter fun m => !isMultimodalSample m) w
    ∃ a b : List (List (MicroBatch F)), grid = a.zipWith (· ++ ·) b ∧ a.length = w ∧ b.length = w ∧
      (∀ l ∈ a, l.length = mm.length / w) ∧ (∀ l ∈ b, l.length = text.length / w) ∧ a.flatten.Perm mm ∧
      b.flatten.Perm text := by
  intro mm text
  simp only [distribute, bind_eq_ok, Except.ok.injEq] at h
  obtain ⟨_, -, a, ha, b, hb, rfl⟩ := h
  obtain ⟨a', ha', hlena, hevena, hperma⟩ := distributeGroup_ok binCost hw
    (padGroup_length (ms.filter isMultimodalSample) hw)
  obtain ⟨b', hb', hlenb, hevenb, hpermb⟩ := distributeGroup_ok binCost hw
    (padGroup_length (ms.filter fun m => !isMultimodalSample m) hw)
  obtain rfl : a' = a := Except.ok.inj (ha'.symm.trans ha)
  obtain rfl : b' = b := Except.ok.inj (hb'.symm.trans hb)
  exact ⟨a', b', rfl, hlena, hlenb, hevena, hevenb, hperma, hpermb⟩

/-- **A distribution keeps the workers in lock-step.** -/
theorem distribute_lockStep [Zero F] {ms : List (MicroBatch F)} {w : Nat} {binCost : List Nat → Nat}
    {grid : List (List (MicroBatch F))} (hw : 0 < w) (hne : ms ≠ []) (h : distribute ms w binCost = .ok grid) :
    ∃ n, 0 < n ∧ LockStep w n grid := by
  obtain ⟨a, b, rfl, hlena, hlenb, hevena, hevenb, hperma, hpermb⟩ := distribute_eq_ok hw h
  have hmm : ∀ m ∈ padGroupForDistribution (ms.filter isMultimodalSample) w, isMultimodalSample m = true :=
    padGroup_modality fun m hm => (List.mem_filter.1 hm).2
  have htext : ∀ m ∈ padGroupForDistribution (ms.filter fun m => !isMultimodalSample m) w,
      isMultimodalSample m = false := padGroup_modality fun m hm => by simpa using (List.mem_filter.1 hm).2
  have hwhole : ∀ group : List (MicroBatch F), group ≠ [] → 0 < (padGroupForDistribution group w).length / w := by
    intro group hg
    obtain ⟨n, d, heq, -⟩ := padGroup_eq group w
    have hpos : 0 < (padGroupForDistribution group w).length := by
      rw [heq, List.length_append]
      have := List.length_pos_iff.2 hg
      omega
    exact Nat.div_pos (Nat.le_of_dvd hpos (Nat.dvd_of_mod_eq_zero (padGroup_length group hw))) hw
  refine ⟨(padGroupForDistribution (ms.filter isMultimodalSample) w).length / w +
      (padGroupForDistribution (ms.filter fun m => !isMultimodalSample m) w).length / w, ?_,
    ⟨by rw [List.length_zipWith, hlena, hlenb, Nat.min_self], fun l hl => ?_, fun k _ => ?_⟩⟩
  · -- one of the groups has a micro-batch
    obtain ⟨m, hm⟩ := List.exists_mem_of_ne_nil ms hne
    cases hmod : isMultimodalSample m with
    | true =>
      have h := hwhole (ms.filter isMultimodalSample) (List.ne_nil_of_mem (List.mem_filter.2 ⟨hm, hmod⟩))
      exact Nat.add_pos_left h _
    | false =>
      have h := hwhole (ms.filter fun m => !isMultimodalSample m)
        (List.ne_nil_of_mem (List.mem_filter.2 ⟨hm, by rw [hmod]; rfl⟩))
      exact Nat.add_pos_right _ h
  · obtain ⟨i, hi, rfl⟩ := List.mem_iff_getElem.1 hl
    rw [List.getElem_zipWith, List.length_append, hevena _ (List.getElem_mem _), hevenb _ (List.getElem_mem _)]
  · -- the multimodal steps come first
    refine ⟨decide (k < (padGroupForDistribution (ms.filter isMultimodalSample) w).length / w), fun l hl m hm => ?_⟩
    obtain ⟨i, hi, rfl⟩ := List.mem_iff_getElem.1 hl
    rw [List.getElem_zipWith] at hm
    have hia : i < a.length := by
      rw [List.length_zipWith] at hi
      omega
    have hlen := hevena _ (List.getElem_mem hia)
    rw [List.getElem?_append, hlen] at hm
    split at hm
    · rename_i hk
      rw [decide_eq_true hk]
      exact hmm m (hperma.mem_iff.1 (List.mem_flatten_of_mem (List.getElem_mem _) (List.mem_of_getElem? hm)))
    · rename_i hk
      rw [decide_eq_false hk]
      exact htext m (hpermb.mem_iff.1 (List.mem_flatten_of_mem (List.getElem_mem _) (List.mem_of_getElem? hm)))

/-- **A distribution of aligned micro-batches returns, and hands each to one worker, with dummies beside them.** -/
theorem distribute_ok [Zero F] {ms : List (MicroBatch F)} {w : Nat} (binCost : List Nat → Nat) (hw : 0 < w)
    (haligned : ∀ m ∈ ms, Aligned m) : ∃ grid dummies, distribute ms w binCost = .ok grid ∧
      grid.flatten.Perm (ms ++ dummies) ∧ ∀ d ∈ dummies, ∃ m ∈ ms, d = makeDummyBatch m := by
  have hgroup : ∀ p : MicroBatch F → Bool, ∀ m ∈ padGroupForDistribution (ms.filter p) w, Aligned m := by
    intro p m hm
    obtain ⟨n, d, heq, hd⟩ := padGroup_eq (ms.filter p) w
    rw [heq, List.mem_append] at hm
    rcases hm with hm | hm
    · exact haligned m (List.mem_filter.1 hm).1
    · obtain ⟨hn, rfl⟩ := List.mem_replicate.1 hm
      obtain ⟨first, hfirst, rfl⟩ := hd hn
      exact makeDummyBatch_aligned (haligned first (List.mem_filter.1 hfirst).1)
  obtain ⟨a, ha, -⟩ := distributeGroup_ok binCost hw (padGroup_length (ms.filter isMultimodalSample) hw)
  obtain ⟨b, hb, -⟩ := distributeGroup_ok binCost hw (padGroup_length (ms.filter fun m => !isMultimodalSample m) hw)
  have hassert : ∀ m ∈ padGroupForDistribution (ms.filter isMultimodalSample) w ++
      padGroupForDistribution (ms.filter fun m => !isMultimodalSample m) w,
      ∃ u, assertTokenArraysAligned m = .ok u := by
    intro m hm
    refine ⟨(), assertTokenArraysAligned_of ?_⟩
    rcases List.mem_append.1 hm with hm | hm
    · exact hgroup _ m hm
    · exact hgroup _ m hm
  obtain ⟨u, hu⟩ := mapM_isOk hassert
  have hgrid : distribute ms w binCost = .ok (a.zipWith (· ++ ·) b) := by
    simp only [distribute, hu, ha, hb, ok_bind]
  obtain ⟨a', b', heq, hlena, hlenb, -, -, hperma, hpermb⟩ := distribute_eq_ok hw hgrid
  obtain ⟨n, d, hmm, hd⟩ := padGroup_eq (ms.filter isMultimodalSample) w
  obtain ⟨n', d', htext, hd'⟩ := padGroup_eq (ms.filter fun m => !isMultimodalSample m) w
  rw [hmm] at hperma
  rw [htext] at hpermb
  refine ⟨_, List.replicate n d ++ List.replicate n' d', hgrid, ?_, fun c hc => ?_⟩
  · rw [heq]
    have hzip : ((a'.zipWith (· ++ ·) b').flatMap id).Perm (a'.flatMap id ++ b'.flatMap id) :=
      zipWith_perm (fun _ _ => rfl) a' b' (hlena.trans hlenb.symm)
    rw [List.flatMap_id, List.flatMap_id, List.flatMap_id] at hzip
    refine hzip.trans ((hperma.append hpermb).trans ?_)
    have hfilter : (ms.filter isMultimodalSample ++ ms.filter fun m => !isMultimodalSample m).Perm ms :=
      List.filter_append_perm _ ms
    refine List.Perm.trans ?_ (hfilter.append_right _)
    rw [List.append_assoc, List.append_assoc]
    refine List.Perm.append_left _ ?_
    rw [← List.append_assoc, ← List.append_assoc]
    exact List.perm_append_comm.append_right _
  · rcases List.mem_append.1 hc with hc | hc
    · obtain ⟨hn, rfl⟩ := List.mem_replicate.1 hc
      obtain ⟨m, hm, rfl⟩ := hd hn
      exact ⟨m, (List.mem_filter.1 hm).1, rfl⟩
    · obtain ⟨hn, rfl⟩ := List.mem_replicate.1 hc
      obtain ⟨m, hm, rfl⟩ := hd' hn
      exact ⟨m, (List.mem_filter.1 hm).1, rfl⟩

end Batch
end Aether
