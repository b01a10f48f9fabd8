import AetherRl.RepoAdmits
import AetherRl.RepoRollouts
/-!
# RepoTrainingAdmits — what the schema admits of the processed tables

A group's row is admitted when its artifact is not another group's and has the form of one, its rollouts under free
ordinals, and a batch under a free step with an artifact of its own; a rollout that waits may always be discarded, and
be placed where nothing is placed yet.
-/
namespace Aether

open Tables Repo

variable {t : Tables}

/-- The place of a rollout, as the schema keeps it unique. -/
def ProcessedRolloutRow.place? (r : ProcessedRolloutRow) : Option (Int × Int) :=
  r.batchStep.bind fun n => r.batchOrdinal.map fun o => (n, o)

theorem place?_eq_none {r : ProcessedRolloutRow} (h : r.batchStep = none) : r.place? = none := by
  rw [ProcessedRolloutRow.place?, h]
  rfl

/-! ## Groups and their rollouts -/

/-- What the schema asks of a group that is to be recorded. -/
structure Repo.ProcessedGroupArgs.Admitted (p : ProcessedGroupArgs) (t : Tables) : Prop where
  size : 0 < p.sizeBytes
  inputShape : digestShape p.inputDigest = true
  artifactShape : digestShape p.artifactDigest = true
  digest : ∀ g ∈ t.processedGroups, g.artifactDigest ≠ p.artifactDigest
  path : ∀ g ∈ t.processedGroups, g.artifactPath ≠ p.artifactPath
  tokens : ∀ n ∈ p.tokenCounts, 0 ≤ n

/-- **A group is admitted** that is there and not recorded. -/
theorem schema_insertProcessedGroup {p : ProcessedGroupArgs} {now : Time} (hk : SchemaOk t) (h : p.Admitted t)
    (hnew : t.processedGroup? p.groupId = none) (hgroup : ∃ g ∈ t.groups, g.groupId = p.groupId) :
    SchemaOk (insertProcessedGroup (p.row now) t) := by
  have hp := hk.processed
  exact {
    run := { hk.run with }
    policies := { hk.policies with }
    sessions := { hk.sessions with }
    groups := { hk.groups with }
    assignments := { hk.assignments with }
    leases := { hk.leases with }
    results := { hk.results with }
    failures := { hk.failures with }
    outcomes := { hk.outcomes with }
    scheduler := { hk.scheduler with }
    sources := { hk.sources with }
    cancellations := { hk.cancellations with }
    requests := { hk.requests with }
    batches := { hk.batches with }
    processed := { hp with
      groupKey := nodup_map_append ProcessedGroupRow.groupId hp.groupKey ((Rows.get_eq_none _).1 hnew)
      groupDigest := nodup_map_append ProcessedGroupRow.artifactDigest hp.groupDigest h.digest
      groupPath := nodup_map_append ProcessedGroupRow.artifactPath hp.groupPath h.path
      group := forall_mem_append_singleton hp.group hgroup
      groupSize := forall_mem_append_singleton hp.groupSize h.size
      inputShape := forall_mem_append_singleton hp.inputShape h.inputShape
      artifactShape := forall_mem_append_singleton hp.artifactShape h.artifactShape
      processed := fun r hr => by
        obtain ⟨g, hg, hid⟩ := hp.processed r hr
        exact ⟨g, List.mem_append_left _ hg, hid⟩ } }

theorem newRollouts_key (i : OpaqueId) (counts : List Int) :
    (newRollouts i counts).map ProcessedRolloutRow.key = (List.range counts.length).map fun n : Nat => (i, (n : Int)) := by
  rw [newRollouts, List.map_map]
  refine List.ext_getElem (by simp) fun n hn hn' => ?_
  simp [ProcessedRolloutRow.key]

theorem newRollouts_row {i : OpaqueId} {counts : List Int} {r : ProcessedRolloutRow} (hr : r ∈ newRollouts i counts) :
    r.groupId = i ∧ 0 ≤ r.ordinal ∧ r.tokenCount ∈ counts ∧ r.batchStep = none ∧ r.batchOrdinal = none ∧
      r.discarded = false := by
  obtain ⟨⟨n, k⟩, hx, rfl⟩ := List.mem_map.1 hr
  exact ⟨rfl, Int.natCast_nonneg k, List.fst_mem_of_mem_zipIdx hx, rfl, rfl, rfl⟩

/-- **The rollouts of a group are admitted** that has none yet. -/
theorem schema_insertProcessedRollouts {i : OpaqueId} {counts : List Int} (hk : SchemaOk t)
    (hgroup : ∃ g ∈ t.processedGroups, g.groupId = i) (hnew : ∀ r ∈ t.processedRollouts, r.groupId ≠ i)
    (htokens : ∀ n ∈ counts, 0 ≤ n) : SchemaOk (insertProcessedRollouts (newRollouts i counts) t) := by
  have hp := hk.processed
  have hrows : ∀ {P : ProcessedRolloutRow → Prop}, (∀ r ∈ t.processedRollouts, P r) →
      (∀ r ∈ newRollouts i counts, P r) → ∀ r ∈ t.processedRollouts ++ newRollouts i counts, P r :=
    fun hold hadd r hr => (List.mem_append.1 hr).elim (hold r) (hadd r)
  have hkeys : ((t.processedRollouts ++ newRollouts i counts).map ProcessedRolloutRow.key).Nodup := by
    rw [List.map_append, newRollouts_key, List.nodup_append]
    refine ⟨hp.key, List.nodup_range.map fun a b he => ?_, fun k hk k' hk' he => ?_⟩
    · exact Int.ofNat_inj.1 (congrArg Prod.snd he)
    · obtain ⟨r, hr, rfl⟩ := List.mem_map.1 hk
      obtain ⟨n, _, rfl⟩ := List.mem_map.1 hk'
      exact hnew r hr (congrArg Prod.fst he)
  have hplaces : (newRollouts i counts).filterMap ProcessedRolloutRow.place? = [] :=
    List.filterMap_eq_nil_iff.2 fun r hr => place?_eq_none (newRollouts_row hr).2.2.2.1
  exact {
    run := { hk.run with }
    policies := { hk.policies with }
    sessions := { hk.sessions with }
    groups := { hk.groups with }
    assignments := { hk.assignments with }
    leases := { hk.leases with }
    results := { hk.results with }
    failures := { hk.failures with }
    outcomes := { hk.outcomes with }
    scheduler := { hk.scheduler with }
    sources := { hk.sources with }
    cancellations := { hk.cancellations with }
    requests := { hk.requests with }
    batches := { hk.batches with }
    processed := { hp with
      key := hkeys
      processed := hrows hp.processed fun r hr => by rw [(newRollouts_row hr).1]; exact hgroup
      batch := hrows hp.batch fun r hr n hn => by rw [(newRollouts_row hr).2.2.2.1] at hn; cases hn
      place := by
        change ((t.processedRollouts ++ newRollouts i counts).filterMap ProcessedRolloutRow.place?).Nodup
        rw [List.filterMap_append, hplaces, List.append_nil]
        exact hp.place
      ordinal := hrows hp.ordinal fun r hr => (newRollouts_row hr).2.1
      tokens := hrows hp.tokens fun r hr => htokens _ (newRollouts_row hr).2.2.1
      placed := hrows hp.placed fun r hr => .inl ⟨(newRollouts_row hr).2.2.2.1, (newRollouts_row hr).2.2.2.2.1⟩
      discarded := hrows hp.discarded fun r hr => .inl (newRollouts_row hr).2.2.2.2.2 } }

/-! ## Batches -/

/-- What the schema asks of a batch that is to be recorded. -/
structure Repo.TrainingBatchArgs.Admitted (b : TrainingBatchArgs) (t : Tables) : Prop where
  step : 0 < b.step
  size : 0 < b.sizeBytes
  samples : 0 < b.sampleCount
  shape : digestShape b.artifactDigest = true
  digest : ∀ x ∈ t.batches, x.artifactDigest ≠ b.artifactDigest
  path : ∀ x ∈ t.batches, x.artifactPath ≠ b.artifactPath

/-- **A batch is admitted** whose step is free. -/
theorem schema_insertBatch {b : TrainingBatchArgs} {now : Time} (hk : SchemaOk t) (h : b.Admitted t)
    (hnew : t.batch? b.step = none) : SchemaOk (insertBatch (b.row now) t) := by
  have hb := hk.batches
  exact {
    run := { hk.run with }
    policies := { hk.policies with }
    sessions := { hk.sessions with }
    groups := { hk.groups with }
    assignments := { hk.assignments with }
    leases := { hk.leases with }
    results := { hk.results with }
    failures := { hk.failures with }
    outcomes := { hk.outcomes with }
    scheduler := { hk.scheduler with }
    sources := { hk.sources with }
    cancellations := { hk.cancellations with }
    requests := { hk.requests with }
    batches := {
      key := nodup_map_append BatchRow.step hb.key ((Rows.get_eq_none _).1 hnew)
      digestUnique := nodup_map_append BatchRow.artifactDigest hb.digestUnique h.digest
      path := nodup_map_append BatchRow.artifactPath hb.path h.path
      step := forall_mem_append_singleton hb.step h.step
      size := forall_mem_append_singleton hb.size h.size
      samples := forall_mem_append_singleton hb.samples h.samples
      digest := forall_mem_append_singleton hb.digest h.shape }
    processed := { hk.processed with
      batch := fun r hr n hn => by
        obtain ⟨x, hx, hid⟩ := hk.processed.batch r hr n hn
        exact ⟨x, List.mem_append_left _ hx, hid⟩ } }

/-! ## Rollouts that leave the waiting ones -/

theorem schema_setProcessedRollouts {f : ProcessedRolloutRow → ProcessedRolloutRow} (hk : SchemaOk t)
    (hkey : ∀ r, (f r).key = r.key) (htokens : ∀ r, (f r).tokenCount = r.tokenCount)
    (hbatch : ∀ r ∈ t.processedRollouts, ∀ n ∈ (f r).batchStep, ∃ b ∈ t.batches, b.step = n)
    (hplace : ((t.processedRollouts.map f).filterMap ProcessedRolloutRow.place?).Nodup)
    (hplaced : ∀ r ∈ t.processedRollouts, ((f r).batchStep = none ∧ (f r).batchOrdinal = none) ∨
      ((f r).batchStep ≠ none ∧ (f r).batchOrdinal ≠ none ∧ ∀ o ∈ (f r).batchOrdinal, 0 ≤ o))
    (hdiscarded : ∀ r ∈ t.processedRollouts, (f r).discarded = false ∨ (f r).batchStep = none) :
    SchemaOk (setProcessedRollouts f t) := by
  have hp := hk.processed
  have hrows : ∀ {P : ProcessedRolloutRow → Prop}, (∀ r ∈ t.processedRollouts, P (f r)) →
      ∀ r ∈ t.processedRollouts.map f, P r := fun h => List.forall_mem_map.2 h
  have hgroup : ∀ r, (f r).groupId = r.groupId := fun r => congrArg Prod.fst (hkey r)
  have hordinal : ∀ r, (f r).ordinal = r.ordinal := fun r => congrArg Prod.snd (hkey r)
  exact {
    run := { hk.run with }
    policies := { hk.policies with }
    sessions := { hk.sessions with }
    groups := { hk.groups with }
    assignments := { hk.assignments with }
    leases := { hk.leases with }
    results := { hk.results with }
    failures := { hk.failures with }
    outcomes := { hk.outcomes with }
    scheduler := { hk.scheduler with }
    sources := { hk.sources with }
    cancellations := { hk.cancellations with }
    requests := { hk.requests with }
    batches := { hk.batches with }
    processed := { hp with
      key := by
        change ((t.processedRollouts.map f).map ProcessedRolloutRow.key).Nodup
        rw [List.map_map, show ProcessedRolloutRow.key ∘ f = ProcessedRolloutRow.key from funext hkey]
        exact hp.key
      processed := hrows fun r hr => by rw [hgroup]; exact hp.processed r hr
      batch := hrows hbatch
      place := hplace
      ordinal := hrows fun r hr => by rw [hordinal]; exact hp.ordinal r hr
      tokens := hrows fun r hr => by rw [htokens]; exact hp.tokens r hr
      placed := hrows hplaced
      discarded := hrows hdiscarded } }

/-- **A waiting rollout may be discarded.** -/
theorem schema_discard {members : List (OpaqueId × Int)} (hk : SchemaOk t) :
    SchemaOk (setProcessedRollouts (discardRow members) t) := by
  have hp := hk.processed
  have hstep : ∀ r, (discardRow members r).batchStep = r.batchStep := fun r => by unfold discardRow; split <;> rfl
  have hordinal : ∀ r, (discardRow members r).batchOrdinal = r.batchOrdinal := fun r => by
    unfold discardRow
    split <;> rfl
  have hplace : ∀ r, (discardRow members r).place? = r.place? := fun r => by
    rw [ProcessedRolloutRow.place?, hstep, hordinal, ProcessedRolloutRow.place?]
  refine schema_setProcessedRollouts hk (discardRow_key members) (fun r => by unfold discardRow; split <;> rfl)
    (fun r hr n hn => hp.batch r hr n (hstep r ▸ hn)) ?_ (fun r hr => ?_) fun r hr => ?_
  · rw [List.filterMap_map, show ProcessedRolloutRow.place? ∘ discardRow members = ProcessedRolloutRow.place? from
      funext hplace]
    exact hp.place
  · rw [hstep, hordinal]
    exact hp.placed r hr
  · rw [hstep]
    unfold discardRow
    split
    · rename_i h
      have hpending := h.2
      simp only [ProcessedRolloutRow.pending, Bool.and_eq_true, Option.isNone_iff_eq_none] at hpending
      exact .inr hpending.1
    · exact hp.discarded r hr

/-- Placing one member changes its row alone. -/
theorem placeRow_singleton (step : Int) (k : Nat) (m : OpaqueId × Int) (r : ProcessedRolloutRow) :
    placeRow step k [m] r = r ∨
      r.key = m ∧ placeRow step k [m] r = { r with batchStep := some step, batchOrdinal := some (k : Int) } := by
  unfold placeRow
  split
  · rename_i h
    obtain rfl := List.mem_singleton.1 h.1
    refine .inr ⟨rfl, ?_⟩
    rw [List.idxOf_cons_self, Nat.add_zero]
  · exact .inl rfl

/-- **A waiting rollout may be placed** in a batch at an ordinal that is free. -/
theorem schema_place {step : Int} {k : Nat} {m : OpaqueId × Int} (hk : SchemaOk t)
    (hbatch : ∃ b ∈ t.batches, b.step = step) (hm : m ∈ t.pendingKeys)
    (hfree : ∀ r ∈ t.processedRollouts, r.place? ≠ some (step, (k : Int))) :
    SchemaOk (setProcessedRollouts (placeRow step k [m]) t) := by
  have hp := hk.processed
  have hcases := placeRow_singleton step k m
  refine schema_setProcessedRollouts hk (placeRow_key step k [m]) (fun r => ?_) (fun r hr n hn => ?_) ?_ (fun r hr => ?_)
    fun r hr => ?_
  · obtain h | ⟨_, h⟩ := hcases r <;> rw [h]
  · obtain h | ⟨_, h⟩ := hcases r <;> rw [h] at hn
    · exact hp.batch r hr n hn
    · cases hn
      exact hbatch
  · -- one row is placed at most, and where no other is
    rw [List.filterMap_map, List.Nodup, List.pairwise_filterMap]
    have hkeys : t.processedRollouts.Pairwise fun r r' => r.key ≠ r'.key := List.pairwise_map.1 hp.key
    have hold : t.processedRollouts.Pairwise fun r r' => ∀ x ∈ r.place?, ∀ y ∈ r'.place?, x ≠ y :=
      List.pairwise_filterMap.1 hp.place
    refine (hkeys.and hold).imp_of_mem fun {r r'} hr hr' hboth x hx y hy => ?_
    obtain ⟨hne, hapart⟩ := hboth
    simp only [Function.comp_apply] at hx hy
    obtain h | ⟨hm, h⟩ := hcases r <;> obtain h' | ⟨hm', h'⟩ := hcases r' <;> rw [h] at hx <;> rw [h'] at hy
    · exact hapart x hx y hy
    · cases hy
      exact fun he => hfree r hr (hx.trans (congrArg some he))
    · cases hx
      exact fun he => hfree r' hr' (hy.trans (congrArg some he.symm))
    · exact absurd (hm.trans hm'.symm) hne
  · obtain h | ⟨_, h⟩ := hcases r <;> rw [h]
    · exact hp.placed r hr
    · refine .inr ⟨Option.some_ne_none _, Option.some_ne_none _, fun o ho => ?_⟩
      cases ho
      exact Int.natCast_nonneg k
  · obtain h | ⟨hkey, h⟩ := hcases r <;> rw [h]
    · exact hp.discarded r hr
    · obtain ⟨r', hr', hpending, hkey'⟩ := mem_pendingKeys.1 hm
      obtain rfl := Rows.eq_of_key _ hp.key hr' hr (hkey'.trans hkey.symm)
      simp only [ProcessedRolloutRow.pending, Bool.and_eq_true, Bool.not_eq_true'] at hpending
      exact .inl hpending.2

end Aether
