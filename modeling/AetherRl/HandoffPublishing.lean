import AetherRl.HandoffSteps
/-!
# HandoffPublishing — the coordinator's operations, and the events that befall either process

The coordinator's side of `HandoffSteps`: a publication takes the version after the active one once its checkpoint is
marked, an export adds a batch file, a removal takes what no one reads any more.  With the trainer's side, every event
keeps what `HandoffSound` states.
-/
namespace Aether
namespace Handoff

variable {p : Training} {c : Config} {s s' : State p} {models : Nat → p.Model} {last : Nat}

/-! ## What the coordinator leaves to the trainer -/

theorem gridAt_mono {d d' : Disk p} {step : Nat} {grid : List (List p.Micro)}
    (hr : ∀ data, d.rollouts step = some data → d'.rollouts step = some data) (h : gridAt c d step = some grid) :
    gridAt c d' step = some grid := by
  rw [gridAt, Option.bind_eq_some_iff] at h
  obtain ⟨batch, hbatch, hg⟩ := h
  obtain ⟨data, hdata, hd⟩ := Option.bind_eq_some_iff.1 hbatch
  rw [gridAt, hr data hdata, Option.bind_some, hd, Option.bind_some, hg]

theorem Trains.mono {d d' : Disk p} {step : Nat} {m m' : p.Model}
    (hr : ∀ data, d.rollouts step = some data → d'.rollouts step = some data) (h : Trains c d step m m') :
    Trains c d' step m m' := by
  obtain ⟨grid, noise, hg, hm⟩ := h
  exact ⟨grid, noise, gridAt_mono hr hg, hm⟩

/-- What the coordinator changes of the directory while a trainer runs: batch files appear, what is published goes. -/
structure Disk.Serves (d d' : Disk p) (last : Nat) : Prop where
  orchToml : d'.orchToml = d.orchToml
  rollouts : ∀ n data, d.rollouts n = some data → d'.rollouts n = some data
  micro : d'.micro = d.micro
  broadcasts : d'.broadcasts (last + 1) = d.broadcasts (last + 1)
  checkpoints : d'.checkpoints (last + 1) = d.checkpoints (last + 1)

theorem Disk.Serves.refl (d : Disk p) (last : Nat) : d.Serves d last := ⟨rfl, fun _ _ h => h, rfl, rfl, rfl⟩

theorem TrainerOk.frame {d d' : Disk p} {t : Trainer p} (h : TrainerOk c d models last t) (hd : d.Serves d' last) :
    TrainerOk c d' models last t := by
  have htrained : t.Trained c d models last → t.Trained c d' models last := fun ht =>
    ⟨ht.toTaken, ht.sent, ht.receiving, ht.trains.mono (hd.rollouts (last + 1))⟩
  have hgrid : ∀ grid, gridAt c d (last + 1) = some grid → gridAt c d' (last + 1) = some grid := fun grid hg =>
    gridAt_mono (hd.rollouts (last + 1)) hg
  rw [TrainerOk] at h ⊢
  cases hp : t.phase <;> rw [hp] at h <;> simp only [hd.orchToml, hd.micro, hd.broadcasts, hd.checkpoints] at h ⊢
  case discover | load | setup | wait | advance => exact h
  case pack batch =>
    obtain ⟨hmodel, hprogress, hrun, hreceived, hsent, hreceiving, hbatch⟩ := h
    refine ⟨hmodel, hprogress, hrun, hreceived, hsent, hreceiving, ?_⟩
    obtain ⟨data, hdata, hb⟩ := Option.bind_eq_some_iff.1 hbatch
    rw [hd.rollouts _ data hdata, Option.bind_some, hb]
  case send grid rank =>
    obtain ⟨htaken, hmodel, hready, hsent, hreceiving, hg, hmicro⟩ := h
    exact ⟨htaken, hmodel, hready, hsent, hreceiving, hgrid grid hg, hmicro⟩
  case receive =>
    obtain ⟨htaken, hmodel, hready, hsent, hreceiving, grid, hg, hmicro⟩ := h
    exact ⟨htaken, hmodel, hready, hsent, hreceiving, grid, hgrid grid hg, hmicro⟩
  case train grid =>
    obtain ⟨htaken, hmodel, hready, hsent, hreceiving, hg⟩ := h
    exact ⟨htaken, hmodel, hready, hsent, hreceiving, hgrid grid hg⟩
  case broadcast | broadcastFiles | notify | clean | checkpoint | checkpointFiles | markStable =>
    exact ⟨htrained h.1, h.2⟩

/-! ## Publications -/

/-- **An activation of the version after the active one.** -/
theorem Kept.activate {records : Records} {published : List (Nat × Digest)} {d : Disk p}
    (h : Kept c records published d models last) (hle : records.active + 1 ≤ last) :
    ∃ records', records.recordAndActivatePolicy (records.active + 1) (policyOf models (records.active + 1)) =
      some records' ∧ records'.active = records.active + 1 ∧ records'.batches = records.batches ∧
      Kept c records' published d models last := by
  have hnone : records.policies.find? (fun q => q.1 = records.active + 1) = none := by
    rw [List.find?_eq_none, h.policies]
    intro q hq
    obtain ⟨i, hi, rfl⟩ := List.mem_map.1 hq
    have := List.mem_range.1 hi
    rw [decide_eq_true_eq]
    omega
  refine ⟨{ records with
    policies := records.policies ++ [(records.active + 1, policyOf models (records.active + 1))]
    active := records.active + 1 }, ?_, rfl, rfl, ?_⟩
  · rw [Records.recordAndActivatePolicy, hnone]
    exact if_pos (Nat.le_succ _)
  exact {
    active_le := hle
    initial := h.initial
    lineage := h.lineage
    policies := by rw [List.range_succ, List.map_append, ← h.policies]; rfl
    published := h.published
    steps := h.steps
    rollouts := h.rollouts
    broadcasts := fun v ha hl => h.broadcasts v (Nat.lt_of_succ_lt ha) hl
    checkpoints := fun v h1 ha hl => h.checkpoints v h1 (Nat.le_of_succ_le ha) hl
    unstable := h.unstable }

/-- What a step of a publication leads to. -/
structure Published (c : Config) (s s' : State p) (models : Nat → p.Model) (last : Nat) (r : Publishing p ⊕ Bool) :
    Prop where
  kept : Kept c s'.records s'.published s'.disk models last
  disk : s'.disk = s.disk
  trainer : s'.trainer = s.trainer
  coordinator : s'.coordinator = s.coordinator
  next : ∀ publishing, r = .inl publishing → PublishingOk s' models last publishing
  none : r = .inr false → s'.records.active = last

theorem stable_of_any {α : Type} {d : Option (StepDir α)} (h : d.any StepDir.stable = true) :
    ∃ dir ∈ d, dir.stable = true := by
  cases d with
  | none => cases h
  | some dir => exact ⟨dir, rfl, h⟩

/-- **A publication is of the version after the active one, and reads what its trainer had when it marked that version's
checkpoint.** -/
theorem published_next {publishing : Publishing p} {r : Publishing p ⊕ Bool}
    (h : Kept c s.records s.published s.disk models last) (hp : PublishingOk s models last publishing)
    (hn : s.publishNext publishing = some (s', r)) : Published c s s' models last r := by
  have hfalse : ¬ s.records.active + 1 ≤ last → s.records.active = last := fun hlt => by
    have := h.active_le
    omega
  cases publishing with
  | look =>
    cases hn
    exact ⟨h, rfl, rfl, rfl, fun _ hr => by cases hr; rfl, fun hr => by cases hr⟩
  | broadcast version =>
    obtain rfl : version = _ := hp
    rw [State.publishNext] at hn
    split at hn
    · cases hn
      exact ⟨h, rfl, rfl, rfl, fun _ hr => by cases hr; rfl, fun hr => by cases hr⟩
    · rename_i hstable
      cases hn
      refine ⟨h, rfl, rfl, rfl, (fun _ hr => by cases hr), fun _ => hfalse fun hle => hstable ?_⟩
      rw [h.broadcasts _ (Nat.lt_succ_self _) hle]
      rfl
  | checkpoint version =>
    obtain rfl : version = _ := hp
    rw [State.publishNext] at hn
    split at hn
    · rename_i hstable
      cases hn
      refine ⟨h, rfl, rfl, rfl, fun _ hr => ?_, fun hr => by cases hr⟩
      cases hr
      refine ⟨rfl, not_lt.1 fun hlt => ?_⟩
      obtain ⟨dir, hdir, hs⟩ := stable_of_any hstable
      rw [h.unstable _ hlt dir hdir] at hs
      cases hs
    · rename_i hstable
      cases hn
      refine ⟨h, rfl, rfl, rfl, (fun _ hr => by cases hr), fun _ => hfalse fun hle => hstable ?_⟩
      rw [h.checkpoints _ (Nat.le_add_left 1 _) (Nat.le_succ _) hle]
      rfl
  | load version =>
    obtain ⟨rfl, hle⟩ := hp
    rw [State.publishNext, h.broadcasts _ (Nat.lt_succ_self _) hle] at hn
    cases hn
    exact ⟨h, rfl, rfl, rfl, fun _ hr => by cases hr; exact ⟨rfl, hle, rfl⟩, fun hr => by cases hr⟩
  | publish version stateDict =>
    obtain ⟨rfl, hle, rfl⟩ := hp
    obtain ⟨_, hn⟩ := Option.ite_none_right_eq_some.1 hn
    cases hn
    refine ⟨⟨h.active_le, h.initial, h.lineage, h.policies, ?_, h.steps, h.rollouts, h.broadcasts, h.checkpoints,
      h.unstable⟩, rfl, rfl, rfl, fun _ hr => ?_, fun hr => by cases hr⟩
    · intro q hq
      dsimp only at hq
      split at hq
      · exact h.published q hq
      · obtain hq | hq := List.mem_append.1 hq
        · exact h.published q hq
        · obtain rfl := List.mem_singleton.1 hq
          exact ⟨Nat.le_add_left 1 _, hle, rfl⟩
    · cases hr
      refine ⟨rfl, hle, rfl, ?_⟩
      dsimp only
      split
      · assumption
      · exact List.mem_append_right _ (List.mem_singleton.2 rfl)
  | activate version policy =>
    obtain ⟨rfl, hle, rfl, _⟩ := hp
    obtain ⟨records', hrecords, hactive, _, hkept⟩ := h.activate hle
    rw [State.publishNext, hrecords] at hn
    cases hn
    exact ⟨hkept, rfl, rfl, rfl, fun _ hr => by cases hr; exact hactive.symm, fun hr => by cases hr⟩
  | prune version =>
    cases hn
    exact ⟨h, rfl, rfl, rfl, (fun _ hr => by cases hr), fun hr => by cases hr⟩

/-! ## Exports -/

/-- **An exported file is that of a recorded batch**, and stays. -/
theorem kept_export {record : TrainingBatchRecord} {artifact : Bytes}
    (h : Kept c s.records s.published s.disk models last) (hm : record ∈ s.records.batches)
    (hn : s.exportNext record artifact = some s') :
    Kept c s'.records s'.published s'.disk models last ∧ s.disk.Serves s'.disk last ∧ s'.records = s.records ∧
      s'.trainer = s.trainer ∧ s'.coordinator.resumeStep = s.coordinator.resumeStep := by
  rw [State.exportNext, Option.map_eq_some_iff] at hn
  obtain ⟨s₁, hn, rfl⟩ := hn
  rw [State.exportRecord] at hn
  split at hn
  · rename_i data hdata
    split at hn
    · cases hn
      exact ⟨h, .refl _ _, rfl, rfl, rfl⟩
    · cases hn
  · rename_i hnone
    split at hn
    · rename_i hmatch
      cases hn
      have hserves : ∀ n data, s.disk.rollouts n = some data →
          (s.disk.setRollouts record.step artifact).rollouts n = some data := fun n data hdata => by
        have hne : n ≠ record.step := fun he => by rw [he, hnone] at hdata; cases hdata
        exact (Function.update_of_ne hne ..).trans hdata
      refine ⟨⟨h.active_le, h.initial, fun v hv => (h.lineage v hv).mono (hserves (v + 1)), h.policies, h.published,
        h.steps, fun n data hdata => ?_, h.broadcasts, h.checkpoints, h.unstable⟩, ⟨rfl, hserves, rfl, rfl, rfl⟩,
        rfl, rfl, rfl⟩
      change Function.update s.disk.rollouts record.step (some artifact) n = some data at hdata
      by_cases hne : n = record.step
      · rw [hne, Function.update_self, Option.some.injEq] at hdata
        exact ⟨record, hm, hne.symm, hdata ▸ hmatch⟩
      · rw [Function.update_of_ne hne] at hdata
        exact h.rollouts n data hdata
    · cases hn

/-! ## Every event -/

theorem PublishingOk.extends {publishing : Publishing p} {models' : Nat → p.Model} {last' : Nat}
    (h : PublishingOk s models last publishing) (hx : Extends models last models' last')
    (hr : s'.records = s.records) (hpub : s'.published = s.published) : PublishingOk s' models' last' publishing := by
  cases publishing with
  | look => trivial
  | broadcast version | checkpoint version | prune version => exact h.trans (by rw [hr])
  | load version =>
    obtain ⟨hv, hle⟩ := h
    exact ⟨by rw [hr]; exact hv, hle.trans hx.1⟩
  | publish version stateDict =>
    obtain ⟨hv, hle, ha⟩ := h
    exact ⟨by rw [hr]; exact hv, hle.trans hx.1, by rw [ha, hx.2 version (by omega) hle]⟩
  | activate version policy =>
    obtain ⟨hv, hle, hd, hmem⟩ := h
    exact ⟨by rw [hr]; exact hv, hle.trans hx.1, by rw [hd, policyOf, policyOf, hx.2 version (by omega) hle],
      by rw [hpub]; exact hmem⟩

/-- The coordinator's own account is about no trainer that runs. -/
theorem CoordinatorOk.extends {models' : Nat → p.Model} {last' : Nat} {t : Trainer p} (h : CoordinatorOk s models last)
    (ht : s.trainer = some t) (hx : Extends models last models' last') (d : Disk p) (t' : Option (Trainer p)) :
    CoordinatorOk { s with disk := d, trainer := t' } models' last' := by
  have hrun : s.trainer ≠ none := fun hnone => by rw [hnone] at ht; cases ht
  rw [CoordinatorOk] at h ⊢
  cases hp : s.coordinator.phase <;> rw [hp] at h <;> simp only at h ⊢
  case down => exact absurd h hrun
  case starting | pruning | runConfig | exporting | launch => exact absurd h.1 hrun
  case serviceExporting => exact h
  case publishing => exact h.extends hx rfl rfl

theorem records_next {records : List TrainingBatchRecord} {r : Records} {n : Nat}
    (h : records = r.trainingBatches n) : ∀ b ∈ records, b ∈ r.batches := fun b hb => by
  rw [h] at hb
  exact (List.mem_filter.1 hb).1

/-- **The coordinator keeps what is kept.** -/
theorem Sound.coordinatorNext {artifact : Bytes} {noise : p.Noise} (h : Sound c s models last)
    (hn : s.coordinatorNext c artifact noise = some s') : Sound c s' models last := by
  have hk := h.kept
  have hco := h.coordinator
  rw [CoordinatorOk] at hco
  rw [State.coordinatorNext] at hn
  cases hp : s.coordinator.phase with
  | down | failed => rw [hp] at hn; cases hn
  | starting publishing =>
    rw [hp] at hn hco
    obtain ⟨htrainer, hpub⟩ := hco
    obtain ⟨⟨s₁, r⟩, hnext, rfl⟩ := Option.map_eq_some_iff.1 hn
    have hs := published_next hk hpub hnext
    have htrainer₁ : s₁.trainer = none := hs.trainer.trans htrainer
    refine ⟨hs.kept, fun t ht => ?_, ?_⟩
    · rw [State.coordinatorGoes_trainer, htrainer₁] at ht
      cases ht
    · cases r with
      | inl publishing => exact ⟨htrainer₁, (hs.next publishing rfl).extends (.refl _ _) rfl rfl⟩
      | inr done =>
        cases done with
        | true => exact ⟨htrainer₁, trivial⟩
        | false => exact ⟨htrainer₁, hs.none rfl⟩
  | pruning =>
    rw [hp] at hn hco
    cases hn
    refine ⟨hk, fun t ht => ?_, hco.1, hco.2, ?_⟩
    · rw [hco.1] at ht
      cases ht
    · rw [State.resume, resumeOf, hco.2]
  | runConfig =>
    rw [hp] at hn hco
    obtain ⟨htrainer, hactive, hresume⟩ := hco
    cases hn
    refine ⟨hk.of_disk rfl (fun _ _ _ => rfl) (fun _ _ _ => rfl) hk.unstable, fun t ht => ?_, htrainer, hactive,
      hresume, ?_, records_next rfl⟩
    · rw [State.coordinatorGoes_trainer, htrainer] at ht
      cases ht
    · rw [State.coordinatorGoes_disk, ← hresume]
  | exporting records =>
    rw [hp] at hn hco
    obtain ⟨htrainer, hactive, hresume, htoml, hmem⟩ := hco
    cases records with
    | nil =>
      cases hn
      refine ⟨hk, fun t ht => ?_, htrainer, hactive, hresume, htoml⟩
      rw [State.coordinatorGoes_trainer, htrainer] at ht
      cases ht
    | cons record records =>
      obtain ⟨s₁, hnext, rfl⟩ := Option.map_eq_some_iff.1 hn
      obtain ⟨hkept, hserves, hrec, htr, hres⟩ := kept_export hk (hmem record (List.mem_cons_self ..)) hnext
      refine ⟨hkept, fun t ht => ?_, htr.trans htrainer, by rw [State.coordinatorGoes_records, hrec]; exact hactive,
        hres.trans hresume, hserves.orchToml.trans htoml, fun r hr => ?_⟩
      · rw [State.coordinatorGoes_trainer, htr, htrainer] at ht
        cases ht
      · rw [State.coordinatorGoes_records, hrec]
        exact hmem r (List.mem_cons_of_mem _ hr)
  | launch =>
    rw [hp] at hn hco
    obtain ⟨htrainer, hactive, hresume, htoml⟩ := hco
    dsimp only at hn
    split at hn
    · cases hn
      refine ⟨hk, fun t ht => ?_, trivial⟩
      rw [State.coordinatorGoes_trainer, htrainer] at ht
      cases ht
    · cases hn
      refine ⟨hk, fun t ht => ?_, trivial⟩
      obtain rfl := Option.some.inj ht
      exact ⟨hresume, rfl, rfl, rfl, ⟨noise, rfl⟩, htoml⟩
  | process =>
    rw [hp] at hn
    cases hn
    exact ⟨hk, h.trainer, trivial⟩
  | query =>
    rw [hp] at hn
    cases hn
    exact ⟨hk, h.trainer, records_next rfl⟩
  | serviceExporting records =>
    rw [hp] at hn hco
    cases records with
    | nil =>
      cases hn
      exact ⟨hk, h.trainer, trivial⟩
    | cons record records =>
      obtain ⟨s₁, hnext, rfl⟩ := Option.map_eq_some_iff.1 hn
      obtain ⟨hkept, hserves, hrec, htr, _⟩ := kept_export hk (hco record (List.mem_cons_self ..)) hnext
      refine ⟨hkept, fun t ht => (h.trainer t (htr ▸ ht)).frame hserves, fun r hr => ?_⟩
      rw [State.coordinatorGoes_records, hrec]
      exact hco r (List.mem_cons_of_mem _ hr)
  | publishing publishing =>
    rw [hp] at hn hco
    obtain ⟨⟨s₁, r⟩, hnext, rfl⟩ := Option.map_eq_some_iff.1 hn
    have hs := published_next hk hco hnext
    refine ⟨hs.kept, fun t ht => ?_, ?_⟩
    · have hd := hs.disk
      rw [State.coordinatorGoes_trainer, hs.trainer] at ht
      exact hd ▸ h.trainer t ht
    · cases r with
      | inl publishing => exact (hs.next publishing rfl).extends (.refl _ _) rfl rfl
      | inr done => trivial

theorem Sound.pruning {active : Nat} (h : Sound c s models last) (hp : s.pruning? = some active) :
    active = s.records.active := by
  have hco := h.coordinator
  rw [State.pruning?] at hp
  rw [CoordinatorOk] at hco
  split at hp
  · exact (Option.some.inj hp).symm
  · rename_i version hphase
    rw [hphase] at hco
    exact (Option.some.inj hp).symm.trans hco.2
  · rename_i version hphase
    rw [hphase] at hco
    exact (Option.some.inj hp).symm.trans hco
  · cases hp

theorem broadcastCutoff_le (c : Config) (active : Nat) : State.broadcastCutoff c active ≤ active := by
  rw [State.broadcastCutoff]
  cases c.keepLast with
  | none => exact Nat.zero_le active
  | some k => exact le_rfl

/-- **The active version's checkpoint is not behind the cutoff**, for at least one is kept. -/
theorem checkpointCutoff_lt (c : Config) {active : Nat} (h : 1 ≤ State.checkpointCutoff c active) :
    State.checkpointCutoff c active < active := by
  rw [State.checkpointCutoff] at h ⊢
  cases hk : c.keepLast with
  | none =>
    rw [hk] at h
    exact absurd h (Nat.not_succ_le_zero 0)
  | some k =>
    have h1 := c.keepLast_pos k hk
    rw [hk] at h
    simp only [Option.map_some, Option.getD_some] at h ⊢
    omega

/-- The account of a coordinator that keeps its place and its records. -/
theorem CoordinatorOk.same {d : Disk p} (h : CoordinatorOk s models last) (hd : d.orchToml = s.disk.orchToml) :
    CoordinatorOk { s with disk := d } models last := by
  rw [CoordinatorOk] at h ⊢
  cases hp : s.coordinator.phase <;> rw [hp] at h <;> simp only at h ⊢
  case exporting records => exact ⟨h.1, h.2.1, h.2.2.1, hd.trans h.2.2.2.1, h.2.2.2.2⟩
  case launch => exact ⟨h.1, h.2.1, h.2.2.1, hd.trans h.2.2.2⟩
  case starting publishing => exact ⟨h.1, h.2.extends (.refl _ _) rfl rfl⟩
  case publishing publishing => exact h.extends (.refl _ _) rfl rfl
  all_goals exact h

/-- **Every event keeps what is kept**, and the models of the steps whose checkpoints are marked. -/
theorem sound_next {e : Event p} (h : Sound c s models last) (hn : State.next c s e = some s') :
    ∃ models' last', Extends models last models' last' ∧ Sound c s' models' last' := by
  have hk := h.kept
  cases e with
  | coordinator artifact noise => exact ⟨models, last, .refl _ _, h.coordinatorNext hn⟩
  | trainer noise =>
    obtain ⟨o, ho, rfl⟩ := Option.map_eq_some_iff.1 hn
    obtain ⟨t, ht, ho⟩ := Option.bind_eq_some_iff.1 ho
    obtain ⟨models', last', hx, hk', ht'⟩ := leads_next hk (h.trainer t ht) ho
    exact ⟨models', last', hx, hk', ht', h.coordinator.extends ht hx o.1 o.2⟩
  | tear adapter saved =>
    obtain ⟨d, hd, rfl⟩ := Option.map_eq_some_iff.1 hn
    obtain ⟨t, ht, hd⟩ := Option.bind_eq_some_iff.1 hd
    obtain ⟨models', last', hx, hk', ht'⟩ := leads_tear hk (h.trainer t ht) hd
    exact ⟨models', last', hx, hk', fun t' ht'' => ht' t' (ht.symm.trans ht''), h.coordinator.extends ht hx d s.trainer⟩
  | recordBatch sizeBytes artifactDigest =>
    rw [State.next] at hn
    split at hn
    · rename_i hphase
      cases hn
      refine ⟨models, last, .refl _ _, ⟨hk.active_le, hk.initial, hk.lineage, hk.policies, hk.published, ?_, ?_,
        hk.broadcasts, hk.checkpoints, hk.unstable⟩, h.trainer, ?_⟩
      · intro i r hr
        simp only [Records.recordTrainingBatch, List.getElem?_append] at hr
        split at hr
        · exact hk.steps i r hr
        · rename_i hlen
          obtain ⟨hi, rfl⟩ := List.getElem?_eq_some_iff.1 hr
          rw [List.length_singleton] at hi
          rw [List.getElem_singleton]
          change s.records.batches.length + 1 = i + 1
          omega
      · intro n data hdata
        obtain ⟨r, hr, hmatch⟩ := hk.rollouts n data hdata
        exact ⟨r, List.mem_append_left _ hr, hmatch⟩
      · rw [CoordinatorOk]
        simp only [hphase]
    · cases hn
  | removeBroadcast step left =>
    rw [State.next] at hn
    split at hn
    · rename_i active hactive
      split at hn
      · rename_i hcut
        cases hn
        have hle := hcut.2.1.trans (broadcastCutoff_le c active)
        rw [h.pruning hactive] at hle
        have hlast := hle.trans hk.active_le
        refine ⟨models, last, .refl _ _, hk.of_disk rfl (fun v hv _ => Function.update_of_ne (by omega) ..)
          (fun _ _ _ => rfl) hk.unstable, fun t ht => (h.trainer t ht).frame ?_, h.coordinator.same rfl⟩
        exact ⟨rfl, fun _ _ hd => hd, rfl, Function.update_of_ne (by omega) .., rfl⟩
      · cases hn
    · cases hn
  | removeCheckpoint step left =>
    rw [State.next] at hn
    split at hn
    · rename_i active hactive
      split at hn
      · rename_i hcut
        cases hn
        have hlt := hcut.2.1.trans_lt (checkpointCutoff_lt c hcut.1)
        rw [h.pruning hactive] at hlt
        have hlast := hlt.trans_le hk.active_le
        have hother : ∀ v, step ≠ v → (s.disk.setCheckpoint step left).checkpoints v = s.disk.checkpoints v :=
          fun v hv => Function.update_of_ne hv.symm ..
        refine ⟨models, last, .refl _ _, hk.of_disk rfl (fun _ _ _ => rfl) (fun v hv _ => hother v (by omega))
          fun v hv dir hdir => hk.unstable v hv dir (hother v (by omega) ▸ hdir),
          fun t ht => (h.trainer t ht).frame ?_, h.coordinator.same rfl⟩
        exact ⟨rfl, fun _ _ hd => hd, rfl, rfl, hother _ (by omega)⟩
      · cases hn
    · cases hn
  | coordinatorFails =>
    rw [State.next] at hn
    split at hn <;> cases hn
    all_goals exact ⟨models, last, .refl _ _, hk, h.trainer, trivial⟩
  | trainerDies =>
    obtain ⟨t, ht, rfl⟩ := Option.map_eq_some_iff.1 hn
    exact ⟨models, last, .refl _ _, hk, (fun _ ht' => by cases ht'), h.coordinator.extends ht (.refl _ _) s.disk none⟩
  | halt =>
    cases hn
    exact ⟨models, last, .refl _ _, hk, (fun _ ht => by cases ht), rfl⟩
  | boot =>
    rw [State.next] at hn
    split at hn
    · rename_i hphase
      cases hn
      have hco := h.coordinator
      rw [CoordinatorOk, hphase] at hco
      exact ⟨models, last, .refl _ _, hk, h.trainer, hco, trivial⟩
    · cases hn

end Handoff
end Aether
