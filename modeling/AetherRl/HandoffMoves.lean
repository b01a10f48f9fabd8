import AetherRl.HandoffPublishing
/-!
# HandoffMoves — what one event leaves in place

A trainer writes under the step it is at, and the coordinator removes what is published: between them the batch files,
the records, the directories that are not yet published and the active version's checkpoint stay as they are.
-/
namespace Aether
namespace Handoff

variable {p : Training} {c : Config} {s s' : State p} {models : Nat → p.Model} {last : Nat} {t : Trainer p}
  {d d' : Disk p}

/-- A directory stays where it is, and so does its `STABLE` file. -/
def Stays {α : Type} (d d' : Option (StepDir α)) : Prop :=
  ∀ dir ∈ d, ∃ dir' ∈ d', dir.stable = true → dir'.stable = true

theorem Stays.refl {α : Type} (d : Option (StepDir α)) : Stays d d := fun dir h => ⟨dir, h, id⟩

theorem Stays.mkdir {α : Type} (d : Option (StepDir α)) : Stays d (some (StepDir.mkdir d)) := by
  rintro dir rfl
  exact ⟨dir, rfl, id⟩

/-- The directories of a step other than `step` are not touched, and none of `step`'s goes. -/
structure Disk.Writes (d d' : Disk p) (step : Nat) : Prop where
  rollouts : d'.rollouts = d.rollouts
  broadcasts : ∀ v, v ≠ step → d'.broadcasts v = d.broadcasts v
  checkpoints : ∀ v, v ≠ step → d'.checkpoints v = d.checkpoints v
  broadcast : Stays (d.broadcasts step) (d'.broadcasts step)
  checkpoint : Stays (d.checkpoints step) (d'.checkpoints step)

theorem Disk.Writes.refl (d : Disk p) (step : Nat) : d.Writes d step :=
  ⟨rfl, fun _ _ => rfl, fun _ _ => rfl, .refl _, .refl _⟩

theorem Disk.Writes.setBroadcast {step : Nat} {dir : StepDir p.Adapter} (h : Stays (d.broadcasts step) (some dir)) :
    d.Writes (d.setBroadcast step (some dir)) step where
  rollouts := rfl
  broadcasts v hv := Function.update_of_ne hv ..
  checkpoints _ _ := rfl
  broadcast := by rw [Disk.setBroadcast_broadcasts, Function.update_self]; exact h
  checkpoint := .refl _

theorem Disk.Writes.setCheckpoint {step : Nat} {dir : StepDir (Checkpoint p)}
    (h : Stays (d.checkpoints step) (some dir)) : d.Writes (d.setCheckpoint step (some dir)) step where
  rollouts := rfl
  broadcasts _ _ := rfl
  checkpoints v hv := Function.update_of_ne hv ..
  broadcast := .refl _
  checkpoint := by rw [Disk.setCheckpoint_checkpoints, Function.update_self]; exact h

/-- **A trainer writes under the step it is at.** -/
theorem writes_next {noise : p.Noise} {o : Outcome p} (ht : TrainerOk c d models last t)
    (ho : t.next d c noise = some o) : d.Writes o.1 (last + 1) := by
  rw [TrainerOk] at ht
  rw [Trainer.next] at ho
  cases hp : t.phase <;> rw [hp] at ho ht <;> simp only [Option.some.injEq, reduceCtorEq] at ho <;> try subst ho
  case discover =>
    obtain ⟨resume, _, rfl⟩ := Option.map_eq_some_iff.1 ho
    exact .refl _ _
  case load =>
    rw [Trainer.load]
    split
    · exact .refl _ _
    · split <;> exact .refl _ _
  case setup => exact ⟨rfl, fun _ _ => rfl, fun _ _ => rfl, .refl _, .refl _⟩
  case wait =>
    rw [Trainer.poll] at ho
    split at ho
    · cases ho
    · split at ho <;> cases ho <;> exact .refl _ _
  case pack =>
    rw [Trainer.pack]
    split <;> exact .refl _ _
  case send =>
    rw [Trainer.send]
    split
    · exact ⟨rfl, fun _ _ => rfl, fun _ _ => rfl, .refl _, .refl _⟩
    · exact .refl _ _
  case receive =>
    obtain ⟨micro, _, rfl⟩ := Option.map_eq_some_iff.1 ho
    exact .refl _ _
  case train => exact .refl _ _
  case broadcast =>
    rw [Trainer.broadcast, ht.2, if_pos rfl, ht.1.step]
    exact .setBroadcast (.mkdir _)
  case broadcastFiles =>
    rw [Trainer.broadcastFiles, ht.1.step]
    split
    · exact .refl _ _
    · rename_i dir hdir
      refine .setBroadcast fun dir' hdir' => ⟨_, rfl, fun hs => ?_⟩
      rw [hdir] at hdir'
      exact Option.some.inj hdir' ▸ hs
  case notify =>
    rw [Trainer.notify, ht.1.step]
    split
    · exact .refl _ _
    · exact .setBroadcast fun _ _ => ⟨_, rfl, fun _ => rfl⟩
  case clean =>
    rw [Trainer.clean, maybeClean_interval]
    exact .refl _ _
  case checkpoint =>
    rw [Trainer.checkpoint, ht.1.progress]
    split
    · exact .setCheckpoint (.mkdir _)
    · exact .refl _ _
  case checkpointFiles =>
    rw [Trainer.checkpointFiles, ht.1.progress]
    split
    · exact .refl _ _
    · rename_i dir hdir
      refine .setCheckpoint fun dir' hdir' => ⟨_, rfl, fun hs => ?_⟩
      rw [hdir] at hdir'
      exact Option.some.inj hdir' ▸ hs
  case markStable =>
    rw [Trainer.markStable, ht.1.progress]
    split
    · exact .refl _ _
    · exact .setCheckpoint fun _ _ => ⟨_, rfl, fun _ => rfl⟩
  case advance =>
    rw [Trainer.advance]
    split <;> exact .refl _ _

theorem writes_tear {adapter : Option p.Adapter} {saved : Option (Checkpoint p)} (ht : TrainerOk c d models last t)
    (ho : t.tear d adapter saved = some d') : d.Writes d' (last + 1) := by
  rw [TrainerOk] at ht
  rw [Trainer.tear] at ho
  cases hp : t.phase <;> rw [hp] at ho ht <;> simp only [Option.some.injEq, reduceCtorEq] at ho
  case broadcastFiles =>
    obtain ⟨dir, hdir⟩ := Option.isSome_iff_exists.1 ht.2.2
    rw [ht.1.step, hdir] at ho
    subst ho
    refine .setBroadcast fun dir' hdir' => ⟨_, rfl, fun hs => ?_⟩
    rw [hdir] at hdir'
    exact Option.some.inj hdir' ▸ hs
  case checkpointFiles =>
    obtain ⟨dir, hdir⟩ := Option.isSome_iff_exists.1 ht.2.2.2
    rw [ht.1.progress, hdir] at ho
    subst ho
    refine .setCheckpoint fun dir' hdir' => ⟨_, rfl, fun hs => ?_⟩
    rw [hdir] at hdir'
    exact Option.some.inj hdir' ▸ hs

/-- What every event leaves in place: batch files, records, directories that are not yet published, and the files of the
steps whose checkpoints are marked. -/
structure Moves (s s' : State p) (last : Nat) : Prop where
  rollouts : ∀ n data, s.disk.rollouts n = some data → s'.disk.rollouts n = some data
  batches : s.records.batches <+: s'.records.batches
  policies : s.records.policies <+: s'.records.policies
  active : s.records.active ≤ s'.records.active
  published : s.published <+: s'.published
  broadcasts : ∀ v, s.records.active < v → Stays (s.disk.broadcasts v) (s'.disk.broadcasts v)
  checkpoints : ∀ v, s.records.active ≤ v → Stays (s.disk.checkpoints v) (s'.disk.checkpoints v)
  settled : ∀ v, s.records.active ≤ v → v ≤ last → s'.disk.checkpoints v = s.disk.checkpoints v ∧
    (s.records.active < v → s'.disk.broadcasts v = s.disk.broadcasts v)

/-- An event that touches neither the trainer's directories nor what is recorded. -/
theorem Moves.same (hd : s'.disk = s.disk) (hr : s'.records = s.records) (hp : s'.published = s.published) :
    Moves s s' last where
  rollouts := by rw [hd]; exact fun _ _ h => h
  batches := hr ▸ List.prefix_rfl
  policies := hr ▸ List.prefix_rfl
  active := by rw [hr]
  published := hp ▸ List.prefix_rfl
  broadcasts v _ := by rw [hd]; exact .refl _
  checkpoints v _ := by rw [hd]; exact .refl _
  settled v _ _ := by rw [hd]; exact ⟨rfl, fun _ => rfl⟩

theorem Moves.writes (hd : s.disk.Writes s'.disk (last + 1)) (hr : s'.records = s.records)
    (hp : s'.published = s.published) : Moves s s' last where
  rollouts := by rw [hd.rollouts]; exact fun _ _ h => h
  batches := hr ▸ List.prefix_rfl
  policies := hr ▸ List.prefix_rfl
  active := by rw [hr]
  published := hp ▸ List.prefix_rfl
  broadcasts v _ := by
    by_cases hv : v = last + 1
    · rw [hv]
      exact hd.broadcast
    · rw [hd.broadcasts v hv]
      exact .refl _
  checkpoints v _ := by
    by_cases hv : v = last + 1
    · rw [hv]
      exact hd.checkpoint
    · rw [hd.checkpoints v hv]
      exact .refl _
  settled v _ hv := ⟨hd.checkpoints v (by omega), fun _ => hd.broadcasts v (by omega)⟩

theorem moves_publish {publishing : Publishing p} {r : Publishing p ⊕ Bool}
    (h : Kept c s.records s.published s.disk models last) (hp : PublishingOk s models last publishing)
    (hn : s.publishNext publishing = some (s', r)) : Moves s s' last := by
  cases publishing with
  | look | prune =>
    cases hn
    exact .same rfl rfl rfl
  | broadcast | checkpoint =>
    rw [State.publishNext] at hn
    split at hn <;> cases hn <;> exact .same rfl rfl rfl
  | load version =>
    obtain ⟨stateDict, _, hn⟩ := Option.map_eq_some_iff.1 hn
    cases hn
    exact .same rfl rfl rfl
  | publish version stateDict =>
    obtain ⟨_, hn⟩ := Option.ite_none_right_eq_some.1 hn
    cases hn
    have hsame : Moves s s last := .same rfl rfl rfl
    refine ⟨hsame.rollouts, hsame.batches, hsame.policies, hsame.active, ?_, hsame.broadcasts, hsame.checkpoints,
      hsame.settled⟩
    dsimp only
    split
    · exact List.prefix_rfl
    · exact List.prefix_append _ _
  | activate version policy =>
    obtain ⟨rfl, hle, rfl, _⟩ := hp
    obtain ⟨records', hrecords, hactive, hbatches, hkept⟩ := h.activate hle
    rw [State.publishNext, hrecords] at hn
    cases hn
    have hsame : Moves s s last := .same rfl rfl rfl
    refine ⟨hsame.rollouts, hbatches ▸ List.prefix_rfl, ?_, hactive ▸ Nat.le_succ _, hsame.published,
      hsame.broadcasts, hsame.checkpoints, hsame.settled⟩
    rw [hkept.policies, h.policies, hactive, List.range_succ, List.map_append]
    exact List.prefix_append _ _

theorem moves_export {record : TrainingBatchRecord} {artifact : Bytes}
    (hn : s.exportNext record artifact = some s') : Moves s s' last := by
  rw [State.exportNext, Option.map_eq_some_iff] at hn
  obtain ⟨s₁, hn, rfl⟩ := hn
  rw [State.exportRecord] at hn
  split at hn
  · split at hn
    · cases hn
      exact .same rfl rfl rfl
    · cases hn
  · rename_i hnone
    split at hn
    · cases hn
      have hsame : Moves s s last := .same rfl rfl rfl
      refine ⟨fun n data hdata => ?_, hsame.batches, hsame.policies, hsame.active, hsame.published, hsame.broadcasts,
        hsame.checkpoints, hsame.settled⟩
      have hne : n ≠ record.step := fun he => by rw [he, hnone] at hdata; cases hdata
      exact (Function.update_of_ne hne ..).trans hdata
    · cases hn

/-- The coordinator's place is no one's concern but its own. -/
theorem Moves.goes {phase : CoordinatorPhase p} (h : Moves s s' last) : Moves s (s'.coordinatorGoes phase) last :=
  ⟨h.rollouts, h.batches, h.policies, h.active, h.published, h.broadcasts, h.checkpoints, h.settled⟩

theorem moves_coordinator {artifact : Bytes} {noise : p.Noise} (h : Sound c s models last)
    (hn : s.coordinatorNext c artifact noise = some s') : Moves s s' last := by
  have hco := h.coordinator
  rw [CoordinatorOk] at hco
  rw [State.coordinatorNext] at hn
  cases hp : s.coordinator.phase with
  | down | failed => rw [hp] at hn; cases hn
  | starting publishing =>
    rw [hp] at hn hco
    obtain ⟨⟨s₁, r⟩, hnext, rfl⟩ := Option.map_eq_some_iff.1 hn
    exact (moves_publish h.kept hco.2 hnext).goes
  | publishing publishing =>
    rw [hp] at hn hco
    obtain ⟨⟨s₁, r⟩, hnext, rfl⟩ := Option.map_eq_some_iff.1 hn
    exact (moves_publish h.kept hco hnext).goes
  | exporting records | serviceExporting records =>
    rw [hp] at hn
    cases records with
    | nil =>
      cases hn
      exact .same rfl rfl rfl
    | cons record records =>
      obtain ⟨s₁, hnext, rfl⟩ := Option.map_eq_some_iff.1 hn
      exact (moves_export hnext).goes
  | launch =>
    rw [hp] at hn
    dsimp only at hn
    split at hn <;> cases hn <;> exact .same rfl rfl rfl
  | runConfig =>
    rw [hp] at hn
    cases hn
    exact .writes ⟨rfl, fun _ _ => rfl, fun _ _ => rfl, .refl _, .refl _⟩ rfl rfl
  | pruning | process | query =>
    rw [hp] at hn
    cases hn
    exact .same rfl rfl rfl

/-- **No event touches what is still to be published, or the active version's checkpoint.** -/
theorem moves_next {e : Event p} (h : Sound c s models last) (hn : State.next c s e = some s') : Moves s s' last := by
  have hk := h.kept
  have hsame : Moves s s last := .same rfl rfl rfl
  cases e with
  | coordinator artifact noise => exact moves_coordinator h hn
  | trainer noise =>
    obtain ⟨o, ho, rfl⟩ := Option.map_eq_some_iff.1 hn
    obtain ⟨t, ht, ho⟩ := Option.bind_eq_some_iff.1 ho
    exact .writes (writes_next (h.trainer t ht) ho) rfl rfl
  | tear adapter saved =>
    obtain ⟨d, hd, rfl⟩ := Option.map_eq_some_iff.1 hn
    obtain ⟨t, ht, hd⟩ := Option.bind_eq_some_iff.1 hd
    exact .writes (writes_tear (h.trainer t ht) hd) rfl rfl
  | recordBatch sizeBytes artifactDigest =>
    rw [State.next] at hn
    split at hn <;> cases hn
    exact ⟨hsame.rollouts, List.prefix_append _ _, hsame.policies, hsame.active, hsame.published, hsame.broadcasts,
      hsame.checkpoints, hsame.settled⟩
  | removeBroadcast step left =>
    rw [State.next] at hn
    split at hn
    · rename_i active hactive
      split at hn
      · rename_i hcut
        cases hn
        have hle := hcut.2.1.trans (broadcastCutoff_le c active)
        rw [h.pruning hactive] at hle
        have hother : ∀ v, s.records.active < v → (s.disk.setBroadcast step left).broadcasts v = s.disk.broadcasts v :=
          fun v hv => Function.update_of_ne (by omega) ..
        refine ⟨hsame.rollouts, hsame.batches, hsame.policies, hsame.active, hsame.published, fun v hv => ?_,
          hsame.checkpoints, fun v _ _ => ⟨rfl, hother v⟩⟩
        dsimp only
        rw [hother v hv]
        exact .refl _
      · cases hn
    · cases hn
  | removeCheckpoint step left =>
    rw [State.next] at hn
    split at hn
    · rename_i active hactive
      split at hn
      · rename_i hcut
        cases hn
        have hlt := hcut.2.1.trans_lt (checkpointCutoff_lt c hcut.1)
        rw [h.pruning hactive] at hlt
        have hother : ∀ v, s.records.active ≤ v →
            (s.disk.setCheckpoint step left).checkpoints v = s.disk.checkpoints v :=
          fun v hv => Function.update_of_ne (by omega) ..
        refine ⟨hsame.rollouts, hsame.batches, hsame.policies, hsame.active, hsame.published, hsame.broadcasts,
          fun v hv => ?_, fun v hv _ => ⟨hother v hv, fun _ => rfl⟩⟩
        dsimp only
        rw [hother v hv]
        exact .refl _
      · cases hn
    · cases hn
  | coordinatorFails =>
    rw [State.next] at hn
    split at hn <;> cases hn <;> exact .same rfl rfl rfl
  | trainerDies =>
    obtain ⟨t, _, rfl⟩ := Option.map_eq_some_iff.1 hn
    exact .same rfl rfl rfl
  | halt =>
    cases hn
    exact .same rfl rfl rfl
  | boot =>
    rw [State.next] at hn
    split at hn <;> cases hn
    exact .same rfl rfl rfl

end Handoff
end Aether
