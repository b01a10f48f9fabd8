import AetherRl.HandoffRuns
import Mathlib.Data.List.Basic
/-!
# HandoffSound — what the two processes keep between them

`last` is the step of the last checkpoint marked stable, and `models v` the model of step `v`: the one the trainer had
when it marked that checkpoint, which no later trainer trains again.  What a trainer does to step `last + 1` counts for
nothing until then, however often it is begun.
-/
namespace Aether
namespace Handoff

variable {p : Training} {c : Config}

/-- The grid of a step's batch file, if the file is there and packs. -/
def gridAt (c : Config) (d : Disk p) (step : Nat) : Option (List (List p.Micro)) :=
  ((d.rollouts step).bind p.decode).bind (p.grid c)

/-- One step of training: from `m` to `m'` on the batch file of `step`. -/
def Trains (c : Config) (d : Disk p) (step : Nat) (m m' : p.Model) : Prop :=
  ∃ grid noise, gridAt c d step = some grid ∧ m' = p.update m grid noise

/-- The policy of a version, where `models` are the models of the steps. -/
def policyOf (models : Nat → p.Model) (version : Nat) : Digest := p.policy version (p.adapter (models version))

/-- What holds of the records and the files, whatever the processes are at. -/
structure Kept (c : Config) (records : Records) (published : List (Nat × Digest)) (d : Disk p)
    (models : Nat → p.Model) (last : Nat) : Prop where
  active_le : records.active ≤ last
  initial : ∃ noise, models 0 = p.initial noise
  lineage : ∀ v < last, Trains c d (v + 1) (models v) (models (v + 1))
  policies : records.policies = (List.range records.active).map fun i => (i + 1, policyOf models (i + 1))
  published : ∀ q ∈ published, 1 ≤ q.1 ∧ q.1 ≤ last ∧ q.2 = policyOf models q.1
  steps : ∀ i r, records.batches[i]? = some r → r.step = i + 1
  rollouts : ∀ n data, d.rollouts n = some data →
    ∃ r ∈ records.batches, r.step = n ∧ data.length = r.sizeBytes ∧ p.sha256 data = r.artifactDigest
  broadcasts : ∀ v, records.active < v → v ≤ last →
    d.broadcasts v = some ⟨some (p.adapter (models v)), true⟩
  checkpoints : ∀ v, 1 ≤ v → records.active ≤ v → v ≤ last → d.checkpoints v = some ⟨some (models v, v), true⟩
  unstable : ∀ v, last < v → ∀ dir ∈ d.checkpoints v, dir.stable = false

/-- What a trainer that resumes is told. -/
def resumeOf (last : Nat) : Option Nat := if last = 0 then none else some last

/-- The counters and the model of a trainer in step `last + 1`, before its packer has taken the step's batch. -/
structure Trainer.Before (t : Trainer p) (models : Nat → p.Model) (last : Nat) : Prop where
  model : t.model = models last
  progress : t.progress = last + 1
  runProgress : t.runProgress = last + 1
  ready : t.ready = false
  received : t.received = none ∨ t.received = some (last + 1)

/-- The same once the batch is taken. -/
structure Trainer.Taken (t : Trainer p) (last : Nat) : Prop where
  progress : t.progress = last + 1
  runProgress : t.runProgress = last + 2
  received : t.received = some (last + 2)

/-- The same once the ranks have trained on it. -/
structure Trainer.Trained (t : Trainer p) (c : Config) (d : Disk p) (models : Nat → p.Model) (last : Nat) : Prop
    extends t.Taken last where
  sent : t.sent = last + 2
  receiving : t.receiving = last + 2
  trains : Trains c d (last + 1) (models last) t.model

/-- What holds of a trainer at each of its operations. -/
def TrainerOk (c : Config) (d : Disk p) (models : Nat → p.Model) (last : Nat) (t : Trainer p) : Prop :=
  match t.phase with
  | .discover => t.resumeStep = resumeOf last ∧ t.ready = false ∧ t.received = none ∧ t.progress = 1 ∧
      (∃ noise, t.model = p.initial noise) ∧ d.orchToml = some (resumeOf last)
  | .load => t.resumeStep = resumeOf last ∧ t.ready = false ∧ t.received = none ∧ t.progress = 1 ∧
      (∃ noise, t.model = p.initial noise) ∧ t.runProgress = last + 1
  | .setup => t.Before models last
  | .wait => t.Before models last ∧ t.sent = last + 1 ∧ t.receiving = last + 1
  | .pack batch => t.model = models last ∧ t.progress = last + 1 ∧ t.runProgress = last + 1 ∧
      t.received = some (last + 2) ∧ t.sent = last + 1 ∧ t.receiving = last + 1 ∧
      (d.rollouts (last + 1)).bind p.decode = some batch
  | .send grid rank => t.Taken last ∧ t.model = models last ∧ t.ready = true ∧ t.sent = last + 1 ∧
      t.receiving = last + 1 ∧ gridAt c d (last + 1) = some grid ∧
      ∀ k < rank, d.micro (last + 1) k = grid[k]?
  | .receive => t.Taken last ∧ t.model = models last ∧ t.ready = true ∧ t.sent = last + 2 ∧ t.receiving = last + 1 ∧
      ∃ grid, gridAt c d (last + 1) = some grid ∧
        ∀ k < grid.length, d.micro (last + 1) k = grid[k]?
  | .train microBatches => t.Taken last ∧ t.model = models last ∧ t.ready = true ∧ t.sent = last + 2 ∧
      t.receiving = last + 2 ∧ gridAt c d (last + 1) = some microBatches
  | .broadcast => t.Trained c d models last ∧ t.ready = true
  | .broadcastFiles => t.Trained c d models last ∧ t.ready = true ∧ (d.broadcasts (last + 1)).isSome
  | .notify => t.Trained c d models last ∧ t.ready = true ∧
      ∃ stable, d.broadcasts (last + 1) = some ⟨some (p.adapter t.model), stable⟩
  | .clean | .checkpoint => t.Trained c d models last ∧ t.ready = false ∧
      d.broadcasts (last + 1) = some ⟨some (p.adapter t.model), true⟩
  | .checkpointFiles => t.Trained c d models last ∧ t.ready = false ∧
      d.broadcasts (last + 1) = some ⟨some (p.adapter t.model), true⟩ ∧ (d.checkpoints (last + 1)).isSome
  | .markStable => t.Trained c d models last ∧ t.ready = false ∧
      d.broadcasts (last + 1) = some ⟨some (p.adapter t.model), true⟩ ∧
      ∃ stable, d.checkpoints (last + 1) = some ⟨some (t.model, last + 1), stable⟩
  | .advance => t.model = models last ∧ t.progress = last ∧ t.runProgress = last + 1 ∧ t.ready = false ∧
      t.received = some (last + 1) ∧ t.sent = last + 1 ∧ t.receiving = last + 1
  | .finished => True

/-- What holds of a publication: it is about the next version, and past its two checks that version's checkpoint and
broadcast are done. -/
def PublishingOk (s : State p) (models : Nat → p.Model) (last : Nat) : Publishing p → Prop
  | .look => True
  | .broadcast version | .checkpoint version => version = s.records.active + 1
  | .load version => version = s.records.active + 1 ∧ version ≤ last
  | .publish version stateDict =>
    version = s.records.active + 1 ∧ version ≤ last ∧ stateDict = p.adapter (models version)
  | .activate version policy =>
    version = s.records.active + 1 ∧ version ≤ last ∧ policy = policyOf models version ∧ (version, policy) ∈ s.published
  | .prune version => version = s.records.active

/-- What holds of the coordinator: no trainer runs before it starts one, and none is started while a checkpoint is left
to publish. -/
def CoordinatorOk (s : State p) (models : Nat → p.Model) (last : Nat) : Prop :=
  match s.coordinator.phase with
  | .down => s.trainer = none
  | .starting publishing => s.trainer = none ∧ PublishingOk s models last publishing
  | .pruning => s.trainer = none ∧ s.records.active = last
  | .runConfig => s.trainer = none ∧ s.records.active = last ∧ s.coordinator.resumeStep = resumeOf last
  | .exporting records => s.trainer = none ∧ s.records.active = last ∧
      s.coordinator.resumeStep = resumeOf last ∧ s.disk.orchToml = some (resumeOf last) ∧
      ∀ r ∈ records, r ∈ s.records.batches
  | .launch => s.trainer = none ∧ s.records.active = last ∧
      s.coordinator.resumeStep = resumeOf last ∧ s.disk.orchToml = some (resumeOf last)
  | .serviceExporting records => ∀ r ∈ records, r ∈ s.records.batches
  | .publishing publishing => PublishingOk s models last publishing
  | .process | .query | .failed => True

/-- **What every reachable state keeps.** -/
structure Sound (c : Config) (s : State p) (models : Nat → p.Model) (last : Nat) : Prop where
  kept : Kept c s.records s.published s.disk models last
  trainer : ∀ t ∈ s.trainer, TrainerOk c s.disk models last t
  coordinator : CoordinatorOk s models last

/-! ## Files that count for nothing yet, or no more -/

/-- **Only the files of the versions not yet activated, and the active version's checkpoint, matter**, beside the batch
files. -/
theorem Kept.of_disk {records : Records} {published : List (Nat × Digest)} {d d' : Disk p} {models : Nat → p.Model}
    {last : Nat} (h : Kept c records published d models last) (hr : d'.rollouts = d.rollouts)
    (hb : ∀ v, records.active < v → v ≤ last → d'.broadcasts v = d.broadcasts v)
    (hc : ∀ v, records.active ≤ v → v ≤ last → d'.checkpoints v = d.checkpoints v)
    (hu : ∀ v, last < v → ∀ dir ∈ d'.checkpoints v, dir.stable = false) :
    Kept c records published d' models last where
  active_le := h.active_le
  initial := h.initial
  lineage v hv := by
    obtain ⟨grid, noise, hg, hm⟩ := h.lineage v hv
    exact ⟨grid, noise, by rw [gridAt, hr]; exact hg, hm⟩
  policies := h.policies
  published := h.published
  steps := h.steps
  rollouts := by rw [hr]; exact h.rollouts
  broadcasts v ha hl := (hb v ha hl).trans (h.broadcasts v ha hl)
  checkpoints v h1 ha hl := (hc v ha hl).trans (h.checkpoints v h1 ha hl)
  unstable := hu

/-- The models of the steps up to `last` stay as they are. -/
def Extends (models : Nat → p.Model) (last : Nat) (models' : Nat → p.Model) (last' : Nat) : Prop :=
  last ≤ last' ∧ ∀ v, 1 ≤ v → v ≤ last → models' v = models v

theorem Extends.refl (models : Nat → p.Model) (last : Nat) : Extends models last models last :=
  ⟨le_rfl, fun _ _ _ => rfl⟩

/-- **The weights of a run that has no checkpoint yet are those of its latest trainer.** -/
theorem Kept.begin {records : Records} {published : List (Nat × Digest)} {d : Disk p} {models : Nat → p.Model}
    (h : Kept c records published d models 0) (noise : p.Noise) :
    Kept c records published d (fun _ => p.initial noise) 0 where
  active_le := h.active_le
  initial := ⟨noise, rfl⟩
  lineage v hv := absurd hv (Nat.not_lt_zero v)
  policies := by rw [h.policies, Nat.le_zero.1 h.active_le]; rfl
  published q hq := by
    obtain ⟨h1, h0, _⟩ := h.published q hq
    omega
  steps := h.steps
  rollouts := h.rollouts
  broadcasts v ha hl := by omega
  checkpoints v h1 _ hl := by omega
  unstable := h.unstable

/-- **Marking the checkpoint of step `last + 1` settles the step.** -/
theorem Kept.advance {records : Records} {published : List (Nat × Digest)} {d : Disk p} {models : Nat → p.Model}
    {last : Nat} {m : p.Model} (h : Kept c records published d models last) (ht : Trains c d (last + 1) (models last) m)
    (hb : d.broadcasts (last + 1) = some ⟨some (p.adapter m), true⟩) :
    Kept c records published (d.setCheckpoint (last + 1) (some ⟨some (m, last + 1), true⟩))
      (Function.update models (last + 1) m) (last + 1) where
  active_le := h.active_le.trans (Nat.le_succ last)
  initial := by
    rw [Function.update_of_ne (Nat.succ_ne_zero last).symm]
    exact h.initial
  lineage v hv := by
    rw [Function.update_of_ne (by omega : v ≠ last + 1)]
    by_cases hlast : v = last
    · rw [hlast, Function.update_self]
      exact ht
    · rw [Function.update_of_ne (by omega : v + 1 ≠ last + 1)]
      exact h.lineage v (by omega)
  policies := by
    rw [h.policies]
    refine List.map_congr_left fun i hi => ?_
    have hi' := List.mem_range.1 hi
    have hle := h.active_le
    rw [policyOf, policyOf, Function.update_of_ne (by omega : i + 1 ≠ last + 1)]
  published q hq := by
    obtain ⟨h1, hl, hd⟩ := h.published q hq
    refine ⟨h1, hl.trans (Nat.le_succ last), ?_⟩
    rw [hd, policyOf, policyOf, Function.update_of_ne (by omega : q.1 ≠ last + 1)]
  steps := h.steps
  rollouts := h.rollouts
  broadcasts v ha hl := by
    by_cases hlast : v = last + 1
    · rw [hlast, Function.update_self]
      exact hb
    · rw [Function.update_of_ne hlast]
      exact h.broadcasts v ha (by omega)
  checkpoints v h1 ha hl := by
    by_cases hlast : v = last + 1
    · rw [hlast, Function.update_self]
      exact Function.update_self ..
    · rw [Function.update_of_ne hlast]
      exact (Function.update_of_ne hlast ..).trans (h.checkpoints v h1 ha (by omega))
  unstable v hv dir hdir := by
    rw [Disk.setCheckpoint_checkpoints, Function.update_of_ne (by omega : v ≠ last + 1)] at hdir
    exact h.unstable v (by omega) dir hdir

end Handoff
end Aether
