import AetherRl.Protocol
import Mathlib.Logic.Function.Basic
/-!
# HandoffDisk — what the coordinator and the trainer process share

The two processes meet in the trainer's output directory alone.  The coordinator writes the run's configuration
(`run_<id>/control/orch.toml`) and one file for each recorded batch (`run_<id>/rollouts/step_<n>`); the trainer writes
`run_<id>/broadcasts/step_<n>` and `checkpoints/step_<n>`, each with its `STABLE` file last.  What a directory holds
while it is being written, or removed, may be anything.
-/
namespace Aether
namespace Handoff

/-- What training computes, which the handoff never looks into: `decode` and `prepareBatch` return nothing where they
raise, `stamp` writes the run's id and step on a micro batch, `update` is the forward and backward passes with the
optimizer's and the scheduler's step, `policy` is the digest of the manifest an adapter is published with, and
`publishes` whether `publish_lora_policy` and `_distribute_policy` take it rather than raise. -/
structure Training where
  Batch : Type
  Micro : Type
  Model : Type
  Adapter : Type
  Noise : Type
  decode : Bytes → Option Batch
  prepareBatch : Batch → Option (List (List Micro))
  stamp : Batch → Micro → Micro
  initial : Noise → Model
  update : Model → List (List Micro) → Noise → Model
  adapter : Model → Adapter
  sha256 : Bytes → Digest
  policy : Nat → Adapter → Digest
  publishes : Nat → Adapter → Bool

/-- The settings both processes run with, as `validate_config` lets them through. -/
structure Config where
  /-- `data_world_size` -/
  ranks : Nat
  /-- `published_checkpoint_keep_last` -/
  keepLast : Option Nat
  keepLast_pos : ∀ k ∈ keepLast, 1 ≤ k
  maxSteps : Option Nat
  /-- `ckpt.interval` -/
  interval : Nat
  interval_eq : interval = 1

/-- A `step_<n>` directory: what reading it gives, if it can be read, and whether `STABLE` is there. -/
structure StepDir (α : Type) where
  content : Option α
  stable : Bool

/-- `mkdir(parents=True, exist_ok=True)`. -/
def StepDir.mkdir {α : Type} (d : Option (StepDir α)) : StepDir α := d.getD ⟨none, false⟩

variable (p : Training)

/-- What a checkpoint restores: the model with its optimizer and scheduler, and `progress.step`. -/
abbrev Checkpoint : Type := p.Model × Nat

/-- The trainer's output directory. -/
structure Disk where
  /-- `ckpt.resume_step` of `control/orch.toml`, once it was written -/
  orchToml : Option (Option Nat)
  rollouts : Nat → Option Bytes
  /-- `rollouts/step_<n>/rank_<r>.bin` of the output directory itself -/
  micro : Nat → Nat → Option (List p.Micro)
  broadcasts : Nat → Option (StepDir p.Adapter)
  checkpoints : Nat → Option (StepDir (Checkpoint p))

namespace Disk

variable {p}

def setMicro (d : Disk p) (step rank : Nat) (micro : List p.Micro) : Disk p :=
  { d with micro := Function.update d.micro step (Function.update (d.micro step) rank (some micro)) }

def setRollouts (d : Disk p) (step : Nat) (data : Bytes) : Disk p :=
  { d with rollouts := Function.update d.rollouts step (some data) }

def setBroadcast (d : Disk p) (step : Nat) (dir : Option (StepDir p.Adapter)) : Disk p :=
  { d with broadcasts := Function.update d.broadcasts step dir }

def setCheckpoint (d : Disk p) (step : Nat) (dir : Option (StepDir (Checkpoint p))) : Disk p :=
  { d with checkpoints := Function.update d.checkpoints step dir }

variable (d : Disk p) (step rank : Nat)

section
variable (micro : List p.Micro)

@[simp] theorem setMicro_orchToml : (d.setMicro step rank micro).orchToml = d.orchToml := rfl
@[simp] theorem setMicro_rollouts : (d.setMicro step rank micro).rollouts = d.rollouts := rfl
@[simp] theorem setMicro_broadcasts : (d.setMicro step rank micro).broadcasts = d.broadcasts := rfl
@[simp] theorem setMicro_checkpoints : (d.setMicro step rank micro).checkpoints = d.checkpoints := rfl
@[simp] theorem setMicro_micro :
    (d.setMicro step rank micro).micro step = Function.update (d.micro step) rank (some micro) :=
  Function.update_self ..

end

section
variable (dir : Option (StepDir p.Adapter))

@[simp] theorem setBroadcast_orchToml : (d.setBroadcast step dir).orchToml = d.orchToml := rfl
@[simp] theorem setBroadcast_rollouts : (d.setBroadcast step dir).rollouts = d.rollouts := rfl
@[simp] theorem setBroadcast_micro : (d.setBroadcast step dir).micro = d.micro := rfl
@[simp] theorem setBroadcast_checkpoints : (d.setBroadcast step dir).checkpoints = d.checkpoints := rfl
@[simp] theorem setBroadcast_broadcasts :
    (d.setBroadcast step dir).broadcasts = Function.update d.broadcasts step dir := rfl

end

section
variable (dir : Option (StepDir (Checkpoint p)))

@[simp] theorem setCheckpoint_orchToml : (d.setCheckpoint step dir).orchToml = d.orchToml := rfl
@[simp] theorem setCheckpoint_rollouts : (d.setCheckpoint step dir).rollouts = d.rollouts := rfl
@[simp] theorem setCheckpoint_micro : (d.setCheckpoint step dir).micro = d.micro := rfl
@[simp] theorem setCheckpoint_broadcasts : (d.setCheckpoint step dir).broadcasts = d.broadcasts := rfl
@[simp] theorem setCheckpoint_checkpoints :
    (d.setCheckpoint step dir).checkpoints = Function.update d.checkpoints step dir := rfl

end

end Disk

/-- The columns of `training_batches` an export reads. -/
structure TrainingBatchRecord where
  step : Nat
  sizeBytes : Nat
  artifactDigest : Digest

/-- What the coordinator's database says of the handoff: the recorded batches, the recorded policies with their
versions, and the version of the active one. -/
structure Records where
  batches : List TrainingBatchRecord
  policies : List (Nat × Digest)
  active : Nat

namespace Records

/-- `record_training_batch` of the next step. -/
def recordTrainingBatch (r : Records) (sizeBytes : Nat) (artifactDigest : Digest) : Records :=
  { r with batches := r.batches ++ [⟨r.batches.length + 1, sizeBytes, artifactDigest⟩] }

/-- `training_batches(after_step=...)`. -/
def trainingBatches (r : Records) (afterStep : Nat) : List TrainingBatchRecord :=
  r.batches.filter fun b => afterStep < b.step

/-- `record_and_activate_policy` of a manifest that verified and belongs to the run: nothing where the version is
recorded with another digest, or lies before the active one. -/
def recordAndActivatePolicy (r : Records) (version : Nat) (digest : Digest) : Option Records :=
  match r.policies.find? (fun q => q.1 = version) with
  | some existing =>
    if existing.2 = digest ∧ r.active ≤ version then some { r with active := version } else none
  | none =>
    if r.active ≤ version then some { r with policies := r.policies ++ [(version, digest)], active := version }
    else none

end Records

variable {p}

/-- `decode`, `prepare_batch`, the stamps, and what `FileSystemMicroBatchSender.send` asserts of the grid. -/
def Training.grid (p : Training) (c : Config) (batch : p.Batch) : Option (List (List p.Micro)) :=
  (p.prepareBatch batch).bind fun grid =>
    if grid.length = c.ranks ∧ ∀ l ∈ grid, ∀ l' ∈ grid, l.length = l'.length then
      some (grid.map fun l => l.map (p.stamp batch))
    else none

end Handoff
end Aether
