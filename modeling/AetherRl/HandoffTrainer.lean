import AetherRl.HandoffDisk
/-!
# HandoffTrainer — the trainer process, one operation at a time

A trainer discovers its run (`_create_run_data`), loads its checkpoint, sets up its data loader, and then goes round:
the packer waits for the next batch file, packs it and sends it to the ranks, the ranks receive and train, the adapter
is broadcast, the checkpoint is saved.  Where it stands in the run is counted in `progress.step`, in the run's own
progress, in the batches received, and in the micro batches sent and received.  The ranks move together: each operation
that touches the files of a step stands between two collectives.
-/
namespace Aether
namespace Handoff

variable {p : Training}

/-- The operation the trainer takes next. -/
inductive TrainerPhase (p : Training)
  /-- `wait_for_run(0)` -/
  | discover
  /-- `ckpt_manager.load` -/
  | load
  /-- `DataLoader.__init__` -/
  | setup
  /-- `Packer.pack`: polling -/
  | wait
  | pack (batch : p.Batch)
  | send (grid : List (List p.Micro)) (rank : Nat)
  | receive
  | train (microBatches : List (List p.Micro))
  /-- `broadcast_weights`: the directory, its files, `STABLE` -/
  | broadcast
  | broadcastFiles
  | notify
  /-- `weight_broadcast.maybe_clean` -/
  | clean
  /-- `ckpt_manager.save`: the directory, its files; then `mark_stable` -/
  | checkpoint
  | checkpointFiles
  | markStable
  /-- `progress.step += 1`, or the end of the run -/
  | advance
  | finished

structure Trainer (p : Training) where
  phase : TrainerPhase p
  /-- `--ckpt.resume-step` -/
  resumeStep : Option Nat
  model : p.Model
  /-- `progress.step` -/
  progress : Nat
  /-- `multi_run_manager.progress[0].step` -/
  runProgress : Nat
  /-- `multi_run_manager.ready_to_update[0]` -/
  ready : Bool
  /-- `_received_steps[0]` -/
  received : Option Nat
  /-- `FileSystemMicroBatchSender.current_step` -/
  sent : Nat
  /-- `FileSystemMicroBatchReceiver.current_step`, of every rank -/
  receiving : Nat

/-- A trainer that was just started, with the weights its run begins with. -/
def Trainer.spawn (resumeStep : Option Nat) (model : p.Model) : Trainer p :=
  ⟨.discover, resumeStep, model, 1, 1, false, none, 1, 1⟩

/-- What an operation comes to: the files and the trainer after it, or the exception that ends the trainer. -/
abbrev Outcome (p : Training) := Disk p × Option (Trainer p)

namespace Trainer

variable (t : Trainer p) (d : Disk p)

def goes (phase : TrainerPhase p) : Trainer p := { t with phase := phase }

/-- `_get_received_step`. -/
def receivedStep : Nat := t.received.getD t.runProgress

/-- `is_last_step`. -/
def isLastStep (c : Config) : Bool := c.maxSteps.any fun m => decide (m ≤ t.progress)

/-- `_create_run_data`, once the run's configuration is there. -/
def discover : Option (Outcome p) :=
  d.orchToml.map fun resumeStep =>
    (d, some { t with runProgress := (resumeStep.map (· + 1)).getD 1, phase := .load })

/-- `ckpt_manager.load`, and `progress.step += 1`. -/
def load : Outcome p :=
  match t.resumeStep with
  | none => (d, some (t.goes .setup))
  | some step =>
    match (d.checkpoints step).bind StepDir.content with
    | none => (d, none)
    | some (model, progress) => (d, some { t with model := model, progress := progress + 1, phase := .setup })

/-- `Packer.__init__` and the receivers' own. -/
def setup : Outcome p :=
  ({ d with micro := fun _ _ => none }, some { t with sent := t.progress, receiving := t.progress, phase := .wait })

/-- `FileSystemTrainingBatchReceiver.receive`: a file that cannot be decoded is logged and left for the next poll. -/
def poll : Option (Outcome p) :=
  if t.ready then none
  else
    match (d.rollouts t.receivedStep).bind p.decode with
    | none => some (d, some { t with received := some t.receivedStep })
    | some batch => some (d, some { t with received := some (t.receivedStep + 1), phase := .pack batch })

/-- `Packer.pack`, up to what `send` asserts. -/
def pack (c : Config) (batch : p.Batch) : Outcome p :=
  match p.grid c batch with
  | none => (d, none)
  | some grid => (d, some { t with ready := true, runProgress := t.runProgress + 1, phase := .send grid 0 })

/-- `FileSystemMicroBatchSender.send`: the next rank's file. -/
def send (grid : List (List p.Micro)) (rank : Nat) : Outcome p :=
  match grid[rank]? with
  | some micro =>
    (d.setMicro t.sent rank micro, some (t.goes (.send grid (rank + 1))))
  | none => (d, some { t with sent := t.sent + 1, phase := .receive })

/-- `FileSystemMicroBatchReceiver.wait` and `receive`, on every rank. -/
def receive (c : Config) : Option (Outcome p) :=
  ((List.range c.ranks).mapM fun rank => d.micro t.receiving rank).map fun microBatches =>
    (d, some { t with receiving := t.receiving + 1, phase := .train microBatches })

def train (microBatches : List (List p.Micro)) (noise : p.Noise) : Outcome p :=
  (d, some { t with model := p.update t.model microBatches noise, phase := .broadcast })

/-- The step `broadcast_weights` saves under. -/
def broadcastStep : Nat := t.runProgress - 1

/-- `broadcast_weights`, up to `save_dir.mkdir`. -/
def broadcast : Outcome p :=
  if t.ready then
    (d.setBroadcast t.broadcastStep (some (StepDir.mkdir (d.broadcasts t.broadcastStep))),
      some (t.goes .broadcastFiles))
  else (d, some (t.goes .clean))

/-- `save_state_dict` and `save_lora_config`. -/
def broadcastFiles : Outcome p :=
  match d.broadcasts t.broadcastStep with
  | none => (d, none)
  | some dir =>
    (d.setBroadcast t.broadcastStep (some { dir with content := some (p.adapter t.model) }), some (t.goes .notify))

/-- `_notify_orchestrator`. -/
def notify : Outcome p :=
  match d.broadcasts t.broadcastStep with
  | none => (d, none)
  | some dir =>
    (d.setBroadcast t.broadcastStep (some { dir with stable := true }), some { t with ready := false, phase := .clean })

/-- `maybe_clean(path, step, interval_to_keep)` of the broadcasts. -/
def maybeClean (d : Disk p) (step interval : Nat) : Disk p :=
  if interval ≠ 0 ∧ (step - 2) % interval = 0 then d
  else d.setBroadcast (step - 2) none

def clean (c : Config) : Outcome p := (maybeClean d (t.runProgress - 1) c.interval, some (t.goes .checkpoint))

/-- `ckpt_manager.save`, up to `mkdir`: in the loop at the interval, after it in any case. -/
def checkpoint (c : Config) : Outcome p :=
  if t.isLastStep c ∨ (c.interval ≠ 0 ∧ t.progress % c.interval = 0) then
    (d.setCheckpoint t.progress (some (StepDir.mkdir (d.checkpoints t.progress))), some (t.goes .checkpointFiles))
  else (d, some (t.goes .advance))

/-- `save_to_path`. -/
def checkpointFiles : Outcome p :=
  match d.checkpoints t.progress with
  | none => (d, none)
  | some dir =>
    (d.setCheckpoint t.progress (some { dir with content := some (t.model, t.progress) }), some (t.goes .markStable))

/-- `mark_stable`. -/
def markStable : Outcome p :=
  match d.checkpoints t.progress with
  | none => (d, none)
  | some dir =>
    (d.setCheckpoint t.progress (some { dir with stable := true }), some (t.goes .advance))

def advance (c : Config) : Outcome p :=
  if t.isLastStep c then (d, some (t.goes .finished))
  else (d, some { t with progress := t.progress + 1, phase := .wait })

/-- The next operation, if it can be taken now. -/
def next (c : Config) (noise : p.Noise) : Option (Outcome p) :=
  match t.phase with
  | .discover => t.discover d
  | .load => some (t.load d)
  | .setup => some (t.setup d)
  | .wait => t.poll d
  | .pack batch => some (t.pack d c batch)
  | .send grid rank => some (t.send d grid rank)
  | .receive => t.receive d c
  | .train microBatches => some (t.train d microBatches noise)
  | .broadcast => some (t.broadcast d)
  | .broadcastFiles => some (t.broadcastFiles d)
  | .notify => some (t.notify d)
  | .clean => some (t.clean d c)
  | .checkpoint => some (t.checkpoint d c)
  | .checkpointFiles => some (t.checkpointFiles d)
  | .markStable => some (t.markStable d)
  | .advance => some (t.advance d c)
  | .finished => none

/-- While the files of a broadcast or of a checkpoint are being written, what they read is anything. -/
def tear (adapter : Option p.Adapter) (saved : Option (Checkpoint p)) : Option (Disk p) :=
  match t.phase with
  | .broadcastFiles =>
    some (d.setBroadcast t.broadcastStep
      ((d.broadcasts t.broadcastStep).map fun dir => { dir with content := adapter }))
  | .checkpointFiles =>
    some (d.setCheckpoint t.progress ((d.checkpoints t.progress).map fun dir => { dir with content := saved }))
  | _ => none

end Trainer

end Handoff
end Aether
