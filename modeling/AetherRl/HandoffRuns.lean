import AetherRl.HandoffCoordinator
import AetherRl.Machine
/-!
# HandoffRuns — the two processes together

An event is one operation of one side, or what may befall them: a write or a removal cut short, an exception, a trainer
that dies, both processes killed.  What a process has written stays written; a machine that loses power with files not
yet flushed is not among the events.
-/
namespace Aether
namespace Handoff

variable (p : Training)

inductive Event
  /-- the coordinator's next operation: what an export's artifact reads, the weights a trainer starts with -/
  | coordinator (artifact : Bytes) (noise : p.Noise)
  | trainer (noise : p.Noise)
  /-- a trainer's files while they are being written -/
  | tear (adapter : Option p.Adapter) (saved : Option (Checkpoint p))
  /-- `record_training_batch`, by the result processor -/
  | recordBatch (sizeBytes : Nat) (artifactDigest : Digest)
  /-- `shutil.rmtree` of a directory that may be pruned: what is left of it so far -/
  | removeBroadcast (step : Nat) (left : Option (StepDir p.Adapter))
  | removeCheckpoint (step : Nat) (left : Option (StepDir (Checkpoint p)))
  /-- an exception in the service loop -/
  | coordinatorFails
  | trainerDies
  /-- both processes end -/
  | halt
  /-- the coordinator starts -/
  | boot

variable {p}

namespace State

variable (s : State p)

def trainerOutcome (o : Outcome p) : State p := { s with disk := o.1, trainer := o.2 }

/-- One event, if it can happen. -/
def next (c : Config) (s : State p) : Event p → Option (State p)
  | .coordinator artifact noise => s.coordinatorNext c artifact noise
  | .trainer noise => (s.trainer.bind fun t => t.next s.disk c noise).map s.trainerOutcome
  | .tear adapter saved => (s.trainer.bind fun t => t.tear s.disk adapter saved).map fun d => { s with disk := d }
  | .recordBatch sizeBytes artifactDigest =>
    match s.coordinator.phase with
    | .process => some { s with records := s.records.recordTrainingBatch sizeBytes artifactDigest }
    | _ => none
  | .removeBroadcast step left =>
    match s.pruning? with
    | some active =>
      if 1 ≤ broadcastCutoff c active ∧ step ≤ broadcastCutoff c active ∧
          ∀ dir ∈ left, dir.stable = true → (s.disk.broadcasts step).any StepDir.stable = true then
        some { s with disk := s.disk.setBroadcast step left }
      else none
    | none => none
  | .removeCheckpoint step left =>
    match s.pruning? with
    | some active =>
      if 1 ≤ checkpointCutoff c active ∧ step ≤ checkpointCutoff c active ∧
          ∀ dir ∈ left, dir.stable = true → (s.disk.checkpoints step).any StepDir.stable = true then
        some { s with disk := s.disk.setCheckpoint step left }
      else none
    | none => none
  | .coordinatorFails =>
    match s.coordinator.phase with
    | .process | .query | .serviceExporting _ | .publishing _ => some (s.coordinatorGoes .failed)
    | _ => none
  | .trainerDies => s.trainer.map fun _ => { s with trainer := none }
  | .halt => some { s.coordinatorGoes .down with trainer := none }
  | .boot =>
    match s.coordinator.phase with
    | .down => some (s.coordinatorGoes (.starting .look))
    | _ => none

/-- Nothing recorded, nothing written, nothing running. -/
def start (p : Training) : State p :=
  ⟨⟨[], [], 0⟩, [], ⟨none, fun _ => none, fun _ _ => none, fun _ => none, fun _ => none⟩, ⟨.down, none, 0⟩, none⟩

/-- The state the events lead to. -/
def reached (c : Config) (events : List (Event p)) : State p := Machine.drive (next c) (start p) events

end State

end Handoff
end Aether
