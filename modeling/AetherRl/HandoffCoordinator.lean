import AetherRl.HandoffTrainer
/-!
# HandoffCoordinator — the coordinator's side, one operation at a time

`CoordinatorRuntime.start` publishes whatever a trainer left ready, prunes, exports, and starts a trainer that resumes
at the active version; `_service_loop` then goes round: process, export, publish.  What a publication finds on the disk
it finds again after a restart, for nothing is kept in memory but the exporter's last step.  A restart is the documented
one: the coordinator has stopped and its trainer child has exited, before exactly one coordinator is started.
-/
namespace Aether
namespace Handoff

variable (p : Training)

/-- `_publish_available_policies`: the operation it takes next. -/
inductive Publishing
  | look
  /-- is `broadcasts/step_<version>/STABLE` a file -/
  | broadcast (version : Nat)
  | checkpoint (version : Nat)
  /-- `load_file` -/
  | load (version : Nat)
  /-- `publish_lora_policy` -/
  | publish (version : Nat) (stateDict : p.Adapter)
  /-- `record_and_activate_policy` -/
  | activate (version : Nat) (policy : Digest)
  /-- `_prune_published_artifacts` -/
  | prune (version : Nat)

/-- Where the coordinator stands: down, in `start`, in its service loop, or past the exception that ended the loop. -/
inductive CoordinatorPhase
  | down
  | starting (publishing : Publishing p)
  | pruning
  | runConfig
  | exporting (records : List TrainingBatchRecord)
  | launch
  | process
  | query
  | serviceExporting (records : List TrainingBatchRecord)
  | publishing (publishing : Publishing p)
  | failed

structure Coordinator where
  phase : CoordinatorPhase p
  /-- `CoordinatorRuntime.resume_step` -/
  resumeStep : Option Nat
  /-- `CoordinatorTrainingBatchExporter.last_exported_step` -/
  lastExportedStep : Nat

/-- The two processes, the directory between them, the database, and the policy directories published so far. -/
structure State where
  records : Records
  published : List (Nat × Digest)
  disk : Disk p
  coordinator : Coordinator p
  trainer : Option (Trainer p)

variable {p}

namespace State

variable (s : State p)

def coordinatorGoes (phase : CoordinatorPhase p) : State p :=
  { s with coordinator := { s.coordinator with phase := phase } }

@[simp] theorem coordinatorGoes_records (phase : CoordinatorPhase p) :
    (s.coordinatorGoes phase).records = s.records := rfl
@[simp] theorem coordinatorGoes_published (phase : CoordinatorPhase p) :
    (s.coordinatorGoes phase).published = s.published := rfl
@[simp] theorem coordinatorGoes_disk (phase : CoordinatorPhase p) : (s.coordinatorGoes phase).disk = s.disk := rfl
@[simp] theorem coordinatorGoes_trainer (phase : CoordinatorPhase p) :
    (s.coordinatorGoes phase).trainer = s.trainer := rfl

/-- What a publication comes to: its next operation, or whether it published. -/
def publishNext (publishing : Publishing p) : Option (State p × (Publishing p ⊕ Bool)) :=
  match publishing with
  | .look => some (s, .inl (.broadcast (s.records.active + 1)))
  | .broadcast version =>
    if (s.disk.broadcasts version).any StepDir.stable then some (s, .inl (.checkpoint version))
    else some (s, .inr false)
  | .checkpoint version =>
    if (s.disk.checkpoints version).any StepDir.stable then some (s, .inl (.load version))
    else some (s, .inr false)
  | .load version =>
    ((s.disk.broadcasts version).bind StepDir.content).map fun stateDict => (s, .inl (.publish version stateDict))
  | .publish version stateDict =>
    if p.publishes version stateDict then
      let policy := p.policy version stateDict
      some ({ s with published := if (version, policy) ∈ s.published then s.published
                                  else s.published ++ [(version, policy)] }, .inl (.activate version policy))
    else none
  | .activate version policy =>
    (s.records.recordAndActivatePolicy version policy).map fun records =>
      ({ s with records := records }, .inl (.prune version))
  | .prune _ => some (s, .inr true)

/-- `_export_record`, with the bytes the artifact reads; nothing where it raises. -/
def exportRecord (record : TrainingBatchRecord) (artifact : Bytes) : Option (State p) :=
  match s.disk.rollouts record.step with
  | some data =>
    if data.length = record.sizeBytes ∧ p.sha256 data = record.artifactDigest then some s else none
  | none =>
    if artifact.length = record.sizeBytes ∧ p.sha256 artifact = record.artifactDigest then
      some { s with disk := s.disk.setRollouts record.step artifact }
    else none

/-- The head of `export_available`'s loop. -/
def exportNext (record : TrainingBatchRecord) (artifact : Bytes) : Option (State p) :=
  (s.exportRecord record artifact).map fun s =>
    { s with coordinator := { s.coordinator with lastExportedStep := record.step } }

/-- `self.resume_step = active.policy_version or None`, with a new exporter. -/
def resume : Coordinator p :=
  ⟨.runConfig, if s.records.active = 0 then none else some s.records.active, 0⟩

/-- The next operation of the coordinator, nothing where it raises: `artifact` is what the export's file reads, `noise`
the weights a trainer is started with. -/
def coordinatorNext (c : Config) (artifact : Bytes) (noise : p.Noise) : Option (State p) :=
  match s.coordinator.phase with
  | .down => none
  | .starting publishing =>
    (s.publishNext publishing).map fun r =>
      r.1.coordinatorGoes (match r.2 with
        | .inl publishing => .starting publishing
        | .inr true => .starting .look
        | .inr false => .pruning)
  | .pruning => some { s with coordinator := s.resume }
  | .runConfig =>
    some ({ s with disk := { s.disk with orchToml := some s.coordinator.resumeStep } }.coordinatorGoes
      (.exporting (s.records.trainingBatches s.coordinator.lastExportedStep)))
  | .exporting [] => some (s.coordinatorGoes .launch)
  | .exporting (record :: records) =>
    (s.exportNext record artifact).map fun s => s.coordinatorGoes (.exporting records)
  | .launch =>
    if c.maxSteps.any (fun m => decide (m ≤ s.records.active)) then some (s.coordinatorGoes .process)
    else some { s.coordinatorGoes .process with trainer := some (.spawn s.coordinator.resumeStep (p.initial noise)) }
  | .process => some (s.coordinatorGoes .query)
  | .query => some (s.coordinatorGoes (.serviceExporting (s.records.trainingBatches s.coordinator.lastExportedStep)))
  | .serviceExporting [] => some (s.coordinatorGoes (.publishing .look))
  | .serviceExporting (record :: records) =>
    (s.exportNext record artifact).map fun s => s.coordinatorGoes (.serviceExporting records)
  | .publishing publishing =>
    (s.publishNext publishing).map fun r =>
      r.1.coordinatorGoes (match r.2 with
        | .inl publishing => .publishing publishing
        | .inr _ => .process)
  | .failed => none

/-- The version a pruning coordinator prunes for. -/
def pruning? : Option Nat :=
  match s.coordinator.phase with
  | .pruning => some s.records.active
  | .starting (.prune version) | .publishing (.prune version) => some version
  | _ => none

/-- `checkpoint_cutoff`, where there is anything to prune. -/
def checkpointCutoff (c : Config) (active : Nat) : Nat := (c.keepLast.map (active - ·)).getD 0

/-- The `active_version` of the other root, where there is anything to prune. -/
def broadcastCutoff (c : Config) (active : Nat) : Nat := (c.keepLast.map fun _ => active).getD 0

end State

end Handoff
end Aether
