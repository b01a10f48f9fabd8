import AetherRl.Broker
import AetherRl.Dict
import AetherRl.RepoState
/-!
# EpisodeRunner — the coordinator's episodes

`CentralEpisodeRunner` of `coordinator/environments.py`, one step for each stretch of its tasks between two suspension
points, over the broker it registers its leases with.  What the environment does is open: its code may take a cancellation
as it likes.  In which order the gate lets tasks in is open too.
-/
namespace Aether

/-- An exception `_execute` handles, as far as it tells them apart. -/
inductive EpisodeError
  | resultTooLarge
  | other (typeName message : String)

namespace Episodes

/-- Where a task is in `_execute`. -/
inductive Stage
  /-- scheduled, and no line of it has run -/
  | created
  /-- not let in by the gate yet -/
  | waiting
  /-- in `_run_environment`, inside the gate -/
  | running
  /-- `accept_result` is asked for -/
  | accepting (envelope : ResultEnvelope)
  /-- `accept_failure` is asked for -/
  | failing (failure : FailureEnvelope)
  /-- done, and its callback is still to come -/
  | done
  /-- its callback has run -/
  | popped

def Stage.ended : Stage → Bool
  | .done | .popped => true
  | _ => false

def Stage.isPopped : Stage → Bool
  | .popped => true
  | _ => false

def Stage.isRunning : Stage → Bool
  | .running => true
  | _ => false

/-- The task has not left the environment yet. -/
def Stage.within : Stage → Bool
  | .created | .waiting | .running => true
  | _ => false

/-- What the repository is asked for. -/
inductive Report
  | result (envelope : ResultEnvelope)
  | failure (failure : FailureEnvelope)

/-- A task: its lease, the exchange it was registered with, whether a cancellation is still to be thrown into it, what it
has reported, and whether a line of `_execute` has run: none has of a task that is cancelled before its first step. -/
structure Episode where
  lease : AssignmentLease
  exchange : Nat
  stage : Stage
  cancelled : Bool
  reports : List Report
  entered : Bool

/-- How `_run_environment` ends. -/
inductive Ending
  | returned (completedAt : Time) (episode : JsonText)
  | raised (error : EpisodeError)
  | cancelled

/-- The envelope of an episode that came to its end. -/
def envelope (c : Codec) (lease : AssignmentLease) (completedAt : Time) (episode : JsonText) : ResultEnvelope where
  assignmentId := lease.assignment.assignmentId
  attempt := lease.attempt
  leaseId := lease.leaseId
  workerId := lease.workerId
  workerSessionId := lease.workerSessionId
  requestedPolicyId := lease.assignment.policy.policyId
  requestedPolicyDigest := c.policyManifestDigest lease.assignment.policy
  completedAt := completedAt
  episode := episode

def errorText : EpisodeError → String
  | .resultTooLarge => "rollout result exceeds assignment result_size_limit_bytes"
  | .other typeName message => if message = "" then typeName else message

def failureOf (lease : AssignmentLease) (failedAt : Time) (error : EpisodeError) : FailureEnvelope where
  assignmentId := lease.assignment.assignmentId
  attempt := lease.attempt
  leaseId := lease.leaseId
  workerId := lease.workerId
  workerSessionId := lease.workerSessionId
  failedAt := failedAt
  code := match error with
    | .resultTooLarge => "result_too_large"
    | .other _ _ => "central_execution_failed"
  message := String.ofList ((errorText error).toList.take 8192)
  retryable := match error with
    | .resultTooLarge => false
    | .other _ _ => true
  details := "{}"

end Episodes

open Episodes

structure CentralEpisodeRunner where
  gate : Nat
  tasks : Dict OpaqueId Nat
  expiresAt : Dict OpaqueId Time
  episodes : List Episode
  broker : InferenceBroker

namespace CentralEpisodeRunner

/-- `CentralEpisodeRunner(..., slots=slots)` over a new broker. -/
def new (slots bodyLimitBytes : Nat) : CentralEpisodeRunner := ⟨slots, .empty, .empty, [], .new bodyLimitBytes⟩

def set (r : CentralEpisodeRunner) (k : Nat) (e : Episode) : CentralEpisodeRunner :=
  { r with episodes := r.episodes.set k e }

def start (r : CentralEpisodeRunner) (lease : AssignmentLease) : Except Broker.Error CentralEpisodeRunner :=
  if (r.tasks.get? lease.leaseId).isSome then .ok r
  else (r.broker.register lease.leaseId lease.workerId lease.workerSessionId).map fun broker =>
    { r with
      broker := broker
      expiresAt := r.expiresAt.set lease.leaseId lease.expiresAt
      tasks := r.tasks.set lease.leaseId r.episodes.length
      episodes := r.episodes ++ [⟨lease, r.broker.exchanges.length, .created, false, [], false⟩] }

def renew (r : CentralEpisodeRunner) (leaseId : OpaqueId) (expiresAt : Time) : CentralEpisodeRunner :=
  if (r.tasks.get? leaseId).isSome then { r with expiresAt := r.expiresAt.set leaseId expiresAt } else r

/-- `task.cancel()`, which a task that is done ignores. -/
def cancelTask (r : CentralEpisodeRunner) (k : Nat) : CentralEpisodeRunner :=
  match r.episodes[k]? with
  | none => r
  | some e => if e.stage.ended then r else r.set k { e with cancelled := true }

def cancel (r : CentralEpisodeRunner) (leaseId : OpaqueId) : CentralEpisodeRunner :=
  let r := match r.tasks.get? leaseId with
    | none => r
    | some k => r.cancelTask k
  { r with broker := r.broker.close leaseId }

/-- A pass of `_watch_expiry`. -/
def watch (r : CentralEpisodeRunner) (now : Time) : CentralEpisodeRunner :=
  (r.expiresAt.entries.filter fun x => decide (x.2 ≤ now)).foldl (fun r x => r.cancel x.1) r

/-- The `finally` of `_execute`, and the task is done. -/
def leave (r : CentralEpisodeRunner) (k : Nat) (e : Episode) : CentralEpisodeRunner :=
  { r with
    expiresAt := r.expiresAt.erase e.lease.leaseId
    broker := r.broker.close e.lease.leaseId
    episodes := r.episodes.set k { e with stage := .done, cancelled := false } }

/-- `_execute` handles an exception: the failure is reported. -/
def fail (r : CentralEpisodeRunner) (k : Nat) (e : Episode) (failedAt : Time) (error : EpisodeError) :
    CentralEpisodeRunner :=
  let f := failureOf e.lease failedAt error
  r.set k { e with stage := .failing f, cancelled := false, reports := e.reports ++ [.failure f] }

/-- `_execute` from the end of `_run_environment` on: the gate is free for another. -/
def environment (c : Codec) (r : CentralEpisodeRunner) (k : Nat) (e : Episode) (ending : Ending) (failedAt : Time) :
    CentralEpisodeRunner :=
  let r := { r with gate := r.gate + 1 }
  match ending with
  | .cancelled => r.leave k e
  | .raised error => r.fail k e failedAt error
  | .returned completedAt episode =>
    let result := envelope c e.lease completedAt episode
    if e.lease.assignment.resultSizeLimitBytes < (c.resultEnvelopeBytes result).length then
      r.fail k e failedAt .resultTooLarge
    else r.set k { e with stage := .accepting result, cancelled := false, reports := e.reports ++ [.result result] }

/-! ## Events -/

inductive Event
  | start (lease : AssignmentLease)
  | renew (leaseId : OpaqueId) (expiresAt : Time)
  | cancel (leaseId : OpaqueId)
  | watch (now : Time)
  /-- the first step of a task, which the gate lets in at once or not -/
  | begin (k : Nat) (letIn : Bool)
  | letIn (k : Nat)
  | environment (k : Nat) (ending : Ending) (failedAt : Time)
  /-- `accept_result` returns, or raises -/
  | accepted (k : Nat) (raised : Option (String × String)) (failedAt : Time)
  /-- `accept_failure` returns, or raises -/
  | failed (k : Nat)
  /-- a cancellation is thrown into a task that waits -/
  | interrupt (k : Nat)
  | callback (k : Nat)
  /-- what environments and workers do at the broker -/
  | broker (e : InferenceBroker.Event)

/-- The runner alone registers leases and closes them. -/
def external : InferenceBroker.Event → Bool
  | .register _ _ _ | .close _ => false
  | _ => true

/-- A task's own step. -/
def taskStep (c : Codec) (r : CentralEpisodeRunner) (k : Nat) (e : Episode) : Event → Option CentralEpisodeRunner
  | .begin _ letIn => match e.stage with
    | .created =>
      if e.cancelled then some (r.set k { e with stage := .done, cancelled := false })
      else if letIn then
        if 0 < r.gate then some ({ r with gate := r.gate - 1 }.set k { e with stage := .running, entered := true })
        else none
      else some (r.set k { e with stage := .waiting, entered := true })
    | _ => none
  | .letIn _ => match e.stage with
    | .waiting =>
      if 0 < r.gate ∧ ¬ e.cancelled then some ({ r with gate := r.gate - 1 }.set k { e with stage := .running })
      else none
    | _ => none
  | .environment _ ending failedAt => match e.stage with
    | .running => some (r.environment c k e ending failedAt)
    | _ => none
  | .accepted _ raised failedAt => match e.stage with
    | .accepting _ =>
      if e.cancelled then none
      else match raised with
        | none => some (r.leave k e)
        | some (typeName, message) => some (r.fail k e failedAt (.other typeName message))
    | _ => none
  | .failed _ => match e.stage with
    | .failing _ => if e.cancelled then none else some (r.leave k e)
    | _ => none
  | .interrupt _ => match e.stage with
    | .waiting | .accepting _ | .failing _ => if e.cancelled then some (r.leave k e) else none
    | _ => none
  | .callback _ => match e.stage with
    | .done => some { r.set k { e with stage := .popped } with tasks := r.tasks.erase e.lease.leaseId }
    | _ => none
  | _ => none

/-- The task whose step an event is. -/
def Event.task? : Event → Option Nat
  | .begin k _ | .letIn k | .environment k _ _ | .accepted k _ _ | .failed k | .interrupt k | .callback k => some k
  | _ => none

def next (c : Codec) (r : CentralEpisodeRunner) : Event → Option CentralEpisodeRunner
  | .start lease => some ((r.start lease).toOption.getD r)
  | .renew leaseId expiresAt => some (r.renew leaseId expiresAt)
  | .cancel leaseId => some (r.cancel leaseId)
  | .watch now => some (r.watch now)
  | .broker e => if external e then (r.broker.next e).map fun b => { r with broker := b } else none
  | e => e.task?.bind fun k => (r.episodes[k]?).bind fun episode => r.taskStep c k episode e

end CentralEpisodeRunner
end Aether
