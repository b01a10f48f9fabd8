import AetherRl.RepoTraining
/-!
# RepoCall — the repository's calls and the runs they make

One constructor of `Call` for each public method that changes something, with the arguments its caller gives and the
answers of what lies outside: the ids a factory draws, the artifact directories a verification reads.  A `Step` is a
call and where the process dies in it, if it does; `runFrom` is any finite sequence of them.
-/
namespace Aether

open Repo

inductive Call
  | initializeRun (basePolicy : PolicyManifest)
  | recordPolicy (manifest : PolicyManifest) (path : String) (onDisk : Option PolicyManifest)
  | recordAndActivatePolicy (manifest : PolicyManifest) (path : String) (onDisk : Option PolicyManifest)
  | activatePolicy (policyId : OpaqueId) (artifacts : Artifacts)
  | configureScheduler (maxPolicyLag : Int) (loadedPolicyPreferenceSeconds : Time)
  | registerWorker (registration : WorkerRegistration)
  | recordHeartbeat (heartbeat : WorkerHeartbeat) (duration : Time)
  | validateLeaseRequest (request : LeaseRequest)
  | markLeaseRequestNoWork (requestId : OpaqueId)
  | associateOfferedLease (request : LeaseRequest) (offered : AssignmentLease)
  | associateOfferedLeases (request : LeaseRequest) (offered : List AssignmentLease)
  | releaseUnofferedLease (leaseId : OpaqueId)
  | registerSchedulerSource (spec : EnvironmentSourceSpec)
  | createNextGroup (kind : Option Kind) (ids : Nat → OpaqueId) (artifacts : Artifacts)
  | createGroup (assignments : List RolloutAssignment) (maxAttempts : Nat)
  | leaseNextCompatible (request : LeaseRequest) (duration : Time) (leaseId : OpaqueId)
  | leaseOrCreateNextCompatible (request : LeaseRequest) (duration : Time) (draws : Draws) (artifacts : Artifacts)
  | createLease (assignmentId workerId workerSessionId leaseId : OpaqueId) (duration : Time)
  | renewLease (renewal : RenewalArgs)
  | expireLeases
  | acceptResult (envelope : ResultEnvelope) (temporary : String)
  | acceptFailure (envelope : FailureEnvelope)
  | claimPendingResults (limit : Nat)
  | markResultProcessed (assignmentId : OpaqueId)
  | recordProcessedGroup (group : ProcessedGroupArgs)
  | discardProcessedRollouts (members : List (OpaqueId × Int))
  | recordTrainingBatch (batch : TrainingBatchArgs)
  | recover (artifacts : Artifacts)

/-- A method for what it does: its answer is dropped. -/
def answered {α : Type} (m : Method α) : Method Unit := do
  let _ ← m
  pure ()

def perform (env : Env) : Call → Method Unit
  | .initializeRun p => initializeRun env p
  | .recordPolicy m path onDisk => recordPolicy env m path onDisk
  | .recordAndActivatePolicy m path onDisk => answered (recordAndActivatePolicy env m path onDisk)
  | .activatePolicy i artifacts => answered (activatePolicy env i artifacts)
  | .configureScheduler lag preference => configureScheduler env lag preference
  | .registerWorker r => answered (registerWorker env r)
  | .recordHeartbeat h duration => answered (recordHeartbeat env h duration)
  | .validateLeaseRequest r => answered (validateLeaseRequest env r)
  | .markLeaseRequestNoWork i => answered (markLeaseRequestNoWork env i)
  | .associateOfferedLease r offered => answered (associateOfferedLease env r offered)
  | .associateOfferedLeases r offered => associateOfferedLeases env r offered
  | .releaseUnofferedLease i => releaseUnofferedLease env i
  | .registerSchedulerSource spec => registerSchedulerSource spec
  | .createNextGroup kind ids artifacts => answered (createNextGroup env kind ids artifacts)
  | .createGroup as n => createGroup env as n
  | .leaseNextCompatible r duration i => answered (leaseNextCompatible env r duration i)
  | .leaseOrCreateNextCompatible r duration draws artifacts =>
    answered (leaseOrCreateNextCompatible env r duration draws artifacts)
  | .createLease i worker session l duration => answered (createLease env i worker session l duration)
  | .renewLease r => answered (renewLease env r)
  | .expireLeases => answered (expireLeases env)
  | .acceptResult e temporary => answered (acceptResult env e temporary)
  | .acceptFailure e => answered (acceptFailure env e)
  | .claimPendingResults n => answered (claimPendingResults n)
  | .markResultProcessed i => markResultProcessed i
  | .recordProcessedGroup g => recordProcessedGroup env g
  | .discardProcessedRollouts ms => discardProcessedRollouts ms
  | .recordTrainingBatch b => recordTrainingBatch env b
  | .recover artifacts => recover env artifacts

/-- A call, the number of durable steps its process still takes before it dies, and what a cut write leaves. -/
structure Step where
  call : Call
  crashAfter : Option Nat
  torn : Nat

def Step.run (env : Env) (s : Step) (w : World) : World :=
  (perform env s.call { w with crashAfter := s.crashAfter, torn := s.torn }).2

/-- The call returned: it neither raised nor died. -/
def Step.Returned (env : Env) (s : Step) (w : World) : Prop :=
  (perform env s.call { w with crashAfter := s.crashAfter, torn := s.torn }).1 = .ok ()

def runFrom (env : Env) (w : World) (steps : List Step) : World := steps.foldl (fun w s => s.run env w) w

/-- What a run of the repository reaches from a migrated database and an empty spool. -/
def reached (env : Env) (steps : List Step) : World := runFrom env World.fresh steps

theorem runFrom_append (env : Env) (w : World) (steps more : List Step) :
    runFrom env w (steps ++ more) = runFrom env (runFrom env w steps) more := List.foldl_append

@[simp] theorem wp_answered {α : Type} {m : Method α} {Q : Unit → World → Prop} {E : Error → World → Prop} {w : World} :
    Txn.Wp (answered m) Q E w ↔ Txn.Wp m (fun _ => Q ()) E w := by
  simp only [answered, Txn.wp_bind, Txn.wp_pure]

theorem answered_snd {α : Type} (m : Method α) (w : World) : (answered m w).2 = (m w).2 := by
  unfold answered
  rw [Txn.method_bind]
  cases m w with
  | mk r w' => cases r <;> rfl

/-- **What every step keeps, a run keeps.** -/
theorem runFrom_keeps (env : Env) {R : World → World → Prop} (hr : ∀ w, R w w)
    (ht : ∀ a b c, R a b → R b c → R a c) (h : ∀ (s : Step) w, R w (s.run env w)) :
    ∀ (steps : List Step) (w : World), R w (runFrom env w steps)
  | [], w => hr w
  | s :: steps, w => ht _ _ _ (h s w) (runFrom_keeps env hr ht h steps (s.run env w))

end Aether
