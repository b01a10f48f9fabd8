import AetherRl.Machine
import AetherRl.QueueEmit
import AetherRl.RepoAccounts
/-!
# QueueRuns — the result processor, killed anywhere and started again

`process_available` of `coordinator/results.py` goes from group to group and then from batch to batch.  A run takes its
turns in any order, between them what others ask of the repository.  A turn may be cut short after any of its durable
steps; a turn that raises, or that the process dies in, is the processor's last, and then only a start goes on.
-/
namespace Aether
namespace Queue

open Repo

variable {F : Type}

/-- What `_process_group` makes of a group before it publishes, the reading of the active policy apart. -/
def prepareGroup (p : Processor F) (group : ReadyGroup) (made : Processing F group) :
    Except ProcessError (ProcessedGroupPayload F) :=
  loadGroup p group made >>= finishGroup p group made

/-- A turn of `process_available`: the next ready group, if there is one. -/
def processNext (p : Processor F) (artifacts : Artifacts) (processing : ∀ group, Processing F group) : Program Unit := do
  match ← onWorld (readyGroups 1) with
  | [] => pure ()
  | group :: _ => processGroup p artifacts group (processing group)

/-- The payload that `processNext` publishes. -/
def attempt (p : Processor F) (processing : ∀ group, Processing F group) (s : Store) :
    Option (ProcessedGroupPayload F) :=
  match (readyGroups 1 s.world).1 with
  | .ok (group :: _) => (prepareGroup p group (processing group)).toOption
  | _ => none

/-- The bytes of the batch that an iteration of the emission loop comes to. -/
def emission (p : Processor F) (s : Store) : Option Bytes :=
  match loadPendingPayloads p s.queue (pendingProcessedRollouts s.world.db.toTables) with
  | .error _ => none
  | .ok l => ((selectPolicyHomogeneousBatch p l).mapM samplesOf).toOption.map fun samples =>
      p.encodeBatch samples.flatten (nextTrainingBatchStep s.world.db.toTables)

/-! ## A recovery cut short -/

/-- The files left of a directory once `n` unlinks are done, and how many are left to do. -/
def unlinkWithin (doomed : String × Bytes → Bool) : Nat → List (String × Bytes) → List (String × Bytes) × Nat
  | n, [] => ([], n)
  | n, f :: fs =>
    if doomed f then
      match n with
      | 0 => (f :: fs, 0)
      | n + 1 => unlinkWithin doomed n fs
    else (f :: (unlinkWithin doomed n fs).1, (unlinkWithin doomed n fs).2)

/-- `recover`, whose process dies after `n` unlinks. -/
def recoverWithin (c : Codec) (n : Nat) (s : Store) : Store :=
  let incoming := unlinkWithin (fun _ => true) n s.queue.incoming
  let q := { s.queue with incoming := incoming.1 }
  match (artifactRecords s.world.db.toTables).mapM (fun r => verify c q r.artifactPath r.artifactDigest r.sizeBytes) with
  | .error _ => { s with queue := q }
  | .ok _ =>
    let doomed : String × Bytes → Bool :=
      fun f => decide (f.1 ∉ (artifactRecords s.world.db.toTables).map (·.artifactPath))
    let groups := unlinkWithin doomed incoming.2 q.groups
    let batches := unlinkWithin doomed groups.2 q.batches
    { s with queue := { q with groups := groups.1, batches := batches.1 } }

/-! ## Runs -/

/-- Where the process dies in a turn, if it does, and what a cut write leaves. -/
structure Cut where
  crashAfter : Option Nat
  torn : Nat

inductive Event (F : Type)
  /-- a call on the repository by others than the processor -/
  | call (step : Step)
  | process (cut : Cut) (artifacts : Artifacts) (processing : ∀ group, Processing F group)
  | emit (cut : Cut) (artifacts : Artifacts)
  /-- the processor is killed between two turns -/
  | dies
  | start
  | startDies (unlinks : Nat)

structure Running where
  store : Store
  /-- a processor is there that has raised nothing -/
  alive : Bool

def within (cut : Cut) (s : Store) : Store :=
  { s with world := { s.world with crashAfter := cut.crashAfter, torn := cut.torn } }

/-- What a turn comes to: a processor's own, while it is there, and the start of a new one. -/
def Running.turn (p : Processor F) (r : Running) : Event F → Option (Except ProcessError Unit × Store)
  | .process cut artifacts processing =>
    if r.alive then some (processNext p artifacts processing (within cut r.store)) else none
  | .emit cut artifacts =>
    if r.alive then some ((do let _ ← emitTurn p artifacts; pure () : Program Unit) (within cut r.store)) else none
  | .start => some (recover p.env.codec r.store)
  | _ => none

/-- The call killed the process it was made in. -/
def diedIn (env : Env) (step : Step) (w : World) : Bool :=
  match (perform env step.call { w with crashAfter := step.crashAfter, torn := step.torn }).1 with
  | .error .crash => true
  | _ => false

/-- One event, if it can happen. -/
def Running.next (p : Processor F) (r : Running) : Event F → Option Running
  | .call step =>
    if step.call.trainingBody.isNone then
      some ⟨{ r.store with world := step.run p.env r.store.world }, r.alive && !diedIn p.env step r.store.world⟩
    else none
  | .dies => some { r with alive := false }
  | .startDies unlinks => some ⟨recoverWithin p.env.codec unlinks r.store, false⟩
  | e => (r.turn p e).map fun result => ⟨result.2, result.1.isOk⟩

/-- An initialized run root: nothing recorded, no file in the queue, no processor yet. -/
def Running.fresh : Running := ⟨⟨World.fresh, ⟨[], [], []⟩, 0⟩, false⟩

/-- Where the events lead. -/
def reached (p : Processor F) (events : List (Event F)) : Running := Machine.drive (Running.next p) .fresh events

/-- The payload an event would publish. -/
def Running.attempt (p : Processor F) (r : Running) : Event F → Option (ProcessedGroupPayload F)
  | .process _ _ processing => if r.alive then Queue.attempt p processing r.store else none
  | _ => none

/-- The payloads the events publish, or were to. -/
def attemptedFrom (p : Processor F) : Running → List (Event F) → List (ProcessedGroupPayload F)
  | _, [] => []
  | r, e :: es => (r.attempt p e).toList ++ attemptedFrom p ((r.next p e).getD r) es

def attempted (p : Processor F) (events : List (Event F)) : List (ProcessedGroupPayload F) :=
  attemptedFrom p .fresh events

end Queue
end Aether
