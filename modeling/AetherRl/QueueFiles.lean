import AetherRl.RepoCall
/-!
# QueueFiles — the durable training queue

`DurableTrainingQueue` of `coordinator/results.py` over a `Store`: the repository's world and the queue's directories.  A
file is its run-relative path and its contents; a directory that a batch step leaves empty holds nothing and is not kept.
The durable steps of a publication are those of the result spool: the temporary file's creation, what a torn write leaves
of it, its whole contents, the link and the unlink.
-/
namespace Aether

/-- What the processor raises: the repository's exceptions, a missing file, an undecodable artifact, an index out of
range, a failed `assert`. -/
inductive ProcessError
  | repository (e : Error)
  | fileNotFound
  | decode
  | index
  | assertion (message : String)
  /-- out of the episodes of a group, or of what its algorithm makes of them -/
  | processing (message : String)
deriving DecidableEq

def ProcessError.crash : ProcessError := .repository .crash

/-- The `incoming`, `groups` and `batches` directories. -/
structure QueueFiles where
  incoming : List (String × Bytes)
  groups : List (String × Bytes)
  batches : List (String × Bytes)

/-- The file a path names, of the groups or of a batch step. -/
def QueueFiles.read (q : QueueFiles) (path : String) : Option Bytes :=
  (Repo.Spool.read q.groups path).or (Repo.Spool.read q.batches path)

/-- The directory a file is published to. -/
inductive QueueDirectory | groups | batches
deriving DecidableEq

def QueueFiles.add (q : QueueFiles) (file : String × Bytes) : QueueDirectory → QueueFiles
  | .groups => { q with groups := q.groups ++ [file] }
  | .batches => { q with batches := q.batches ++ [file] }

/-- The coordinator's durable state, and how many temporary names were drawn. -/
structure Store where
  world : World
  queue : QueueFiles
  drawn : Nat

abbrev Program (α : Type) := Txn.Method Store ProcessError α

namespace Queue

open Repo

/-- A repository method, called by the processor. -/
def onWorld {α : Type} (m : Method α) : Program α := fun s =>
  match m s.world with
  | (.ok a, w) => (.ok a, { s with world := w })
  | (.error e, w) => (.error (.repository e), { s with world := w })

def raiseUnless (c : Prop) [Decidable c] (e : ProcessError) : Program Unit := if c then pure () else throw e

def orThrow {α : Type} (r : Except ProcessError α) : Program α := fun s => (r, s)

/-- A durable step of the process: it lives through it or dies before it. -/
def live : Program Unit := onWorld (durable fun w => (.ok (), w))

def updateQueue (f : QueueFiles → Nat → Except ProcessError QueueFiles) : Program Unit := fun s =>
  match f s.queue s.world.torn with
  | .ok q => (.ok (), { s with queue := q })
  | .error e => (.error e, s)

def queueStep (f : QueueFiles → Nat → Except ProcessError QueueFiles) : Program Unit := do
  live
  updateQueue f

/-- `try: body finally: cleanup`; a crash runs no `finally`. -/
def tryFinally {α : Type} (body : Program α) (cleanup : Program Unit) : Program α := fun s =>
  match body s with
  | (.error (.repository .crash), s') => (.error .crash, s')
  | (r, s') => match cleanup s' with
    | (.error e, s'') => (.error e, s'')
    | (.ok (), s'') => (r, s'')

def verify (c : Codec) (q : QueueFiles) (path : String) (digest : Digest) (size : Int) : Except ProcessError Bytes :=
  match q.read path with
  | none => .error .fileNotFound
  | some data =>
    if (data.length : Int) ≠ size then
      .error (.repository (.artifactCorruption "training queue artifact size does not match durable state"))
    else if c.sha256 data ≠ digest then
      .error (.repository (.artifactCorruption "training queue artifact digest does not match durable state"))
    else .ok data

/-! ## Publishing -/

/-- `uuid.uuid4().hex` and its suffix. -/
def drawName (uuid : Nat → String) : Program String := fun s =>
  (.ok (uuid s.drawn ++ ".tmp"), { s with drawn := s.drawn + 1 })

def createTemporary (name : String) : Program Unit :=
  queueStep fun q _ =>
    if (Spool.read q.incoming name).isSome then .error (.repository .fileExists)
    else .ok { q with incoming := q.incoming ++ [(name, [])] }

def writeTorn (name : String) (data : Bytes) : Program Unit :=
  queueStep fun q torn => .ok { q with incoming := Rows.set Prod.fst name (fun f => (f.1, data.take torn)) q.incoming }

def writeWhole (name : String) (data : Bytes) : Program Unit :=
  queueStep fun q _ => .ok { q with incoming := Rows.set Prod.fst name (fun f => (f.1, data)) q.incoming }

/-- `os.link(temporary_path, final_path)`, or the verification of the file already there. -/
def linkFinal (c : Codec) (directory : QueueDirectory) (temporary final : String) (digest : Digest) (size : Int) :
    Program Unit :=
  queueStep fun q _ => match q.read final, Spool.read q.incoming temporary with
    | some _, _ => (fun _ => q) <$> verify c q final digest size
    | none, some written => .ok (q.add (final, written) directory)
    | none, none => .error .fileNotFound

def unlinkTemporary (name : String) : Program Unit :=
  queueStep fun q _ => .ok { q with incoming := q.incoming.filter (fun f => decide (f.1 ≠ name)) }

def publish (c : Codec) (uuid : Nat → String) (directory : QueueDirectory) (final : String) (digest : Digest)
    (data : Bytes) : Program String := do
  raiseUnless (c.sha256 data = digest) (.repository (.value "training queue data does not match its digest"))
  let temporary ← drawName uuid
  createTemporary temporary
  tryFinally (do
      writeTorn temporary data
      writeWhole temporary data
      linkFinal c directory temporary final digest data.length)
    (unlinkTemporary temporary)
  pure final

def groupPath (digest : Digest) : String := "training-queue/groups/" ++ hexOf digest ++ ".msgpack"

def batchPath (step : Int) : String := "training-queue/batches/step_" ++ toString step ++ "/train_rollouts.bin"

def invalidDigest : ProcessError := .repository (.value "artifact digest must be a SHA-256 digest")

def publishGroup (c : Codec) (uuid : Nat → String) (digest : Digest) (data : Bytes) : Program String := do
  raiseUnless (digestMatches digest = true) invalidDigest
  publish c uuid .groups (groupPath digest) digest data

def publishBatch (c : Codec) (uuid : Nat → String) (step : Int) (digest : Digest) (data : Bytes) : Program String := do
  raiseUnless (1 ≤ step) (.repository (.value "training batch step must be positive"))
  raiseUnless (digestMatches digest = true) invalidDigest
  publish c uuid .batches (batchPath step) digest data

/-! ## Recovery -/

/-- The artifact of a processed group or a training batch, as the repository records it. -/
structure ArtifactRecord where
  artifactPath : String
  artifactDigest : Digest
  sizeBytes : Int

/-- `processed_groups` and then `training_batches`. -/
def artifactRecords (t : Tables) : List ArtifactRecord :=
  t.processedGroups.map (fun g => ⟨g.artifactPath, g.artifactDigest, g.sizeBytes⟩) ++
    t.batches.map (fun b => ⟨b.artifactPath, b.artifactDigest, b.sizeBytes⟩)

/-- Temporary files go, every record is verified, and what no record refers to goes. -/
def recover (c : Codec) : Program Unit := fun s =>
  let q := { s.queue with incoming := [] }
  match (artifactRecords s.world.db.toTables).mapM (fun r => verify c q r.artifactPath r.artifactDigest r.sizeBytes) with
  | .error e => (.error e, { s with queue := q })
  | .ok _ =>
    let referenced := (artifactRecords s.world.db.toTables).map (·.artifactPath)
    (.ok (), { s with queue := { q with
      groups := q.groups.filter (fun f => decide (f.1 ∈ referenced))
      batches := q.batches.filter (fun f => decide (f.1 ∈ referenced)) } })

end Queue
end Aether
