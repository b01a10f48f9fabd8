import AetherRl.RepoLease
/-!
# RepoResult — the result spool, terminal envelopes, ready groups and recovery

`AtomicSpool` of `spool.py`, and `accept_result`, `accept_failure`, `claim_pending_results`, `mark_result_processed`,
`ready_groups` and `recover` of `database.py`.  A file is its name in one of the spool's two directories; the durable
steps of a publication are the temporary file's creation, what a torn write leaves of it, its whole contents, the link
and the unlink.  The file system's answer for the policy artifacts `recover` verifies is an argument.
-/
namespace Aether
namespace Repo

open Txn (raiseIf orRaise orThrow forEach)
open Tables

/-! ## The spool -/

/-- `re.fullmatch(r"sha256:[0-9a-f]{64}", digest)`. -/
def digestMatches (d : Digest) : Bool :=
  digestShape d && (d.toList.drop 7).all (fun c => ('0' ≤ c ∧ c ≤ '9') ∨ ('a' ≤ c ∧ c ≤ 'f'))

def hexOf (d : Digest) : String := String.ofList (d.toList.drop 7)

def resultsPrefix : String := "spool/results/"

def endsWith (s suffix : String) : Bool := suffix.toList.isSuffixOf s.toList

/-- The file a spool-relative path names, when it is a regular entry of the results directory. -/
def resolveResult (path : String) : Option String :=
  let name := path.toList.drop resultsPrefix.length
  if resultsPrefix.toList.isPrefixOf path.toList ∧ '/' ∉ name ∧ name ≠ [] then some (String.ofList name) else none

def Spool.read (files : List (String × Bytes)) (name : String) : Option Bytes :=
  (Rows.get Prod.fst name files).map Prod.snd

/-- One durable step on the spool. -/
def spoolStep (f : Spool → Nat → Except Error Spool) : Method Unit :=
  durable fun w => match f w.spool w.torn with
    | .ok s => (.ok (), { w with spool := s })
    | .error e => (.error e, w)

/-- `os.open(temporary_path, O_WRONLY | O_CREAT | O_EXCL)`. -/
def createTemporary (name : String) : Method Unit :=
  spoolStep fun s _ =>
    if (Spool.read s.incoming name).isSome then .error .fileExists
    else .ok { s with incoming := s.incoming ++ [(name, [])] }

/-- What a write has put in the file when it is cut. -/
def writeTorn (name : String) (data : Bytes) : Method Unit :=
  spoolStep fun s torn => .ok { s with incoming := Rows.set Prod.fst name (fun f => (f.1, data.take torn)) s.incoming }

/-- The whole write, flushed. -/
def writeWhole (name : String) (data : Bytes) : Method Unit :=
  spoolStep fun s _ => .ok { s with incoming := Rows.set Prod.fst name (fun f => (f.1, data)) s.incoming }

/-- `os.link(temporary_path, final_path)`, or the check that the file already there is the same artifact. -/
def linkResult (env : Env) (digest : Digest) (temporary final : String) (data : Bytes) : Method Unit :=
  spoolStep fun s _ => match Spool.read s.results final, Spool.read s.incoming temporary with
    | some present, _ =>
      if present.length = data.length ∧ env.codec.sha256 present = digest then .ok s
      else .error .immutableArtifactConflict
    | none, some written => .ok { s with results := s.results ++ [(final, written)] }
    | none, none => .error (.value "no such file")

def unlinkTemporary (name : String) : Method Unit :=
  spoolStep fun s _ => .ok { s with incoming := s.incoming.filter (fun f => decide (f.1 ≠ name)) }

def publishResult (env : Env) (digest : Digest) (data : Bytes) (suffix temporary : String) : Method String := do
  raiseUnless (digestMatches digest = true) (.value "result artifact digest must be a SHA-256 digest")
  raiseUnless (suffix = ".json" ∨ suffix = ".msgpack") (.value "result artifact suffix is unsupported")
  let final := hexOf digest ++ suffix
  createTemporary temporary
  tryFinally (do
      writeTorn temporary data
      writeWhole temporary data
      linkResult env digest temporary final data)
    (unlinkTemporary temporary)
  pure (resultsPrefix ++ final)

/-! ## Results -/

structure AcceptanceRecord where
  assignmentId : OpaqueId
  envelopeDigest : Digest
  duplicate : Bool
  terminal : Bool
deriving DecidableEq

/-- What an envelope names of its lease. -/
structure EnvelopeKey where
  assignmentId : OpaqueId
  attempt : Nat
  leaseId : OpaqueId
  workerId : OpaqueId
  workerSessionId : OpaqueId

def resultKey (e : ResultEnvelope) : EnvelopeKey :=
  ⟨e.assignmentId, e.attempt, e.leaseId, e.workerId, e.workerSessionId⟩

def failureKey (e : FailureEnvelope) : EnvelopeKey :=
  ⟨e.assignmentId, e.attempt, e.leaseId, e.workerId, e.workerSessionId⟩

def validateActiveEnvelope (e : EnvelopeKey) (receivedAt : Time) : Body (AssignmentRow × LeaseRow) := do
  let a ← assignment e.assignmentId
  let mismatch := Error.conflict "envelope does not match the current active lease"
  let l ← orRaise ((← tables).lease? e.leaseId) mismatch
  raiseIf (l.assignmentId ≠ e.assignmentId ∨ l.attempt ≠ e.attempt ∨ l.workerId ≠ e.workerId ∨
    l.workerSessionId ≠ e.workerSessionId ∨ l.state ≠ .active ∨ a.state ≠ .leased ∨
    a.currentLeaseId ≠ some e.leaseId) mismatch
  raiseIf (l.expiresAt ≤ receivedAt) (.invalidState "lease expired before submission was received")
  raiseIf (due a.deadlineAt receivedAt = true)
    (.invalidState "assignment deadline passed before submission was received")
  pure (a, l)

def existingTerminal (assignmentId leaseId : OpaqueId) (digest : Digest) : Body (Option AcceptanceRecord) := do
  match (← tables).result? assignmentId with
  | none => do
    raiseIf ((← tables).outcome? assignmentId).isSome (.conflict "assignment already has a terminal outcome")
    pure none
  | some r => do
    raiseIf (r.leaseId ≠ leaseId ∨ r.envelopeDigest ≠ digest)
      (.conflict "assignment already has a different accepted result")
    pure (some ⟨assignmentId, digest, true, true⟩)

/-- The envelope names the current active lease and the policy of its assignment. -/
def validateResult (e : ResultEnvelope) (receivedAt : Time) : Body AssignmentRow := do
  let (a, _) ← validateActiveEnvelope (resultKey e) receivedAt
  raiseIf (e.requestedPolicyId ≠ a.policyId) (.conflict "result policy ID does not match the assignment")
  raiseIf (e.requestedPolicyDigest ≠ a.policyManifestDigest)
    (.conflict "result policy manifest digest does not match the assignment")
  pure a

def acceptResultBody (e : ResultEnvelope) (digest : Digest) (artifactPath : String) (size : Nat) (now : Time) :
    Body AcceptanceRecord := do
  match ← existingTerminal e.assignmentId e.leaseId digest with
  | some duplicate => pure duplicate
  | none => do
    let a ← validateResult e now
    exec (insertResult ⟨e.assignmentId, e.leaseId, digest, artifactPath, size, now, .pending⟩)
    exec (insertOutcome ⟨e.assignmentId, .result, some e.leaseId, some digest, now⟩)
    exec (setLease e.leaseId fun l => { l with state := .succeeded })
    exec (setAssignment e.assignmentId fun a => { a with state := .succeeded, currentLeaseId := none })
    exec (setCancellation e.assignmentId fun c => { c with terminal := true })
    recomputeGroup a.groupId
    pure ⟨e.assignmentId, digest, false, true⟩

/-- How the coordinator encodes a result: as the file an earlier version accepted, or as msgpack. -/
def resultEncoding (env : Env) (t : Tables) (e : ResultEnvelope) : Bytes × String :=
  if (t.result? e.assignmentId).any (fun r => endsWith r.artifactPath ".json") then
    (env.codec.legacyResultBytes e, ".json")
  else (env.codec.resultEnvelopeBytes e, ".msgpack")

def acceptResult (env : Env) (e : ResultEnvelope) (temporary : String) : Method AcceptanceRecord := do
  let (bytes, suffix) := resultEncoding env (← select tables) e
  let digest := env.codec.sha256 bytes
  match ← select (existingTerminal e.assignmentId e.leaseId digest) with
  | some duplicate => do
    let _ ← publishResult env digest bytes suffix temporary
    pure duplicate
  | none => do
    let receivedAt ← readClock env
    let _ ← select (validateResult e receivedAt)
    let artifactPath ← publishResult env digest bytes suffix temporary
    let now ← readClock env
    transaction (acceptResultBody e digest artifactPath bytes.length now)

/-! ## Failures -/

def existingFailure (e : FailureEnvelope) (digest : Digest) : Body (Option AcceptanceRecord) := do
  match (← tables).failure? e.leaseId with
  | none => pure none
  | some f => do
    raiseIf (f.assignmentId ≠ e.assignmentId ∨ f.envelopeDigest ≠ digest)
      (.conflict "lease already has a different failure envelope")
    pure (some ⟨e.assignmentId, digest, true, f.terminal⟩)

/-- The failure of a lease that was cancelled ends its assignment; any other is retried while it may be. -/
def failLease (env : Env) (e : FailureEnvelope) (digest : Digest) (a : AssignmentRow) (now : Time) : Body Bool := do
  exec (setLease e.leaseId fun l => { l with state := .failed })
  if ((← tables).leaseCancellation? e.leaseId).isSome then do
    exec (setAssignment e.assignmentId markFailed)
    exec (setCancellation e.assignmentId fun c => { c with terminal := true })
    exec (insertOutcome ⟨e.assignmentId, .failure, some e.leaseId, some digest, now⟩)
    pure true
  else retryOrTerminal env a now (some e) (some digest) e.leaseId

def acceptFailureBody (env : Env) (e : FailureEnvelope) (digest : Digest) (now : Time) : Body AcceptanceRecord := do
  match ← existingFailure e digest with
  | some duplicate => pure duplicate
  | none => do
    let (a, _) ← validateActiveEnvelope (failureKey e) now
    let terminal ← failLease env e digest a now
    exec (insertFailure ⟨e.leaseId, e.assignmentId, digest, e, now, e.retryable, terminal⟩)
    recomputeGroup a.groupId
    pure ⟨e.assignmentId, digest, false, terminal⟩

def acceptFailure (env : Env) (e : FailureEnvelope) : Method AcceptanceRecord := do
  let digest := env.codec.sha256 (env.codec.failureBytes e)
  match ← select (existingFailure e digest) with
  | some duplicate => pure duplicate
  | none => do
    let now ← readClock env
    transaction (acceptFailureBody env e digest now)

/-! ## Claims and ready groups -/

structure PendingResult where
  assignmentId : OpaqueId
  envelopeDigest : Digest
  path : String
deriving DecidableEq

def claimPendingResultsBody (limit : Nat) : Body (List PendingResult) := do
  let rows := (Rows.orderBy (fun r => toLex (r.acceptedAt, r.assignmentId)) <|
    (← tables).results.filter (fun r => decide (r.processingState = .pending))).take limit
  exec (setResults fun r =>
    if r.assignmentId ∈ rows.map (·.assignmentId) then { r with processingState := .processing } else r)
  pure (rows.map fun r => ⟨r.assignmentId, r.envelopeDigest, r.artifactPath⟩)

def claimPendingResults (limit : Nat) : Method (List PendingResult) := do
  raiseUnless (1 ≤ limit) (.value "claim limit must be positive")
  transaction (claimPendingResultsBody limit)

def markResultProcessedBody (assignmentId : OpaqueId) : Body Unit := do
  let claimed := (← tables).results.filter fun r =>
    decide (r.assignmentId = assignmentId) && decide (r.processingState = .processing)
  exec (setResults fun r => if r ∈ claimed then { r with processingState := .processed } else r)
  raiseIf (claimed.length ≠ 1) (.invalidState "result is not claimed for processing")

def markResultProcessed (assignmentId : OpaqueId) : Method Unit :=
  transaction (markResultProcessedBody assignmentId)

structure GroupOutcome where
  assignment : RolloutAssignment
  groupIndex : Nat
  outcome : Outcome
  envelopeDigest : Option Digest
  resultPath : Option String
deriving DecidableEq

structure ReadyGroup where
  groupId : OpaqueId
  sourceId : Option OpaqueId
  kind : Kind
  sequence : Nat
  outcomes : List GroupOutcome
deriving DecidableEq

/-- The assignments of a group that have an outcome, each with its accepted result, in group index order. -/
def groupOutcomes (t : Tables) (groupId : OpaqueId) : List GroupOutcome :=
  (Rows.orderBy (fun a => toLex (a.groupIndex, a.assignmentId)) <|
    t.assignments.filter (fun a => decide (a.groupId = groupId))).filterMap fun a =>
      (t.outcome? a.assignmentId).map fun o =>
        let r := t.result? a.assignmentId
        ⟨a.assignment, a.groupIndex, o.outcome, r.map (·.envelopeDigest), r.map (·.artifactPath)⟩

def unprocessedReadyGroups (t : Tables) : List GroupRow :=
  Rows.orderBy (fun g => toLex (g.sequence, g.groupId)) <|
    t.groups.filter fun g => decide (g.state = .ready) && !(t.processedGroups.any (fun p => decide (p.groupId = g.groupId)))

/-- `ready_groups`, one ready group after the other. -/
def readyGroup (t : Tables) (g : GroupRow) : Except Error ReadyGroup :=
  if (groupOutcomes t g.groupId).length ≠ g.groupSize then
    .error (.invalidState "ready group does not have one terminal outcome per assignment")
  else .ok ⟨g.groupId, g.sourceId, g.kind, g.sequence, groupOutcomes t g.groupId⟩

def readyGroups (limit : Nat) : Method (List ReadyGroup) := do
  raiseUnless (1 ≤ limit) (.value "limit must be positive")
  select do
    let t ← tables
    orThrow (((unprocessedReadyGroups t).take limit).mapM (readyGroup t))

/-! ## Recovery -/

def corruptResult : Error := .artifactCorruption "referenced result artifact is corrupt"

/-- The check of one accepted row against its artifact; what it returns is the file's name. -/
def verifyResultRow (env : Env) (s : Spool) (r : ResultRow) : Except Error String :=
  match resolveResult r.artifactPath with
  | none => .error (.artifactCorruption "referenced result artifact path is invalid")
  | some name => match Spool.read s.results name with
    | none => .error (.artifactCorruption "referenced result artifact is missing")
    | some data =>
      if data.length ≠ r.sizeBytes ∨ env.codec.sha256 data ≠ r.envelopeDigest then .error corruptResult
      else match (if endsWith name ".json" then env.codec.decodeLegacyResult data
          else env.codec.decodeResultEnvelope data) with
        | none => .error (.artifactCorruption "referenced result envelope is invalid")
        | some e =>
          if e.assignmentId ≠ r.assignmentId ∨ e.leaseId ≠ r.leaseId then
            .error (.artifactCorruption "referenced result identity does not match its database row")
          else .ok name

def unlinkResult (name : String) : Method Unit :=
  spoolStep fun s _ => .ok { s with results := s.results.filter (fun f => decide (f.1 ≠ name)) }

def readSpool : Method Spool := fun w => (.ok w.spool, w)

def ofExcept {α : Type} (r : Except Error α) : Method α := match r with
  | .ok a => pure a
  | .error e => throw e

/-- A claim the processor that made it did not live to finish. -/
def unclaim (r : ResultRow) : ResultRow :=
  if r.processingState = .processing then { r with processingState := .pending } else r

def recover (env : Env) (artifacts : Artifacts) : Method Unit := do
  Txn.each ((← readSpool).incoming.map Prod.fst) unlinkTemporary
  let t ← select tables
  let spool ← readSpool
  let referenced ← ofExcept (t.results.mapM (verifyResultRow env spool))
  select (forEach (Rows.orderBy (·.policyVersion) (t.policies.filter (fun p => decide (0 < p.policyVersion))))
    (verifyPolicyRow env artifacts))
  Txn.each ((spool.results.map Prod.fst).filter (fun name => decide (name ∉ referenced))) unlinkResult
  transaction (exec (setResults unclaim))
  let _ ← expireLeases env
  transaction recomputeGroups

end Repo
end Aether
