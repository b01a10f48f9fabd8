import AetherRl.ProtocolCanonical
import AetherRl.RepoResult
/-!
# ProtocolBytes — the bytes of a result envelope

`ResultEnvelope`, `episode_digest`, `result_envelope_bytes` and `decode_result_envelope` of `protocol.py`.  The scalars a
dump may have are msgpack's own; keys are anything of which a few kinds compare, strings among them.  Msgpack and the
episode type come from outside and are parameters, with what is documented of them as fields: what a decoder reads of an
encoded payload, that the deterministic order sorts what has no order, and that an episode read back from what its dump
became is the episode it was.
-/
namespace Aether

open KeySort Payload

inductive Scalar (F : Type)
  | null
  | bool (b : Bool)
  | int (n : Int)
  | float (x : F)
  | str (s : String)
  | bytes (b : Bytes)

/-- The keys of a dump: strings among them, which compare with each other.  Neither a NaN, which compares with nothing, nor
a set, which compares by inclusion, is a key. -/
structure WireKeys (κ ι ρ : Type) extends KeyType κ ι ρ where
  str : String → κ
  str_kind : ∀ a b, kind (str a) = kind (str b)
  str_rank : ∀ a b, rank (str a) = rank (str b) → a = b

/-- `msgspec.msgpack`: `encode` keeps the order of mappings and writes sequences alike, and `deterministic` is its
deterministic order. -/
structure Msgpack {κ ι ρ : Type} (K : KeyType κ ι ρ) (α β : Type) where
  encode : Payload κ α → Option β
  decode : β → Option (Payload κ α)
  deterministic : Payload κ α → Option β
  encode_wire : ∀ v, encode v.wire = encode v
  decode_encode : ∀ v b, encode v = some b → decode b = some v.wire
  deterministic_same : ∀ v w, Distinct K v → Same v w → deterministic v = deterministic w

/-- The episode type: what it is dumped to, and what a dump is read back to. -/
structure EpisodeType {κ ι ρ : Type} (K : WireKeys κ ι ρ) (α E : Type) where
  dump : E → Payload κ α
  validate : Payload κ α → Option E
  dump_distinct : ∀ e, Distinct K.toKeyType (dump e)
  validate_same : ∀ e v, Same (dump e) v → ∃ e', validate v = some e' ∧ Same (dump e) (dump e')

structure EnvelopeFields (F : Type) where
  assignmentId : String
  attempt : Int
  leaseId : String
  workerId : String
  workerSessionId : String
  requestedPolicyId : String
  servedPolicyId : String
  requestedPolicyDigest : String
  servedPolicyDigest : String
  completedAt : F
  resultDigest : String
deriving DecidableEq

/-- `^[A-Za-z0-9][A-Za-z0-9._:@+~-]*$`, at most 255 characters. -/
def isOpaqueId (s : String) : Bool :=
  match s.toList with
  | [] => false
  | c :: cs => decide (cs.length < 255) && c.isAlphanum && cs.all fun c => c.isAlphanum || c ∈ "._:@+~-".toList

/-- What the fields' types and `validate_result` ask, the result digest apart. -/
def EnvelopeFields.valid {F : Type} (isTimestamp : F → Bool) (f : EnvelopeFields F) : Bool :=
  [f.assignmentId, f.leaseId, f.workerId, f.workerSessionId, f.requestedPolicyId, f.servedPolicyId].all isOpaqueId &&
    [f.requestedPolicyDigest, f.servedPolicyDigest, f.resultDigest].all Repo.digestMatches && decide (1 ≤ f.attempt) &&
    isTimestamp f.completedAt && decide (f.requestedPolicyId = f.servedPolicyId) &&
    decide (f.requestedPolicyDigest = f.servedPolicyDigest)

/-- The fields of an envelope that are scalars, as they are dumped. -/
def EnvelopeFields.items {F : Type} (f : EnvelopeFields F) : List (String × Scalar F) :=
  [("type", .str "result"), ("protocol_version", .int 2), ("assignment_id", .str f.assignmentId),
    ("attempt", .int f.attempt), ("lease_id", .str f.leaseId), ("worker_id", .str f.workerId),
    ("worker_session_id", .str f.workerSessionId), ("requested_policy_id", .str f.requestedPolicyId),
    ("served_policy_id", .str f.servedPolicyId), ("requested_policy_digest", .str f.requestedPolicyDigest),
    ("served_policy_digest", .str f.servedPolicyDigest), ("completed_at", .float f.completedAt),
    ("result_digest", .str f.resultDigest)]

/-- What `result_envelope_bytes` is built from. -/
structure Wire (κ ι ρ F E β : Type) where
  keys : WireKeys κ ι ρ
  msgpack : Msgpack keys.toKeyType (Scalar F) β
  episodes : EpisodeType keys (Scalar F) E
  sha256 : β → Digest
  isTimestamp : F → Bool

section
variable {κ ι ρ F E β : Type} [DecidableEq ι] [LinearOrder ρ] (W : Wire κ ι ρ F E β)

/-- A result envelope: its scalar fields were validated. -/
structure Envelope where
  fields : EnvelopeFields F
  episode : E
  fields_valid : fields.valid W.isTimestamp = true

variable {W}

/-- Equal up to the order of mappings and the representation of sequences in the episode. -/
def Envelope.Equal (a b : Envelope W) : Prop :=
  a.fields = b.fields ∧ Same (W.episodes.dump a.episode) (W.episodes.dump b.episode)

variable (W)

def episodeDigest (episode : E) : Option Digest :=
  (W.msgpack.deterministic (W.episodes.dump episode)).map W.sha256

/-- The dumped items, under the keys of their names. -/
def envelopeItems (a : Envelope W) : List (κ × Payload κ (Scalar F)) :=
  a.fields.items.map (fun x => (W.keys.str x.1, .scalar x.2)) ++ [(W.keys.str "episode", W.episodes.dump a.episode)]

/-- `model_dump(mode="python")`; the serializer raises when the result digest is not the episode's. -/
def modelDump (a : Envelope W) : Option (Payload κ (Scalar F)) :=
  if episodeDigest W a.episode = some a.fields.resultDigest then some (.mapping (envelopeItems W a)) else none

def resultEnvelopeBytes (a : Envelope W) : Option β := do
  let payload ← modelDump W a
  let payload ← sortedMappings W.keys.toKeyType payload
  W.msgpack.encode payload

/-! ## Reading an envelope back -/

/-- The value of a mapping under a name. -/
def field (items : List (κ × Payload κ (Scalar F))) (name : String) : Option (Payload κ (Scalar F)) :=
  (items.find? fun x => decide (W.keys.kind x.1 = W.keys.kind (W.keys.str name) ∧
    W.keys.rank x.1 = W.keys.rank (W.keys.str name))).map Prod.snd

def strField (items : List (κ × Payload κ (Scalar F))) (name : String) : Option String :=
  match field W items name with
  | some (.scalar (.str s)) => some s
  | _ => none

def intField (items : List (κ × Payload κ (Scalar F))) (name : String) : Option Int :=
  match field W items name with
  | some (.scalar (.int n)) => some n
  | _ => none

def floatField (items : List (κ × Payload κ (Scalar F))) (name : String) : Option F :=
  match field W items name with
  | some (.scalar (.float x)) => some x
  | _ => none

def fieldNames : List String :=
  ["type", "protocol_version", "assignment_id", "attempt", "lease_id", "worker_id", "worker_session_id",
    "requested_policy_id", "served_policy_id", "requested_policy_digest", "served_policy_digest", "completed_at",
    "result_digest", "episode"]

/-- `extra="forbid"`. -/
def noExtra (items : List (κ × Payload κ (Scalar F))) : Bool :=
  items.all fun x => fieldNames.any fun name => decide (W.keys.kind x.1 = W.keys.kind (W.keys.str name) ∧
    W.keys.rank x.1 = W.keys.rank (W.keys.str name))

def readFields (items : List (κ × Payload κ (Scalar F))) : Option (EnvelopeFields F) := do
  let assignmentId ← strField W items "assignment_id"
  let attempt ← intField W items "attempt"
  let leaseId ← strField W items "lease_id"
  let workerId ← strField W items "worker_id"
  let workerSessionId ← strField W items "worker_session_id"
  let requestedPolicyId ← strField W items "requested_policy_id"
  let servedPolicyId ← strField W items "served_policy_id"
  let requestedPolicyDigest ← strField W items "requested_policy_digest"
  let servedPolicyDigest ← strField W items "served_policy_digest"
  let completedAt ← floatField W items "completed_at"
  let resultDigest ← strField W items "result_digest"
  pure ⟨assignmentId, attempt, leaseId, workerId, workerSessionId, requestedPolicyId, servedPolicyId,
    requestedPolicyDigest, servedPolicyDigest, completedAt, resultDigest⟩

/-- A literal may be absent: it has its one value as default. -/
def readLiterals (items : List (κ × Payload κ (Scalar F))) : Bool :=
  (match field W items "type" with
    | none => true
    | some (.scalar (.str s)) => s = "result"
    | some _ => false) &&
  (match field W items "protocol_version" with
    | none => true
    | some (.scalar (.int n)) => n = 2
    | some _ => false)

/-- `ResultEnvelope.model_validate`. -/
def modelValidate : Payload κ (Scalar F) → Option (Envelope W)
  | .mapping items => do
    let fields ← readFields W items
    let episode ← (field W items "episode").bind W.episodes.validate
    if h : noExtra W items = true ∧ readLiterals W items = true ∧ fields.valid W.isTimestamp = true ∧
        episodeDigest W episode = some fields.resultDigest then
      pure ⟨fields, episode, h.2.2.1⟩
    else none
  | _ => none

def decodeResultEnvelope (payload : β) : Option (Envelope W) := (W.msgpack.decode payload).bind (modelValidate W)

end

end Aether
