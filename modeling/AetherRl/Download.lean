import AetherRl.PolicyFile
import Mathlib.Data.UInt
/-!
# Download — a policy file fetched in parts

`AdapterCache._download_file` of `policy_cache.py` over `PolicyFileTransport` of `policy_transport.py`.  Whatever a
server answers is a parameter: the responses of each attempt, those of the shard servers, and where a body breaks off.
`written` records every content the partial file is given.
-/
namespace Aether
namespace Download

open Http (Response Ending parseInt beforeChar lower)
open PolicyFile (quotedEtag rangeHeader)

inductive Error
  | corruption (message : String)
  | api (statusCode : Nat)
  | protocol (message : String)
  | transport
  | other
deriving DecidableEq

/-- `CoordinatorAPIError.retryable`. -/
def retryable (statusCode : Nat) : Bool := statusCode ∈ [408, 425, 429] || decide (500 ≤ statusCode)

/-- Whether an attempt that raised is followed by another. -/
def Error.retries : Error → Bool
  | .api statusCode => retryable statusCode
  | .protocol _ | .transport => true
  | .corruption _ | .other => false

/-! ## The partial file -/

/-- `part` is the file at `part_path`, which is something else where `unsafePart`, and `installed` the file in the
policy's directory. -/
structure Disk where
  unsafePart : Bool
  part : Option Bytes
  installed : Option Bytes
  written : List Bytes
deriving DecidableEq

namespace Disk

def unlink (d : Disk) : Disk := { d with part := none }

def write (d : Disk) (content : Bytes) : Disk := { d with part := some content, written := content :: d.written }

def append (d : Disk) (chunk : Bytes) : Disk := d.write (d.part.getD [] ++ chunk)

end Disk

/-! ## The shard servers -/

/-- A value of the index of a shard server. -/
inductive Json
  | text (s : String)
  | number (q : ℚ) (isInt : Bool)
  | bool (b : Bool)
  | other
deriving DecidableEq

/-- `value == n` of a Python value and an integer. -/
def Json.equals (n : Nat) : Json → Bool
  | .number q _ => decide (q = n)
  | .bool b => decide (b.toNat = n)
  | _ => false

/-- `value` where `type(value) is int`. -/
def Json.int? : Json → Option Int
  | .number q true => some q.num
  | _ => none

abbrev ShardRecord := String → Option Json

/-- `_shardcast_record`, from what each server's index has of the policy, if it can be used. -/
def shardcastRecord : List (Except Error (Option ShardRecord)) → Except Error (Option ShardRecord)
  | [] => .ok none
  | .error e :: _ => .error e
  | .ok (some record) :: _ => .ok (some record)
  | .ok none :: rest => shardcastRecord rest

/-- The bytes received and written of a shard, or nothing where the body breaks off. -/
def shardBody (expectedSize : Nat) (ending : Ending) : List Bytes → Nat → Bytes → Option (Nat × Bytes)
  | [], received, content => if ending = .complete then some (received, content) else none
  | chunk :: chunks, received, content =>
    if expectedSize < received + chunk.length then some (received + chunk.length, content)
    else shardBody expectedSize ending chunks (received + chunk.length) (content ++ chunk)

/-- `download(index)` of one shard, or nothing where it raises. -/
def downloadShard (expectedSize : Nat) : List (Except Error Response) → Option Bytes
  | [] => none
  | .error .transport :: servers => downloadShard expectedSize servers
  | .error _ :: _ => none
  | .ok r :: servers =>
    if r.status ≠ 200 ∨ lower ((r.header "content-encoding").getD "identity") ≠ "identity" ∨
        parseInt ((r.header "content-length").getD "").toList ≠ some (expectedSize : Int) then
      downloadShard expectedSize servers
    else match shardBody expectedSize r.ending r.chunks 0 [] with
      | none => none
      | some (received, content) =>
        if received = expectedSize then some content else downloadShard expectedSize servers

/-- The shard size the record gives, if the record is of this file and its shards have room for it. -/
def shardSize (record : ShardRecord) (policyDigest digest : Digest) (sizeBytes : Nat) : Option Nat :=
  if record "policy_digest" ≠ some (.text policyDigest) ∨ record "artifact_digest" ≠ some (.text digest) ∨
      (record "size_bytes").any (·.equals sizeBytes) = false then none
  else match record "version", (record "shard_count").bind Json.int?, (record "shard_size_bytes").bind Json.int? with
    | some (.text version), some count, some size =>
      if "v".toList <+: version.toList ∧ 1024 ^ 2 ≤ size ∧ count = ((sizeBytes + size - 1) / size : Int) then
        some size.toNat
      else none
    | _, _, _ => none

/-- What the shard servers answer. -/
structure Shardcast where
  records : List (Except Error (Option ShardRecord))
  shards : Nat → List (Except Error Response)

/-- `download_shardcast`, where there are shard servers. -/
def downloadShardcast (s : Shardcast) (policyDigest : Digest) (name : String) (sizeBytes : Nat) (digest : Digest)
    (disk : Disk) : Except Error (Disk × Bool) :=
  if name ≠ "adapter_model.safetensors" then .ok (disk, false)
  else match shardcastRecord s.records with
    | .error e => .error e
    | .ok none => .ok (disk, false)
    | .ok (some record) =>
      match shardSize record policyDigest digest sizeBytes with
      | none => .ok (disk, false)
      | some size =>
        match (List.range ((sizeBytes + size - 1) / size)).mapM fun i =>
            downloadShard (min size (sizeBytes - i * size)) (s.shards i) with
        | none => .ok (disk, false)
        | some shards =>
          let disk := shards.foldl Disk.append (disk.write [])
          .ok (disk, decide ((disk.part.getD []).length = sizeBytes))

/-! ## The sources of an attempt -/

structure Locations where
  policyId : OpaqueId
  policyDigest : Digest
  expiresAt : Time
  files : List (String × String)
deriving DecidableEq

/-- What an attempt meets: the answers to requests with the `Range` headers. -/
structure Replies where
  now : Time
  locations : Except Error Locations
  external : Option String → Except Error Response
  coordinator : Option String → Except Error Response

/-- `PolicyFileTransport`, with `_origin` of a URL, which raises for one that is not plain HTTPS. -/
structure Transport where
  attempts : Nat
  coordinatorFallback : Bool
  allowedOrigins : List String
  origin : String → Except Error String
  shardcast : Option Shardcast

def expectedStatus (offset : Nat) : Nat := if offset = 0 then 200 else 206

/-- `CoordinatorClient.stream_policy_file`. -/
def streamPolicyFile (r : Replies) (offset : Nat) : Except Error Response := do
  let response ← r.coordinator (rangeHeader offset)
  if response.status ≠ expectedStatus offset then throw (.api response.status)
  return response

/-- `_open_external`. -/
def openExternal (r : Replies) (offset : Nat) : Except Error Response := do
  let response ← r.external (rangeHeader offset)
  if response.status ≠ expectedStatus offset then
    throw (.protocol ("external policy source returned HTTP " ++ toString response.status))
  return response

/-- `_external_url`. -/
def externalUrl (t : Transport) (r : Replies) (policyId : OpaqueId) (policyDigest : Digest) (name : String) :
    Except Error (Option String) :=
  match r.locations with
  | .error (.api 404) => if t.coordinatorFallback then .ok none else .error (.api 404)
  | .error e => .error e
  | .ok locations => do
    if locations.policyId ≠ policyId ∨ locations.policyDigest ≠ policyDigest then
      throw (.protocol "policy locations do not match the assigned policy")
    if locations.expiresAt ≤ r.now then throw (.protocol "policy locations expired before download")
    match (locations.files.reverse.find? fun file => decide (file.1 = name)).map (·.2) with
    | none => throw (.protocol "policy location uses an unapproved origin")
    | some url =>
      let origin ← t.origin url
      if origin ∉ t.allowedOrigins then throw (.protocol "policy location uses an unapproved origin")
      return some url

/-- `PolicyFileTransport.stream`: the response, and whether its `ETag` must name the digest. -/
def stream (t : Transport) (r : Replies) (policyId : OpaqueId) (policyDigest : Digest) (name : String) (offset : Nat)
    (coordinatorOnly : Bool) : Except Error (Response × Bool) := do
  let url ← if t.allowedOrigins ≠ [] ∧ coordinatorOnly = false then externalUrl t r policyId policyDigest name
    else pure none
  if url.isSome then
    let response ← openExternal r offset
    return (response, false)
  if t.coordinatorFallback = false then throw (.protocol "no usable external policy source is available")
  let response ← streamPolicyFile r offset
  return (response, true)

/-! ## One attempt -/

/-- `_validate_response`. -/
def validateResponse (r : Response) (name : String) (sizeBytes : Nat) (digest : Digest) (offset : Nat)
    (requireDigestEtag : Bool) : Except Error Unit := do
  if lower ((r.header "content-encoding").getD "identity") ≠ "identity" then
    throw (.protocol "policy file uses unsupported content encoding")
  let expectedType := if name = "adapter_config.json" then "application/json" else "application/octet-stream"
  if lower (beforeChar ';' ((r.header "content-type").getD "")) ≠ expectedType then
    throw (.protocol "policy file has the wrong content type")
  if requireDigestEtag = true ∧ r.header "etag" ≠ some (quotedEtag digest) then
    throw (.protocol "policy file ETag does not match its manifest")
  match parseInt ((r.header "content-length").getD "").toList with
  | none => throw (.protocol "policy file Content-Length is invalid")
  | some contentLength =>
    if contentLength ≠ (sizeBytes : Int) - offset then
      throw (.protocol "policy file Content-Length does not match its manifest")
  let expectedRange := if offset = 0 then none else
    some ("bytes " ++ toString offset ++ "-" ++ toString ((sizeBytes : Int) - 1) ++ "/" ++ toString sizeBytes)
  if r.header "content-range" ≠ expectedRange then
    throw (.protocol "policy file Content-Range does not match the requested offset")

/-- The loop over the chunks of a body, with the offset and what has been hashed. -/
def receive (sizeBytes : Nat) (ending : Ending) : List Bytes → Disk → Nat → Bytes → Disk × Except Error (Nat × Bytes)
  | [], disk, offset, hashed =>
    match ending with
    | .complete => (disk, .ok (offset, hashed))
    | .dropped => (disk, .error .transport)
    | .failed => (disk, .error .other)
  | chunk :: chunks, disk, offset, hashed =>
    if sizeBytes < offset + chunk.length then (disk, .error (.protocol "policy file exceeds its declared size"))
    else receive sizeBytes ending chunks (disk.append chunk) (offset + chunk.length) (hashed ++ chunk)

variable (sha256 : Bytes → Digest)

/-- An attempt that has a response to a request at the offset. -/
def download (name : String) (sizeBytes : Nat) (digest : Digest) (disk : Disk) (offset : Nat) (hashed : Bytes)
    (streamed : Except Error (Response × Bool)) : Disk × Except Error Unit :=
  match streamed with
  | .error e => (disk, .error e)
  | .ok (response, requireDigestEtag) =>
    match validateResponse response name sizeBytes digest offset requireDigestEtag with
    | .error e => (disk, .error e)
    | .ok () =>
      match receive sizeBytes response.ending response.chunks (if offset = 0 then disk.write [] else disk) offset hashed with
      | (disk, .error e) => (disk, .error e)
      | (disk, .ok (offset, hashed)) =>
        if offset ≠ sizeBytes ∨ sha256 hashed ≠ digest then
          (disk.unlink, .error (.protocol "policy file bytes do not match its manifest"))
        else (disk, .ok ())

/-- One attempt, and whether the loop is left. -/
def attempt (name : String) (sizeBytes : Nat) (digest : Digest) (source : Nat → Except Error (Response × Bool))
    (disk : Disk) : Disk × Except Error Bool :=
  let hashed := disk.part.getD []
  if hashed.length = sizeBytes ∧ sha256 hashed = digest then (disk, .ok true)
  else
    -- a complete file with other bytes, and an empty one, are begun anew
    let (disk, hashed) := if hashed.length = sizeBytes ∨ hashed.length = 0 then (disk.unlink, []) else (disk, hashed)
    match download sha256 name sizeBytes digest disk hashed.length hashed (source hashed.length) with
    | (disk, .error e) => (disk, .error e)
    | (disk, .ok ()) => (disk, .ok false)

/-- The attempts left, of `attempts` in all. -/
def retry (name : String) (sizeBytes : Nat) (digest : Digest) (attempts : Nat)
    (source : Nat → Nat → Except Error (Response × Bool)) : Nat → Disk → Disk × Except Error Unit
  | 0, disk => (disk, .ok ())
  | left + 1, disk =>
    match attempt sha256 name sizeBytes digest (source (attempts - (left + 1))) disk with
    | (disk, .ok true) => (disk, .ok ())
    | (disk, .ok false) => retry name sizeBytes digest attempts source left disk
    | (disk, .error e) =>
      if e.retries = true ∧ left ≠ 0 then retry name sizeBytes digest attempts source left disk else (disk, .error e)

/-- The last check, and `os.replace` to the policy's directory. -/
def install (sizeBytes : Nat) (digest : Digest) (disk : Disk) : Disk × Except Error Unit :=
  let content := disk.part.getD []
  if content.length ≠ sizeBytes ∨ sha256 content ≠ digest then
    (disk.unlink, .error (.protocol "policy file bytes do not match its manifest"))
  else match disk.part with
    | none => (disk, .error .other)
    | some content => ({ disk with part := none, installed := some content }, .ok ())

/-- The shards, where a transport has shard servers and there is no partial file. -/
def tryShardcast (transport : Option Transport) (policyDigest : Digest) (name : String) (sizeBytes : Nat)
    (digest : Digest) (disk : Disk) : Disk × Except Error Unit :=
  match transport.bind (·.shardcast) with
  | none => (disk, .ok ())
  | some shardcast =>
    if disk.part.isSome then (disk, .ok ())
    else match downloadShardcast shardcast policyDigest name sizeBytes digest disk with
      | .error e => (disk, .error e)
      | .ok (disk, downloaded) =>
        let content := disk.part.getD []
        if downloaded = true ∧ (content.length ≠ sizeBytes ∨ sha256 content ≠ digest) then (disk.unlink, .ok ())
        else (disk, .ok ())

/-- Where an attempt's response comes from. -/
def source (transport : Option Transport) (replies : Nat → Replies) (policyId : OpaqueId) (policyDigest : Digest)
    (name : String) (attempt offset : Nat) : Except Error (Response × Bool) :=
  match transport with
  | none => (streamPolicyFile (replies attempt) offset).map fun response => (response, true)
  | some t => stream t (replies attempt) policyId policyDigest name offset
    (t.coordinatorFallback && decide (1 < t.attempts) && decide (attempt = t.attempts - 1))

/-- `_download_file`. -/
def downloadFile (transport : Option Transport) (replies : Nat → Replies) (policyId : OpaqueId) (policyDigest : Digest)
    (name : String) (sizeBytes : Nat) (digest : Digest) (disk : Disk) : Disk × Except Error Unit :=
  if disk.unsafePart then (disk, .error (.corruption "partial policy file path is unsafe"))
  else
    let disk := if sizeBytes < (disk.part.getD []).length then disk.unlink else disk
    match tryShardcast sha256 transport policyDigest name sizeBytes digest disk with
    | (disk, .error e) => (disk, .error e)
    | (disk, .ok ()) =>
      let attempts := transport.elim 1 (·.attempts)
      match retry sha256 name sizeBytes digest attempts (source transport replies policyId policyDigest name) attempts
          disk with
      | (disk, .error e) => (disk, .error e)
      | (disk, .ok ()) => install sha256 sizeBytes digest disk

end Download
end Aether
