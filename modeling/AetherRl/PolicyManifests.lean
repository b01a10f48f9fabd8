import AetherRl.PolicyTensors
import AetherRl.ProtocolBytes
/-!
# PolicyManifests — the manifests of published policies

`AdapterManifest` and `PolicyManifest` of `protocol.py` with what their validators ask, the digests that name them, and
their canonical JSON.  `json` and `safetensors` come from outside: `Libraries` has what is documented of them.
-/
namespace Aether
namespace Publish

/-! ## Numbers -/

inductive PyFloat
  | finite (q : ℚ)
  | infinite (negative : Bool)
  | nan
deriving DecidableEq

/-- An argument typed `float`, which may be an `int`. -/
inductive Number
  | int (n : Int)
  | float (x : PyFloat)
deriving DecidableEq

def Number.finite? : Number → Option ℚ
  | .int n => some n
  | .float (.finite q) => some q
  | .float _ => none

/-- `a == b`. -/
def Number.equal (a b : Number) : Bool :=
  match a.finite?, b.finite? with
  | some p, some q => decide (p = q)
  | none, none => decide (a = b ∧ a ≠ .float .nan)
  | _, _ => false

/-- `math.isfinite(x) and 0 <= x <= 1`. -/
def Number.isFraction (x : Number) : Bool := x.finite?.any fun q => decide (0 ≤ q ∧ q ≤ 1)

/-! ## JSON -/

inductive Json
  | null
  | bool (b : Bool)
  | int (n : Int)
  | float (x : PyFloat)
  | str (s : String)
  | list (values : List Json)
  | object (items : List (String × Json))

namespace Json

mutual

/-- Every object's keys are in order, each once. -/
def Sorted : Json → Prop
  | .list values => SortedList values
  | .object items => (items.map (·.1.toList)).Pairwise (· < ·) ∧ SortedItems items
  | _ => True

def SortedList : List Json → Prop
  | [] => True
  | v :: values => v.Sorted ∧ SortedList values

def SortedItems : List (String × Json) → Prop
  | [] => True
  | x :: items => x.2.Sorted ∧ SortedItems items

end

/-- `value[key]`, of an object. -/
def get? (value : Json) (key : String) : Option Json :=
  match value with
  | .object items => items.lookup key
  | _ => none

/-- A number, `True` and `False` included. -/
def number? : Json → Option Number
  | .bool b => some (.int b.toNat)
  | .int n => some (.int n)
  | .float x => some (.float x)
  | _ => none

/-- What `tuple(value)` holds, or nothing where the value cannot be iterated. -/
def elements? : Json → Option (List Json)
  | .list values => some values
  | .str text => some (text.toList.map fun c => .str (String.ofList [c]))
  | .object items => some (items.map fun item => .str item.1)
  | _ => none

def str? : Json → Option String
  | .str text => some text
  | _ => none

end Json

/-! ## Manifests -/

structure BaseModelIdentity where
  modelName : String
  modelRevision : String
  modelConfigDigest : Digest
  tokenizerName : String
  tokenizerRevision : String
  tokenizerDigest : Digest
  chatTemplateDigest : Digest
  vocabSize : Int
  quantization : String
deriving DecidableEq

structure AdapterFile where
  name : String
  sizeBytes : Nat
  digest : Digest
deriving DecidableEq

structure AdapterManifest where
  digest : Digest
  files : List AdapterFile
  rank : Int
  alpha : PyFloat
  targetModules : List String
deriving DecidableEq

structure Manifest where
  runId : OpaqueId
  policyVersion : Int
  baseModel : BaseModelIdentity
  adapter : Option AdapterManifest
  createdAt : PyFloat
  policyId : OpaqueId
  servedModelName : String
deriving DecidableEq

/-! ## Canonical JSON -/

def BaseModelIdentity.json (m : BaseModelIdentity) : Json :=
  .object [("chat_template_digest", .str m.chatTemplateDigest), ("model_config_digest", .str m.modelConfigDigest),
    ("model_name", .str m.modelName), ("model_revision", .str m.modelRevision), ("quantization", .str m.quantization),
    ("tokenizer_digest", .str m.tokenizerDigest), ("tokenizer_name", .str m.tokenizerName),
    ("tokenizer_revision", .str m.tokenizerRevision), ("vocab_size", .int m.vocabSize)]

def AdapterFile.json (f : AdapterFile) : Json :=
  .object [("digest", .str f.digest), ("name", .str f.name), ("size_bytes", .int f.sizeBytes)]

/-- `_adapter_manifest_content`. -/
def adapterContent (files : List AdapterFile) (rank : Int) (alpha : PyFloat) (targetModules : List String) : Json :=
  .object [("alpha", .float alpha), ("files", .list (files.map AdapterFile.json)), ("manifest_version", .int 1),
    ("rank", .int rank), ("target_modules", .list (targetModules.map .str))]

def AdapterManifest.json (m : AdapterManifest) : Json :=
  .object [("alpha", .float m.alpha), ("digest", .str m.digest), ("files", .list (m.files.map AdapterFile.json)),
    ("manifest_version", .int 1), ("rank", .int m.rank), ("target_modules", .list (m.targetModules.map .str))]

def Manifest.json (m : Manifest) : Json :=
  .object [("adapter", (m.adapter.map AdapterManifest.json).getD .null), ("base_model", m.baseModel.json),
    ("created_at", .float m.createdAt), ("manifest_version", .int 1), ("policy_id", .str m.policyId),
    ("policy_version", .int m.policyVersion), ("protocol_version", .int 2), ("run_id", .str m.runId),
    ("served_model_name", .str m.servedModelName)]

/-- What a manifest is the same policy by: everything but when it was created. -/
structure Identity where
  runId : OpaqueId
  policyVersion : Int
  baseModel : BaseModelIdentity
  adapterDigest : Option Digest
deriving DecidableEq

def Manifest.identity (m : Manifest) : Identity :=
  ⟨m.runId, m.policyVersion, m.baseModel, m.adapter.map (·.digest)⟩

/-- `semantic_identity`. -/
def Identity.json (i : Identity) : Json :=
  .object [("adapter_digest", (i.adapterDigest.map .str).getD .null), ("base_model", i.baseModel.json),
    ("manifest_version", .int 1), ("policy_version", .int i.policyVersion), ("protocol_version", .int 2),
    ("run_id", .str i.runId)]

/-- What comes from outside: `json` with sorted keys and no space, `hashlib`, `safetensors`, pydantic's reading of a
manifest, and `float` of an integer. -/
structure Libraries (δ : Type) where
  dumps : Json → Option Bytes
  loads : Bytes → Option Json
  loads_dumps : ∀ value data, value.Sorted → dumps value = some data → loads data = some value
  sha256 : Bytes → Digest
  saveFile : StateDict δ → Option Bytes
  safeOpen : Bytes → Option (StateDict δ)
  validateJson : Bytes → Option Manifest
  floatOf : Int → Option ℚ

variable (lib : Libraries δ)

/-- `canonical_json_bytes`. -/
def canonicalJsonBytes (value : Json) : Except Raised Bytes :=
  match lib.dumps value with
  | some data => .ok data
  | none => .error (.value "Out of range float values are not JSON compliant")

def sha256Json (value : Json) : Except Raised Digest := lib.sha256 <$> canonicalJsonBytes lib value

/-- `policy_manifest_digest`. -/
def policyManifestDigest (m : Manifest) : Except Raised Digest := sha256Json lib m.identity.json

/-- `float(alpha)`. -/
def toFloat : Number → Except Raised PyFloat
  | .float x => .ok x
  | .int n => match lib.floatOf n with
    | some q => .ok (.finite q)
    | none => .error .overflow

/-! ## Building a manifest -/

def PyFloat.finite? : PyFloat → Option ℚ
  | .finite q => some q
  | _ => none

/-- `AdapterManifest(...)`: the fields' bounds and `validate_manifest`. -/
def AdapterManifest.valid (m : AdapterManifest) : Bool :=
  decide (1 ≤ m.rank) && m.alpha.finite?.any (fun q => decide (0 < q)) &&
    decide (m.files.map (·.name) = ["adapter_config.json", "adapter_model.safetensors"]) &&
    m.files.all (fun f => decide (0 < f.sizeBytes)) && decide (m.targetModules ≠ []) &&
    decide ("" ∉ m.targetModules) && decide m.targetModules.Nodup &&
    decide (Rows.orderBy id m.targetModules = m.targetModules)

/-- `create_adapter_manifest`. -/
def createAdapterManifest (files : List AdapterFile) (rank : Int) (alpha : Number) (targetModules : List String) :
    Except Raised AdapterManifest := do
  let alpha ← toFloat lib alpha
  let digest ← sha256Json lib (adapterContent files rank alpha targetModules)
  let manifest : AdapterManifest := ⟨digest, files, rank, alpha, targetModules⟩
  if manifest.valid = false then throw .validation
  pure manifest

/-- `f"policy-v{policy_version:08d}-{identity_digest.removeprefix('sha256:')[:16]}"`, of a version that is positive. -/
def policyIdOf (policyVersion : Int) (identityDigest : Digest) : OpaqueId :=
  "policy-v" ++ Numeral.zfill 8 policyVersion.toNat ++ "-" ++
    String.ofList ((removePrefix "sha256:" identityDigest).toList.take 16)

/-- `PolicyManifest(...)` of a trained policy: the fields' bounds and `validate_policy_version`. -/
def createPolicyManifest (runId : String) (policyVersion : Int) (baseModel : BaseModelIdentity)
    (adapter : AdapterManifest) (createdAt : Number) : Except Raised Manifest := do
  let createdAt ← toFloat lib createdAt
  if isOpaqueId runId = false ∨ policyVersion ≤ 0 ∨ createdAt.finite?.all (fun q => decide (0 ≤ q)) = false ∨
      createdAt.finite? = none then
    throw .validation
  let identityDigest ← sha256Json lib (Identity.json ⟨runId, policyVersion, baseModel, some adapter.digest⟩)
  let policyId := policyIdOf policyVersion identityDigest
  pure ⟨runId, policyVersion, baseModel, some adapter, createdAt, policyId, policyId⟩

end Publish
end Aether
