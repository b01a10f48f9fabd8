import AetherRl.Machine
import AetherRl.PolicyVerify
/-!
# PolicyPublish — publishing policies into one directory

`publish_lora_policy` of `trainer/policy.py`, one operation on the file system at a time, for any number of calls that
share a publication directory.  Before its cleanup an operation may raise an `OSError`, and a call may be killed at any
time; either may leave the file it was writing torn.  `mkdtemp` draws any name under which nothing stands; that it gives
no name twice, one it gave to a call that has removed its directory since included, is `FreshNames`, an assumption on its
eight random characters.
-/
namespace Aether
namespace Publish

variable {δ : Type} (lib : Libraries δ)

/-! ## What a call publishes -/

structure Args (δ : Type) where
  runId : String
  policyVersion : Int
  baseModel : BaseModelIdentity
  stateDict : StateDict δ
  rank : Int
  alpha : Number
  dropout : Number
  createdAt : Number

def Number.json : Number → Json
  | .int n => .int n
  | .float x => .float x

/-- `adapter_config`. -/
def adapterConfig (args : Args δ) (targetModules : List String) : Json :=
  .object [("alpha_pattern", .object []), ("base_model_name_or_path", .str args.baseModel.modelName),
    ("bias", .str "none"), ("inference_mode", .bool true), ("lora_alpha", args.alpha.json),
    ("lora_dropout", args.dropout.json), ("modules_to_save", .null), ("peft_type", .str "LORA"), ("r", .int args.rank),
    ("rank_pattern", .object []), ("revision", .str args.baseModel.modelRevision),
    ("target_modules", .list (targetModules.map .str)), ("task_type", .str "CAUSAL_LM")]

/-- The checks before anything is written. -/
def prepare (args : Args δ) : Except Raised (List String) := do
  if args.policyVersion < 1 then throw (.value "published LoRA policies must have a positive policy version")
  if args.dropout.isFraction = false then throw (.value "LoRA dropout must be between 0 and 1")
  validateAdapterTensors args.stateDict args.rank

/-- `save_file`. -/
def saveWeights (args : Args δ) : Except Raised Bytes :=
  match lib.saveFile args.stateDict with
  | some data => .ok data
  | none => .error .safetensors

/-- `_adapter_file`. -/
def adapterFile (name : String) (data : Bytes) : AdapterFile := ⟨name, data.length, lib.sha256 data⟩

/-- The manifest over the two files as they were written. -/
def createManifest (args : Args δ) (targetModules : List String) (config weights : Bytes) : Except Raised Manifest := do
  let adapter ← createAdapterManifest lib [adapterFile lib adapterConfigName config, adapterFile lib adapterWeightsName weights]
    args.rank args.alpha targetModules
  createPolicyManifest lib args.runId args.policyVersion args.baseModel adapter args.createdAt

/-- The manifest over the files of a directory, and its bytes. -/
def buildManifest (args : Args δ) (targetModules : List String) (directory : Option Directory) :
    Except Raised (Manifest × Bytes) :=
  match directory with
  | none => .error .os
  | some directory => do
    let config ← readBytes directory adapterConfigName
    let weights ← readBytes directory adapterWeightsName
    let policy ← createManifest lib args targetModules config weights
    let data ← canonicalJsonBytes lib policy.json
    pure (policy, data)

/-- The manifest of the policy a call publishes, if its arguments make one. -/
def publishes (args : Args δ) : Except Raised Manifest := do
  let targetModules ← prepare args
  let weights ← saveWeights lib args
  let config ← canonicalJsonBytes lib (adapterConfig args targetModules)
  createManifest lib args targetModules config weights

/-! ## Calls -/

inductive Outcome
  | returned (manifest : Manifest)
  | raised (error : Raised)
deriving DecidableEq

/-- Where a call stands: the operation it takes next, with its temporary directory, the manifest it is about to publish,
and whether it has renamed. -/
inductive Phase
  | ready
  | parent (targetModules : List String)
  | mkdtemp (targetModules : List String)
  | weights (temporary : String) (targetModules : List String)
  | config (temporary : String) (targetModules : List String)
  | manifest (temporary : String) (targetModules : List String)
  | verify (temporary : String) (policy : Manifest)
  | exists? (temporary : String) (policy : Manifest)
  | rename (temporary : String) (policy : Manifest)
  | existing (temporary : String) (policy : Manifest)
  | sync (temporary : String) (renamed : Bool) (answer : Manifest)
  | cleanup (temporary : String) (renamed : Bool) (outcome : Outcome)
  | ended (temporary : Option String) (renamed : Bool) (outcome : Outcome)
  | killed (temporary : Option String) (renamed : Bool)
deriving DecidableEq

namespace Phase

/-- The temporary directory a call was given. -/
def temporary? : Phase → Option String
  | .ready | .parent _ | .mkdtemp _ => none
  | .weights t _ | .config t _ | .manifest t _ | .verify t _ | .exists? t _ | .rename t _ | .existing t _ => some t
  | .sync t _ _ | .cleanup t _ _ => some t
  | .ended t _ _ | .killed t _ => t

def renamed : Phase → Bool
  | .sync _ r _ | .cleanup _ r _ | .ended _ r _ | .killed _ r => r
  | _ => false

/-- The call has returned or raised. -/
def isEnded : Phase → Bool
  | .ended _ _ _ => true
  | _ => false

/-- The call runs. -/
def isRunning : Phase → Bool
  | .ended _ _ _ | .killed _ _ => false
  | _ => true

/-- The file a call is writing. -/
def writing? : Phase → Option (String × String)
  | .weights t _ => some (t, adapterWeightsName)
  | .config t _ => some (t, adapterConfigName)
  | .manifest t _ => some (t, policyManifestName)
  | _ => none

/-- What a call does when the next operation raises: from `mkdtemp` on it cleans up. -/
def raise (phase : Phase) (error : Raised) : Option Phase :=
  match phase with
  | .ready | .parent _ | .mkdtemp _ => some (.ended none false (.raised error))
  | .weights t _ | .config t _ | .manifest t _ | .verify t _ | .exists? t _ | .rename t _ | .existing t _ =>
    some (.cleanup t false (.raised error))
  | .sync t r _ => some (.cleanup t r (.raised error))
  | .cleanup _ _ _ | .ended _ _ _ | .killed _ _ => none

end Phase

/-! ## The publication directory -/

inductive Parent
  | missing
  | file
  | directory
deriving DecidableEq

/-- What stands in the publication directory, the names drawn so far, and every call. -/
structure State (ι : Type) where
  parent : Parent
  directories : String → Option Directory
  drawn : List String
  phase : ι → Phase

variable {ι : Type} [DecidableEq ι]

namespace State

def put (s : State ι) (name : String) (directory : Option Directory) : State ι :=
  { s with directories := Function.update s.directories name directory }

def goes (s : State ι) (i : ι) (phase : Phase) : State ι := { s with phase := Function.update s.phase i phase }

/-- An operation of a call that raised. -/
def raise (s : State ι) (i : ι) (error : Raised) : Option (State ι) := ((s.phase i).raise error).map (s.goes i)

/-- An operation of a call that may raise. -/
def attempt {α : Type} (s : State ι) (i : ι) (x : Except Raised α) (f : α → State ι) : Option (State ι) :=
  match x with
  | .ok a => some (f a)
  | .error e => s.raise i e

/-- `_write_durable` and `save_file` into a temporary directory. -/
def write (s : State ι) (temporary name : String) (data : Bytes) : State ι :=
  s.put temporary ((s.directories temporary).map fun d => d.set name (.regular data))

end State

/-- `final_path`. -/
def finalName (policy : Manifest) : String := policy.policyId

inductive Event (ι : Type)
  | step (i : ι)
  | draw (i : ι) (name : String)
  | fault (i : ι) (torn : Option Bytes)
  | unlink (i : ι) (name : String)
  | kill (i : ι) (torn : Option Bytes)

/-- The call an event is of. -/
def Event.call : Event ι → ι
  | .step i | .draw i _ | .fault i _ | .unlink i _ | .kill i _ => i

/-- The name `mkdtemp` draws. -/
def Event.name? : Event ι → Option String
  | .draw _ name => some name
  | _ => none

/-- `mkdtemp` draws no name twice. -/
def FreshNames (events : List (Event ι)) : Prop := (events.filterMap Event.name?).Nodup

/-- What is left of the file a call was writing. -/
def State.tear (s : State ι) (i : ι) (torn : Option Bytes) : State ι :=
  match (s.phase i).writing?, torn with
  | some (temporary, name), some data => s.write temporary name data
  | _, _ => s

/-- `verify_lora_policy` of what stands under a name, and the comparison with the policy being published. -/
def verifyExisting (s : State ι) (policy : Manifest) : Except Raised Manifest := do
  let existing ← verifyLoraPolicy lib (finalName policy) (s.directories (finalName policy)) none
  let found ← policyManifestDigest lib existing
  let wanted ← policyManifestDigest lib policy
  if found ≠ wanted then throw (.value "existing policy does not match the policy being published")
  pure existing

/-- The next operation of a call. -/
def stepCall (args : ι → Args δ) (s : State ι) (i : ι) : Option (State ι) :=
  match s.phase i with
  | .ready => s.attempt i (prepare (args i)) fun modules => s.goes i (.parent modules)
  | .parent modules =>
    match s.parent with
    | .missing => s.raise i (.value "policy artifact parent directory must already exist")
    | .file => s.raise i (.value "policy artifact parent must be a directory")
    | .directory => some (s.goes i (.mkdtemp modules))
  | .mkdtemp _ => none
  | .weights t modules =>
    s.attempt i (saveWeights lib (args i)) fun data => (s.write t adapterWeightsName data).goes i (.config t modules)
  | .config t modules =>
    s.attempt i (canonicalJsonBytes lib (adapterConfig (args i) modules)) fun data =>
      (s.write t adapterConfigName data).goes i (.manifest t modules)
  | .manifest t modules =>
    s.attempt i (buildManifest lib (args i) modules (s.directories t)) fun built =>
      (s.write t policyManifestName built.2).goes i (.verify t built.1)
  | .verify t policy =>
    s.attempt i (verifyLoraPolicy lib t (s.directories t) (some policy)) fun _ => s.goes i (.exists? t policy)
  | .exists? t policy =>
    if (s.directories (finalName policy)).isSome then some (s.goes i (.existing t policy))
    else some (s.goes i (.rename t policy))
  | .rename t policy =>
    -- an empty directory is replaced, any other is left
    if (s.directories (finalName policy)).any (fun d => !d.entries.isEmpty) then some (s.goes i (.existing t policy))
    else some (((s.put (finalName policy) (s.directories t)).put t none).goes i (.sync t true policy))
  | .existing t policy => s.attempt i (verifyExisting lib s policy) fun existing => s.goes i (.sync t false existing)
  | .sync t renamed answer => some (s.goes i (.cleanup t renamed (.returned answer)))
  | .cleanup t renamed outcome =>
    match s.directories t with
    | none => some (s.goes i (.ended (some t) renamed outcome))
    | some directory =>
      if directory.entries.isEmpty then some ((s.put t none).goes i (.ended (some t) renamed outcome)) else none
  | .ended _ _ _ => none
  | .killed _ _ => none

/-- One event. -/
def next (args : ι → Args δ) (s : State ι) : Event ι → Option (State ι)
  | .step i => stepCall lib args s i
  | .draw i name =>
    match s.phase i with
    | .mkdtemp modules =>
      if isTemporary name ∧ s.directories name = none then
        some (({ s with drawn := name :: s.drawn }.put name (some Dict.empty)).goes i (.weights name modules))
      else none
    | _ => none
  | .fault i torn =>
    match s.phase i with
    | .ready => none
    | _ => (s.tear i torn).raise i .os
  | .unlink i name =>
    match s.phase i with
    | .cleanup t _ _ =>
      match s.directories t with
      | some directory => if (directory.get? name).isSome then some (s.put t (some (directory.erase name))) else none
      | none => none
    | _ => none
  | .kill i torn =>
    if (s.phase i).isRunning then
      some ((s.tear i torn).goes i (.killed (s.phase i).temporary? (s.phase i).renamed))
    else none

/-- Nothing is published and no call has begun. -/
def start (ι : Type) (parent : Parent) : State ι := ⟨parent, fun _ => none, [], fun _ => .ready⟩

/-- The state the events lead to. -/
def reached (args : ι → Args δ) (parent : Parent) (events : List (Event ι)) : State ι :=
  Machine.drive (next lib args) (start ι parent) events

end Publish
end Aether
