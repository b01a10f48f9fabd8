import AetherRl.PolicyManifests
/-!
# PolicyVerify — what a policy directory must hold

`verify_lora_policy` of `trainer/policy.py`: the three files, the canonical manifest under the directory's name, sizes
and digests, the adapter's config and its tensors.
-/
namespace Aether
namespace Publish

inductive Entry
  | regular (data : Bytes)
  | other
deriving DecidableEq

abbrev Directory := Dict String Entry

def adapterConfigName : String := "adapter_config.json"
def adapterWeightsName : String := "adapter_model.safetensors"
def policyManifestName : String := "manifest.json"

def policyFileNames : List String := [adapterConfigName, adapterWeightsName, policyManifestName]

/-- `path.read_bytes()`. -/
def readBytes (directory : Directory) (name : String) : Except Raised Bytes :=
  match directory.get? name with
  | some (.regular data) => .ok data
  | _ => .error .os

/-- The keys of an adapter's config. -/
def configKeys : List String :=
  ["alpha_pattern", "base_model_name_or_path", "bias", "inference_mode", "lora_alpha", "lora_dropout", "modules_to_save",
    "peft_type", "r", "rank_pattern", "revision", "target_modules", "task_type"]

def Json.isText (value : Option Json) (text : String) : Bool := decide (value.bind Json.str? = some text)

def Json.isEmptyObject : Option Json → Bool
  | some (.object []) => true
  | _ => false

def Json.isTrue : Option Json → Bool
  | some (.bool true) => true
  | _ => false

def Json.isNull : Option Json → Bool
  | some .null | none => true
  | _ => false

/-- `value == number`. -/
def Json.isNumber (value : Option Json) (number : Number) : Bool :=
  (value.bind Json.number?).any fun n => n.equal number

/-- The config against the manifest. -/
def checkConfig (config : Json) (policy : Manifest) (adapter : AdapterManifest) : Except Raised Unit := do
  match config with
  | .object items =>
    if (items.map (·.1)).toFinset ≠ configKeys.toFinset then throw (.value "adapter config has unsupported fields")
  | _ => throw (.value "adapter config has unsupported fields")
  if !(Json.isText (config.get? "peft_type") "LORA" && Json.isText (config.get? "task_type") "CAUSAL_LM" &&
      Json.isText (config.get? "bias") "none" && Json.isTrue (config.get? "inference_mode") &&
      Json.isEmptyObject (config.get? "alpha_pattern") && Json.isEmptyObject (config.get? "rank_pattern")) then
    throw (.value "adapter config has unsupported LoRA settings")
  if !((config.get? "lora_dropout").bind Json.number?).any Number.isFraction then
    throw (.value "adapter config has invalid LoRA dropout")
  if !Json.isNull (config.get? "modules_to_save") then
    throw (.value "modules_to_save is not supported for published policies")
  if !Json.isText (config.get? "base_model_name_or_path") policy.baseModel.modelName then
    throw (.value "adapter base model does not match policy manifest")
  if !Json.isText (config.get? "revision") policy.baseModel.modelRevision then
    throw (.value "adapter base model revision does not match policy manifest")
  if !(Json.isNumber (config.get? "r") (.int adapter.rank) &&
      Json.isNumber (config.get? "lora_alpha") (.float adapter.alpha)) then
    throw (.value "adapter rank or alpha does not match policy manifest")
  match (config.get? "target_modules").bind Json.elements? with
  | none => throw .type
  | some modules =>
    if modules.mapM Json.str? ≠ some adapter.targetModules then
      throw (.value "adapter target modules do not match policy manifest")

variable {δ : Type} (lib : Libraries δ)

/-- A file against its record in the manifest. -/
def checkFile (directory : Directory) (file : AdapterFile) : Except Raised Unit := do
  let data ← readBytes directory file.name
  if data.length ≠ file.sizeBytes then
    throw (.value ("adapter file size does not match manifest: " ++ file.name))
  if lib.sha256 data ≠ file.digest then
    throw (.value ("adapter file digest does not match manifest: " ++ file.name))

/-- A name `mkdtemp` gives: it starts with `.policy-`. -/
def isTemporary (name : String) : Prop := ".policy-".toList <+: name.toList

instance (name : String) : Decidable (isTemporary name) := inferInstanceAs (Decidable (_ <+: _))

/-- The manifest of a directory, canonical and under the directory's name. -/
def readManifest (name : String) (directory : Directory) : Except Raised (Manifest × AdapterManifest) := do
  let manifestBytes ← readBytes directory policyManifestName
  match lib.validateJson manifestBytes with
  | none => throw (.value "invalid policy manifest")
  | some policy =>
    let canonical ← canonicalJsonBytes lib policy.json
    if manifestBytes ≠ canonical then throw (.value "policy manifest is not canonical JSON")
    match policy.adapter with
    | none => throw (.value "published policy must contain an adapter")
    | some adapter =>
      if name ≠ policy.policyId ∧ ¬ isTemporary name then
        throw (.value "policy directory name does not match policy ID")
      pure (policy, adapter)

/-- The three files, and nothing else. -/
def checkEntries (directory : Directory) : Except Raised Unit := do
  if directory.keys.toFinset ≠ policyFileNames.toFinset then
    throw (.value ("policy artifact must contain exactly " ++
      "['adapter_config.json', 'adapter_model.safetensors', 'manifest.json']"))
  policyFileNames.forM fun name =>
    match directory.get? name with
    | some (.regular _) => pure ()
    | _ => throw (.value ("policy artifact must contain regular files: " ++ name))

/-- The manifest against the one that is expected, by their digests. -/
def checkExpected (policy : Manifest) : Option Manifest → Except Raised Unit
  | none => pure ()
  | some expected => do
    let found ← policyManifestDigest lib policy
    let wanted ← policyManifestDigest lib expected
    if found ≠ wanted then throw (.value "existing policy does not match the requested policy")

/-- The config and the tensors against the manifest. -/
def checkContents (directory : Directory) (policy : Manifest) (adapter : AdapterManifest) : Except Raised Unit := do
  adapter.files.forM (checkFile lib directory)
  let config ← readBytes directory adapterConfigName
  match lib.loads config with
  | none => throw .json
  | some config => checkConfig config policy adapter
  let weights ← readBytes directory adapterWeightsName
  match lib.safeOpen weights with
  | none => throw .safetensors
  | some tensors =>
    let modules ← validateAdapterTensors tensors adapter.rank
    if modules ≠ adapter.targetModules then
      throw (.value "adapter tensor modules do not match policy manifest")

/-- `verify_lora_policy`, of what stands under a name. -/
def verifyLoraPolicy (name : String) (directory : Option Directory) (expected : Option Manifest) :
    Except Raised Manifest :=
  match directory with
  | none => .error (.value ("policy artifact is not a directory: " ++ name))
  | some directory => do
    checkEntries directory
    let (policy, adapter) ← readManifest lib name directory
    checkExpected lib policy expected
    checkContents lib directory policy adapter
    pure policy

/-! ## What an accepted directory is -/

section
variable {lib} {name : String} {directory : Directory} {expected : Option Manifest} {policy : Manifest}
  {adapter : AdapterManifest}

theorem verifyLoraPolicy_eq_ok : verifyLoraPolicy lib name (some directory) expected = .ok policy ↔
    checkEntries directory = .ok () ∧ ∃ adapter, readManifest lib name directory = .ok (policy, adapter) ∧
      checkExpected lib policy expected = .ok () ∧ checkContents lib directory policy adapter = .ok () := by
  rw [verifyLoraPolicy]
  simp only [Checked.bind_eq_ok, Checked.pure_eq_ok]
  constructor
  · rintro ⟨_, hentries, ⟨p, a⟩, hread, _, hexpected, _, hcontents, rfl⟩
    exact ⟨hentries, a, hread, hexpected, hcontents⟩
  · rintro ⟨hentries, a, hread, hexpected, hcontents⟩
    exact ⟨(), hentries, (policy, a), hread, (), hexpected, (), hcontents, rfl⟩

theorem readManifest_eq_ok : readManifest lib name directory = .ok (policy, adapter) ↔
    ∃ data, readBytes directory policyManifestName = .ok data ∧ lib.validateJson data = some policy ∧
      canonicalJsonBytes lib policy.json = .ok data ∧ policy.adapter = some adapter ∧
      (name = policy.policyId ∨ isTemporary name) := by
  rw [readManifest]
  simp only [Checked.bind_eq_ok]
  constructor
  · rintro ⟨data, hdata, h⟩
    refine ⟨data, hdata, ?_⟩
    split at h
    · cases h
    · rename_i p hvalid
      simp only [Checked.bind_eq_ok] at h
      obtain ⟨canonical, hcanonical, h⟩ := h
      split at h
      · obtain ⟨_, h, _⟩ := h
      · rename_i hsame
        split at h
        · cases h
        · rename_i a hadapter
          split at h
          · obtain ⟨_, h, _⟩ := h
          · rename_i hname
            cases h
            rw [not_and_or, not_not, not_not] at hname
            rw [not_not] at hsame
            exact ⟨hvalid, hsame ▸ hcanonical, hadapter, hname⟩
  · rintro ⟨data, hdata, hvalid, hcanonical, hadapter, hname⟩
    refine ⟨data, hdata, ?_⟩
    simp only [hvalid, Checked.bind_eq_ok]
    refine ⟨data, hcanonical, ?_⟩
    simp only [ne_eq, not_true_eq_false, if_false, hadapter]
    rw [if_neg fun h => hname.elim h.1 h.2]
    rfl

theorem checkExpected_eq_ok {e : Manifest} : checkExpected lib policy (some e) = .ok () ↔
    ∃ digest, policyManifestDigest lib policy = .ok digest ∧ policyManifestDigest lib e = .ok digest := by
  rw [checkExpected]
  simp only [Checked.bind_eq_ok]
  constructor
  · rintro ⟨found, hfound, wanted, hwanted, h⟩
    split at h
    · cases h
    · rename_i hsame
      exact ⟨found, hfound, not_not.1 hsame ▸ hwanted⟩
  · rintro ⟨digest, hfound, hwanted⟩
    refine ⟨digest, hfound, digest, hwanted, ?_⟩
    rw [if_neg (not_not.2 rfl)]
    rfl

/-- What is accepted against a manifest is accepted against none, and has its digest. -/
theorem verify_forget {e : Manifest} (h : verifyLoraPolicy lib name (some directory) (some e) = .ok policy) :
    verifyLoraPolicy lib name (some directory) none = .ok policy ∧
      ∃ digest, policyManifestDigest lib policy = .ok digest ∧ policyManifestDigest lib e = .ok digest := by
  obtain ⟨hentries, adapter, hread, hexpected, hcontents⟩ := verifyLoraPolicy_eq_ok.1 h
  exact ⟨verifyLoraPolicy_eq_ok.2 ⟨hentries, adapter, hread, rfl, hcontents⟩, checkExpected_eq_ok.1 hexpected⟩

/-- What is accepted is accepted against every manifest of its digest. -/
theorem verify_against {e : Manifest} {digest : Digest}
    (h : verifyLoraPolicy lib name (some directory) none = .ok policy)
    (hp : policyManifestDigest lib policy = .ok digest) (he : policyManifestDigest lib e = .ok digest) :
    verifyLoraPolicy lib name (some directory) (some e) = .ok policy := by
  obtain ⟨hentries, adapter, hread, -, hcontents⟩ := verifyLoraPolicy_eq_ok.1 h
  exact verifyLoraPolicy_eq_ok.2 ⟨hentries, adapter, hread, checkExpected_eq_ok.2 ⟨digest, hp, he⟩, hcontents⟩

/-- **A directory accepted under any name is accepted under its policy's id.** -/
theorem verify_rename (h : verifyLoraPolicy lib name (some directory) expected = .ok policy) :
    verifyLoraPolicy lib policy.policyId (some directory) expected = .ok policy := by
  obtain ⟨hentries, adapter, hread, hexpected, hcontents⟩ := verifyLoraPolicy_eq_ok.1 h
  obtain ⟨data, hdata, hvalid, hcanonical, hadapter, -⟩ := readManifest_eq_ok.1 hread
  exact verifyLoraPolicy_eq_ok.2 ⟨hentries, adapter,
    readManifest_eq_ok.2 ⟨data, hdata, hvalid, hcanonical, hadapter, Or.inl rfl⟩, hexpected, hcontents⟩

theorem verify_name (h : verifyLoraPolicy lib name (some directory) expected = .ok policy) (hn : ¬ isTemporary name) :
    policy.policyId = name := by
  obtain ⟨_, adapter, hread, _⟩ := verifyLoraPolicy_eq_ok.1 h
  obtain ⟨_, _, _, _, _, hname⟩ := readManifest_eq_ok.1 hread
  exact (hname.resolve_right hn).symm

theorem verify_canonical (h : verifyLoraPolicy lib name (some directory) expected = .ok policy) :
    ∃ data, readBytes directory policyManifestName = .ok data ∧ canonicalJsonBytes lib policy.json = .ok data := by
  obtain ⟨_, adapter, hread, _⟩ := verifyLoraPolicy_eq_ok.1 h
  obtain ⟨data, hdata, _, hcanonical, _⟩ := readManifest_eq_ok.1 hread
  exact ⟨data, hdata, hcanonical⟩

/-- An accepted directory is not empty. -/
theorem verify_ne_empty (h : verifyLoraPolicy lib name (some directory) expected = .ok policy) :
    directory.entries ≠ [] := by
  intro hnil
  obtain ⟨data, hdata, _⟩ := verify_canonical h
  rw [readBytes, Dict.get?, hnil] at hdata
  cases hdata

end

/-! ## Canonical manifests -/

theorem canonicalJsonBytes_eq_ok {value : Json} {data : Bytes} :
    canonicalJsonBytes lib value = .ok data ↔ lib.dumps value = some data := by
  rw [canonicalJsonBytes]
  split <;> simp_all

theorem BaseModelIdentity.json_injective {m m' : BaseModelIdentity} (h : m.json = m'.json) : m = m' := by
  cases m
  cases m'
  simpa [BaseModelIdentity.json, and_comm, and_left_comm, and_assoc] using h

theorem AdapterFile.json_injective : Function.Injective AdapterFile.json := by
  intro f f' h
  cases f
  cases f'
  simpa [AdapterFile.json, and_comm, and_left_comm, and_assoc] using h

theorem AdapterManifest.json_injective : Function.Injective AdapterManifest.json := by
  intro m m' h
  cases m
  cases m'
  have hstr : Function.Injective Json.str := fun _ _ => Json.str.inj
  simpa [AdapterManifest.json, (List.map_injective_iff.2 AdapterFile.json_injective).eq_iff,
    (List.map_injective_iff.2 hstr).eq_iff, and_comm, and_left_comm, and_assoc] using h

theorem adapterJson_injective : ∀ {a a' : Option AdapterManifest},
    (a.map AdapterManifest.json).getD .null = (a'.map AdapterManifest.json).getD .null → a = a'
  | none, none, _ => rfl
  | none, some _, h => by cases h
  | some _, none, h => by cases h
  | some a, some a', h => congrArg some (AdapterManifest.json_injective h)

/-- **A manifest is read off its JSON.** -/
theorem Manifest.json_injective : Function.Injective Manifest.json := by
  intro m m' h
  simp only [Manifest.json, Json.object.injEq, List.cons.injEq, Prod.mk.injEq, true_and, and_true, Json.float.injEq,
    Json.str.injEq, Json.int.injEq] at h
  obtain ⟨hadapter, hbase, hcreated, hid, hversion, hrun, hserved⟩ := h
  cases m
  cases m'
  rw [Manifest.mk.injEq]
  exact ⟨hrun, hversion, BaseModelIdentity.json_injective hbase, adapterJson_injective hadapter, hcreated, hid, hserved⟩

theorem sortedList_of_forall : ∀ {values : List Json}, (∀ v ∈ values, v.Sorted) → Json.SortedList values
  | [], _ => trivial
  | _ :: _, h => ⟨h _ List.mem_cons_self, sortedList_of_forall fun v hv => h v (List.mem_cons_of_mem _ hv)⟩

theorem BaseModelIdentity.json_sorted (m : BaseModelIdentity) : m.json.Sorted := by
  refine ⟨?_, by simp [Json.Sorted, Json.SortedItems]⟩
  simp only [List.map_cons, List.map_nil]
  decide

theorem AdapterFile.json_sorted (f : AdapterFile) : f.json.Sorted := by
  refine ⟨?_, by simp [Json.Sorted, Json.SortedItems]⟩
  simp only [List.map_cons, List.map_nil]
  decide

theorem AdapterManifest.json_sorted (m : AdapterManifest) : m.json.Sorted := by
  have hfiles : Json.SortedList (m.files.map AdapterFile.json) := sortedList_of_forall fun v hv => by
    obtain ⟨f, _, rfl⟩ := List.mem_map.1 hv
    exact f.json_sorted
  have hmodules : Json.SortedList (m.targetModules.map Json.str) := sortedList_of_forall fun v hv => by
    obtain ⟨_, _, rfl⟩ := List.mem_map.1 hv
    trivial
  refine ⟨?_, by simp [Json.Sorted, Json.SortedItems, hfiles, hmodules]⟩
  simp only [List.map_cons, List.map_nil]
  decide

theorem Manifest.json_sorted (m : Manifest) : m.json.Sorted := by
  have hadapter : ((m.adapter.map AdapterManifest.json).getD .null).Sorted := by
    cases m.adapter with
    | none => trivial
    | some a => exact a.json_sorted
  refine ⟨?_, by simp [Json.Sorted, Json.SortedItems, hadapter, m.baseModel.json_sorted]⟩
  simp only [List.map_cons, List.map_nil]
  decide

/-- **Manifests of the same canonical bytes are the same.** -/
theorem canonical_injective {m m' : Manifest} {data : Bytes} (h : canonicalJsonBytes lib m.json = .ok data)
    (h' : canonicalJsonBytes lib m'.json = .ok data) : m = m' := by
  rw [canonicalJsonBytes_eq_ok] at h h'
  have hloads := lib.loads_dumps _ _ m.json_sorted h
  rw [lib.loads_dumps _ _ m'.json_sorted h'] at hloads
  exact (Manifest.json_injective (Option.some.inj hloads)).symm

end Publish
end Aether
