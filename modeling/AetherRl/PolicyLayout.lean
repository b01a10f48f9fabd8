import AetherRl.PolicyPublish
/-!
# PolicyLayout — the publisher's layout is the verifier's

The three files a call writes are what `verify_lora_policy` asks for: the config is the one it compares with the manifest,
and the manifest was made over the bytes it digests.
-/
namespace Aether
namespace Publish

variable {δ : Type} {lib : Libraries δ}

/-! ## What is written -/

/-- The directory of a policy, file by file in the order of writing. -/
def written (weights config manifest : Bytes) : Directory :=
  ((Dict.empty.set adapterWeightsName (.regular weights)).set adapterConfigName (.regular config)).set
    policyManifestName (.regular manifest)

/-- What a call that publishes a policy has in its directory. -/
def Layout (lib : Libraries δ) (a : Args δ) (policy : Manifest) (d : Directory) : Prop :=
  ∃ modules weights config manifest, prepare a = .ok modules ∧ saveWeights lib a = .ok weights ∧
    canonicalJsonBytes lib (adapterConfig a modules) = .ok config ∧
    createManifest lib a modules config weights = .ok policy ∧ canonicalJsonBytes lib policy.json = .ok manifest ∧
    d = written weights config manifest

theorem publishes_eq_ok {a : Args δ} {policy : Manifest} : publishes lib a = .ok policy ↔
    ∃ modules weights config, prepare a = .ok modules ∧ saveWeights lib a = .ok weights ∧
      canonicalJsonBytes lib (adapterConfig a modules) = .ok config ∧
      createManifest lib a modules config weights = .ok policy := by
  rw [publishes]
  simp only [Checked.bind_eq_ok]
  constructor
  · rintro ⟨modules, hp, weights, hw, config, hc, h⟩
    exact ⟨modules, weights, config, hp, hw, hc, h⟩
  · rintro ⟨modules, weights, config, hp, hw, hc, h⟩
    exact ⟨modules, hp, weights, hw, config, hc, h⟩

theorem Layout.publishes {a : Args δ} {policy : Manifest} {d : Directory} (h : Layout lib a policy d) :
    publishes lib a = .ok policy := by
  obtain ⟨modules, weights, config, _, hp, hw, hc, hm, _⟩ := h
  exact publishes_eq_ok.2 ⟨modules, weights, config, hp, hw, hc, hm⟩

theorem readBytes_set {d : Directory} {name : String} {data : Bytes} :
    readBytes (d.set name (.regular data)) name = .ok data := by
  rw [readBytes, Dict.get?_set, if_pos rfl]

theorem readBytes_set_ne {d : Directory} {name other : String} {data : Bytes} (h : other ≠ name) :
    readBytes (d.set name (.regular data)) other = readBytes d other := by
  rw [readBytes, Dict.get?_set, if_neg h]
  rfl

section
variable {weights config manifest : Bytes}

@[simp] theorem readBytes_written_manifest :
    readBytes (written weights config manifest) policyManifestName = .ok manifest := readBytes_set

@[simp] theorem readBytes_written_config :
    readBytes (written weights config manifest) adapterConfigName = .ok config := by
  rw [written, readBytes_set_ne (by decide), readBytes_set]

@[simp] theorem readBytes_written_weights :
    readBytes (written weights config manifest) adapterWeightsName = .ok weights := by
  rw [written, readBytes_set_ne (by decide), readBytes_set_ne (by decide), readBytes_set]

/-- The three files, and nothing else. -/
theorem checkEntries_written : checkEntries (written weights config manifest) = .ok () := by
  have hkeys : (written weights config manifest).keys = [adapterWeightsName, adapterConfigName, policyManifestName] := by
    simp [written, Dict.keys, Dict.set, Dict.assign, Dict.empty, adapterWeightsName, adapterConfigName,
      policyManifestName]
  rw [checkEntries, hkeys, if_neg (by decide)]
  simp [policyFileNames, written, Dict.get?_set, adapterWeightsName, adapterConfigName, policyManifestName]
  rfl

end

theorem Layout.manifest {a : Args δ} {policy : Manifest} {d : Directory} (h : Layout lib a policy d) :
    ∃ data, readBytes d policyManifestName = .ok data ∧ canonicalJsonBytes lib policy.json = .ok data := by
  obtain ⟨_, _, _, manifest, _, _, _, _, hdata, rfl⟩ := h
  exact ⟨manifest, readBytes_written_manifest, hdata⟩

/-- **The manifest is built over what the call wrote.** -/
theorem buildManifest_layout {a : Args δ} {modules : List String} {weights config : Bytes} {built : Manifest × Bytes}
    (hm : prepare a = .ok modules) (hw : saveWeights lib a = .ok weights)
    (hc : canonicalJsonBytes lib (adapterConfig a modules) = .ok config)
    (h : buildManifest lib a modules
      (some ((Dict.empty.set adapterWeightsName (.regular weights)).set adapterConfigName (.regular config))) = .ok built) :
    Layout lib a built.1 (written weights config built.2) := by
  rw [buildManifest] at h
  simp only [Checked.bind_eq_ok, Checked.pure_eq_ok] at h
  obtain ⟨config', hconfig, weights', hweights, policy, hp, data, hdata, rfl⟩ := h
  rw [readBytes_set] at hconfig
  rw [readBytes_set_ne (by decide), readBytes_set] at hweights
  cases hconfig
  cases hweights
  exact ⟨modules, weights, config, data, hm, hw, hc, hp, hdata, rfl⟩

/-! ## The verifier's checks -/

theorem prepare_eq_ok {a : Args δ} {modules : List String} : prepare a = .ok modules ↔
    1 ≤ a.policyVersion ∧ a.dropout.isFraction = true ∧ validateAdapterTensors a.stateDict a.rank = .ok modules := by
  rw [prepare]
  split
  · rename_i hversion
    constructor
    · intro h
      cases h
    · intro h
      omega
  · split
    · rename_i hdropout
      constructor
      · intro h
        cases h
      · intro h
        rw [hdropout] at h
        cases h.2.1
    · rename_i hversion hdropout
      rw [Bool.not_eq_false] at hdropout
      constructor
      · intro h
        exact ⟨by omega, hdropout, h⟩
      · intro h
        exact h.2.2

/-- What a created manifest holds. -/
theorem createManifest_eq_ok {a : Args δ} {modules : List String} {config weights : Bytes} {policy : Manifest}
    (h : createManifest lib a modules config weights = .ok policy) :
    ∃ adapter : AdapterManifest, policy.adapter = some adapter ∧ policy.baseModel = a.baseModel ∧
      adapter.files = [adapterFile lib adapterConfigName config, adapterFile lib adapterWeightsName weights] ∧
      adapter.rank = a.rank ∧ toFloat lib a.alpha = .ok adapter.alpha ∧ adapter.targetModules = modules ∧
      adapter.valid = true ∧
      ∃ digest, policyManifestDigest lib policy = .ok digest ∧ policy.policyId = policyIdOf policy.policyVersion digest := by
  rw [createManifest] at h
  simp only [Checked.bind_eq_ok] at h
  obtain ⟨adapter, hadapter, h⟩ := h
  rw [createPolicyManifest] at h
  simp only [Checked.bind_eq_ok] at h
  obtain ⟨created, _, h⟩ := h
  rw [createAdapterManifest] at hadapter
  simp only [Checked.bind_eq_ok] at hadapter
  obtain ⟨alpha, halpha, _, _, hadapter⟩ := hadapter
  split at hadapter
  · obtain ⟨_, hadapter, _⟩ := hadapter
  · rename_i hvalid
    cases hadapter
    split at h
    · obtain ⟨_, h, _⟩ := h
    · simp only [Checked.bind_eq_ok] at h
      obtain ⟨digest, hdigest, h⟩ := h
      cases h
      exact ⟨_, rfl, rfl, rfl, rfl, halpha, rfl, Bool.not_eq_false _ ▸ hvalid, digest, hdigest, rfl⟩

theorem checkFile_adapterFile {d : Directory} {name : String} {data : Bytes} (h : readBytes d name = .ok data) :
    checkFile lib d (adapterFile lib name data) = .ok () := by
  rw [checkFile]
  simp only [Checked.bind_eq_ok]
  refine ⟨data, h, ?_⟩
  simp only [adapterFile, ne_eq, not_true_eq_false, if_false]
  rfl

/-- What the libraries give back of what they wrote: the tensors, the manifest, and an integral alpha. -/
structure ReadsBack (lib : Libraries δ) (a : Args δ) : Prop where
  weights : ∀ data, lib.saveFile a.stateDict = some data → lib.safeOpen data = some a.stateDict
  manifest : ∀ policy data, publishes lib a = .ok policy → lib.dumps policy.json = some data →
    lib.validateJson data = some policy
  alpha : ∀ n q, a.alpha = .int n → lib.floatOf n = some q → q = n

theorem ReadsBack.equal_alpha {a : Args δ} (h : ReadsBack lib a) {alpha : PyFloat}
    (ha : toFloat lib a.alpha = .ok alpha) (hfinite : alpha.finite? ≠ none) :
    a.alpha.json.number?.any (fun n => n.equal (.float alpha)) = true := by
  obtain ⟨q, hq⟩ := Option.ne_none_iff_exists'.1 hfinite
  have hfloat : alpha = .finite q := by
    cases alpha <;> cases hq
    rfl
  cases hn : a.alpha with
  | int n =>
    rw [hn, toFloat] at ha
    split at ha
    · rename_i p hp
      cases ha
      rw [h.alpha n p hn hp]
      simp [Number.json, Json.number?, Number.equal, Number.finite?]
    · cases ha
  | float x =>
    rw [hn, toFloat] at ha
    cases ha
    simp [Number.json, Json.number?, Number.equal, Number.finite?, hfloat]

theorem number_json_isFraction {x : Number} (h : x.isFraction = true) : x.json.number?.any Number.isFraction = true := by
  cases x <;> exact h

theorem mapM_str (modules : List String) : (modules.map Json.str).mapM Json.str? = some modules := by
  induction modules with
  | nil => rfl
  | cons m modules ih => simp [Json.str?, ih]

theorem adapterConfig_sorted (a : Args δ) (modules : List String) : (adapterConfig a modules).Sorted := by
  have hmodules : Json.SortedList (modules.map Json.str) := sortedList_of_forall fun v hv => by
    obtain ⟨_, _, rfl⟩ := List.mem_map.1 hv
    trivial
  have hnumber : ∀ x : Number, x.json.Sorted := fun x => by cases x <;> trivial
  refine ⟨?_, by simp [Json.Sorted, Json.SortedItems, hmodules, hnumber]⟩
  simp only [List.map_cons, List.map_nil]
  decide

/-- A config that passes every check. -/
theorem checkConfig_object {items : List (String × Json)} {policy : Manifest} {adapter : AdapterManifest}
    {modules : List Json} (hkeys : items.map (·.1) = configKeys)
    (hsettings : (Json.isText ((Json.object items).get? "peft_type") "LORA" &&
      Json.isText ((Json.object items).get? "task_type") "CAUSAL_LM" &&
      Json.isText ((Json.object items).get? "bias") "none" &&
      Json.isTrue ((Json.object items).get? "inference_mode") &&
      Json.isEmptyObject ((Json.object items).get? "alpha_pattern") &&
      Json.isEmptyObject ((Json.object items).get? "rank_pattern")) = true)
    (hdropout : (((Json.object items).get? "lora_dropout").bind Json.number?).any Number.isFraction = true)
    (hsave : Json.isNull ((Json.object items).get? "modules_to_save") = true)
    (hbase : Json.isText ((Json.object items).get? "base_model_name_or_path") policy.baseModel.modelName = true)
    (hrevision : Json.isText ((Json.object items).get? "revision") policy.baseModel.modelRevision = true)
    (hnumbers : (Json.isNumber ((Json.object items).get? "r") (.int adapter.rank) &&
      Json.isNumber ((Json.object items).get? "lora_alpha") (.float adapter.alpha)) = true)
    (hmodules : ((Json.object items).get? "target_modules").bind Json.elements? = some modules)
    (htexts : modules.mapM Json.str? = some adapter.targetModules) :
    checkConfig (.object items) policy adapter = .ok () := by
  rw [checkConfig]
  simp only [hkeys, hsettings, hdropout, hsave, hbase, hrevision, hnumbers, hmodules, htexts, ne_eq, not_true_eq_false,
    if_false, Bool.not_true, Bool.false_eq_true]
  rfl

theorem isText_self (text : String) : Json.isText (some (.str text)) text = true := decide_eq_true rfl

/-- **The config a call writes is the one its manifest asks for.** -/
theorem checkConfig_adapterConfig {a : Args δ} {modules : List String} {policy : Manifest} {adapter : AdapterManifest}
    (hback : ReadsBack lib a) (hprepare : prepare a = .ok modules) (hbase : policy.baseModel = a.baseModel)
    (hrank : adapter.rank = a.rank) (halpha : toFloat lib a.alpha = .ok adapter.alpha)
    (hmodules : adapter.targetModules = modules) (hfinite : adapter.alpha.finite? ≠ none) :
    checkConfig (adapterConfig a modules) policy adapter = .ok () := by
  have hdropout := number_json_isFraction (prepare_eq_ok.1 hprepare).2.1
  have hequal := hback.equal_alpha halpha hfinite
  apply checkConfig_object rfl
  · simp [Json.get?, List.lookup_cons, isText_self, Json.isTrue, Json.isEmptyObject]
  · exact hdropout
  · rfl
  · rw [hbase]
    exact isText_self _
  · rw [hbase]
    exact isText_self _
  · rw [hrank, Bool.and_eq_true]
    exact ⟨by simp [Json.get?, List.lookup_cons, Json.isNumber, Json.number?, Number.equal, Number.finite?], hequal⟩
  · rfl
  · rw [hmodules, mapM_str]

/-- **The verifier accepts what the publisher writes**, under its temporary name, where the libraries read back what they
wrote. -/
theorem Layout.accepted {a : Args δ} {policy : Manifest} {d : Directory} {name : String} (h : Layout lib a policy d)
    (hback : ReadsBack lib a) (hname : isTemporary name) :
    verifyLoraPolicy lib name (some d) (some policy) = .ok policy := by
  have hpublishes := h.publishes
  obtain ⟨modules, weights, config, manifest, hprepare, hweights, hconfig, hcreate, hmanifest, rfl⟩ := h
  obtain ⟨adapter, hadapter, hbase, hfiles, hrank, halpha, hmodules, hvalid, digest, hdigest, _⟩ :=
    createManifest_eq_ok hcreate
  have hfinite : adapter.alpha.finite? ≠ none := by
    intro hnone
    simp [AdapterManifest.valid, hnone] at hvalid
  have hloads : lib.loads config = some (adapterConfig a modules) :=
    lib.loads_dumps _ _ (adapterConfig_sorted a modules) ((canonicalJsonBytes_eq_ok lib).1 hconfig)
  have hopen : lib.safeOpen weights = some a.stateDict := by
    rw [saveWeights] at hweights
    split at hweights
    · rename_i data hsave
      cases hweights
      exact hback.weights _ hsave
    · cases hweights
  rw [verifyLoraPolicy_eq_ok]
  refine ⟨checkEntries_written, adapter, ?_, ?_, ?_⟩
  · rw [readManifest_eq_ok]
    exact ⟨manifest, readBytes_written_manifest,
      hback.manifest policy manifest hpublishes ((canonicalJsonBytes_eq_ok lib).1 hmanifest), hmanifest, hadapter,
      Or.inr hname⟩
  · exact checkExpected_eq_ok.2 ⟨digest, hdigest, hdigest⟩
  · have hcheck := checkConfig_adapterConfig hback hprepare hbase hrank halpha hmodules hfinite
    have hconfigFile : checkFile lib (written weights config manifest) (adapterFile lib adapterConfigName config) = .ok () :=
      checkFile_adapterFile readBytes_written_config
    have hweightsFile :
        checkFile lib (written weights config manifest) (adapterFile lib adapterWeightsName weights) = .ok () :=
      checkFile_adapterFile readBytes_written_weights
    have hvalidate := (prepare_eq_ok.1 hprepare).2.2
    rw [checkContents, hfiles]
    simp only [List.forM, hconfigFile, hweightsFile, readBytes_written_config,
      readBytes_written_weights, Checked.ok_bind, hloads, hcheck, hopen, hrank, hvalidate, hmodules, ne_eq,
      not_true_eq_false, if_false]
    rfl

end Publish
end Aether
