import AetherRl.Numeral
import AetherRl.RepoReplay
/-!
# RepoPolicies — recorded policies and the active one

Policies are only added: a row stays as it was recorded, and its version and its id name no other.  The active policy
is switched by two calls, both of which compare versions; that the id they store is the id of the version they compared
is what the validator of a manifest gives.
-/
namespace Aether

open Txn (Returns Writes Wp returns_bind returns_pure returns_orRaise returns_raiseIf wp_bind wp_pure wp_throw)
open Tables Repo

variable {now : Time} {d d' d'' : Db} {env : Env}

/-! ## Manifests -/

/-- `str.removeprefix`. -/
def removePrefix (p s : String) : String :=
  if p.toList <+: s.toList then String.ofList (s.toList.drop p.toList.length) else s

/-- `f"policy-v{policy_version:08d}-{identity_digest.removeprefix('sha256:')[:16]}"`. -/
def Codec.policyId (c : Codec) (i : PolicyIdentity) : OpaqueId :=
  "policy-v" ++ Numeral.zfill 8 i.policyVersion ++ "-" ++
    String.ofList ((removePrefix "sha256:" (c.sha256 (c.identityBytes i))).toList.take 16)

/-- What `validate_policy_version` checks of a manifest. -/
structure PolicyManifest.Valid (c : Codec) (m : PolicyManifest) : Prop where
  id : m.policyId = c.policyId m.identity
  adapter : m.policyVersion = 0 ↔ m.adapter = none

/-- The manifests a call carries. -/
def Call.manifests : Call → List PolicyManifest
  | .initializeRun p => [p]
  | .recordPolicy m _ onDisk | .recordAndActivatePolicy m _ onDisk => m :: onDisk.toList
  | .createGroup as _ => as.map (·.policy)
  | _ => []

/-- **The id of a valid manifest names its version.** -/
theorem PolicyManifest.Valid.version_eq {c : Codec} {m m' : PolicyManifest} (h : m.Valid c) (h' : m'.Valid c)
    (hid : m.policyId = m'.policyId) : m.policyVersion = m'.policyVersion := by
  rw [h.id, h'.id] at hid
  unfold Codec.policyId at hid
  rw [String.append_assoc, String.append_assoc, String.append_assoc, String.append_assoc, String.append_right_inj] at hid
  rw [← String.append_assoc, ← String.append_assoc] at hid
  have hv := Numeral.prefix_inj (c := '-') rfl hid
  exact hv

/-- A row of `policies` was inserted from its manifest. -/
structure PolicyRow.Filed (c : Codec) (p : PolicyRow) : Prop where
  valid : p.manifest.Valid c
  id : p.policyId = p.manifest.policyId
  version : p.policyVersion = p.manifest.policyVersion
  digest : p.manifestDigest = c.policyManifestDigest p.manifest

/-- An assignment carries the policy its row refers to. -/
def AssignmentRow.Stamped (c : Codec) (a : AssignmentRow) : Prop :=
  a.assignment.policy.policyId = a.policyId ∧ c.policyManifestDigest a.assignment.policy = a.policyManifestDigest

/-- Every policy was recorded from its manifest, and every assignment was stamped with its policy. -/
structure Filed (c : Codec) (t : Tables) : Prop where
  policies : ∀ p ∈ t.policies, p.Filed c
  assignments : ∀ a ∈ t.assignments, a.Stamped c

theorem prepareTrainedPolicyRecord_ok {m verified : PolicyManifest} {onDisk : Option PolicyManifest}
    (h : prepareTrainedPolicyRecord env m onDisk = .ok verified) : verified ∈ onDisk := by
  unfold prepareTrainedPolicyRecord at h
  split at h
  · cases h
  · split at h
    · cases h
    · split at h
      · cases h
      · split at h
        · cases h
        · rw [Except.ok.injEq] at h
          rw [h]
          exact rfl

/-! ## Recording and activating -/

/-- The row a policy is recorded with. -/
def policyRow (env : Env) (m : PolicyManifest) (path : Option String) : PolicyRow :=
  ⟨m.policyId, m.policyVersion, env.codec.policyManifestDigest m, m, path, m.createdAt⟩

theorem returns_recordPolicyInTransaction {verified : PolicyManifest} {path : String} {u : Unit}
    (h : Returns (recordPolicyInTransaction env verified path) d u d') :
    d' = d ∨ d'.policies = d.policies ++ [policyRow env verified (some path)] := by
  simp only [recordPolicyInTransaction, Repo.run, returns_bind, returns_tables, returns_orRaise, returns_raiseIf] at h
  obtain ⟨_, d₁, ⟨_, _, ⟨rfl, rfl⟩, _, rfl⟩, _, _, ⟨_, rfl⟩, _, _, ⟨rfl, rfl⟩, h⟩ := h
  split at h
  · rw [returns_raiseIf] at h
    exact Or.inl h.2
  · rw [returns_exec] at h
    exact Or.inr (by rw [h]; rfl)

theorem returns_initializeRunBody {m : PolicyManifest} {u : Unit}
    (h : Returns (initializeRunBody m (env.codec.policyManifestDigest m)) d u d') :
    d' = d ∨ (d.run = none ∧ (m.policyVersion = 0 → d'.policies = d.policies ++ [policyRow env m none])) := by
  simp only [initializeRunBody, returns_bind, returns_tables] at h
  obtain ⟨_, _, ⟨rfl, rfl⟩, h⟩ := h
  split at h
  · simp only [returns_bind, returns_tables, returns_orRaise, returns_raiseIf] at h
    obtain ⟨_, _, ⟨rfl, rfl⟩, _, _, ⟨_, rfl⟩, _, rfl⟩ := h
    exact Or.inl rfl
  · rename_i hnone
    simp only [returns_bind, returns_exec] at h
    obtain ⟨_, d₁, h₁, h₂⟩ := h
    refine Or.inr ⟨hnone, fun hv => ?_⟩
    rw [h₂, insertRun_policies, h₁, insertPolicy_policies, policyRow, hv]

/-- **An activation does not go back**, and stores the id it is given. -/
theorem returns_activate {i : OpaqueId} {v : Nat} {u : Unit} (h : Returns (activate i v now) d u d') :
    (∃ active ∈ d.activePolicy?, active.policyVersion ≤ v) ∧ d'.policies = d.policies ∧
      d'.run = d.run.map (fun r => { r with activePolicyId := i }) := by
  simp only [activate, returns_bind, returns_tables, returns_orRaise, returns_raiseIf, returns_exec] at h
  obtain ⟨_, _, ⟨rfl, rfl⟩, active, _, ⟨ha, rfl⟩, _, _, ⟨hv, rfl⟩, _, d₁, h₁, h₂⟩ := h
  obtain ⟨_, hrun, hpol, _⟩ := reap_frame (writes_reconcileStaleWork (S := reapTables) now (List.Subset.refl _)) h₂
  exact ⟨⟨active, ha, not_lt.1 hv⟩, by rw [hpol, h₁]; rfl, by rw [hrun, h₁]; rfl⟩

/-! ## Every commit -/

/-- Policies are only added, and the active version does not go down. -/
structure PoliciesGrow (t t' : Tables) : Prop where
  policies : t.policies <+: t'.policies
  active : ∀ p ∈ t.activePolicy?, ∃ p' ∈ t'.activePolicy?, p.policyVersion ≤ p'.policyVersion

theorem PoliciesGrow.refl (t : Tables) : PoliciesGrow t t := ⟨List.prefix_rfl, fun p hp => ⟨p, hp, le_rfl⟩⟩

theorem PoliciesGrow.trans {t t' t'' : Tables} (h₁ : PoliciesGrow t t') (h₂ : PoliciesGrow t' t'') :
    PoliciesGrow t t'' := by
  refine ⟨h₁.policies.trans h₂.policies, fun p hp => ?_⟩
  obtain ⟨p', hp', hle⟩ := h₁.active p hp
  obtain ⟨p'', hp'', hle'⟩ := h₂.active p' hp'
  exact ⟨p'', hp'', hle.trans hle'⟩

/-- A run always has its active policy. -/
theorem activePolicy?_of_run {r : RunRow} (h : d.run = some r) :
    ∃ p ∈ d.policies, p.policyId = r.activePolicyId ∧ d.activePolicy? = some p := by
  obtain ⟨p, hp, hid⟩ := d.ok.run.activePolicy r h
  refine ⟨p, hp, hid, ?_⟩
  rw [activePolicy?, h, Option.bind_some]
  exact (Rows.get_eq_some _ d.ok.policies.key).2 ⟨hp, hid⟩

theorem run_of_activePolicy? {p : PolicyRow} (h : d.activePolicy? = some p) :
    ∃ r, d.run = some r ∧ p ∈ d.policies ∧ p.policyId = r.activePolicyId := by
  obtain ⟨r, hr, hp⟩ := Option.bind_eq_some_iff.1 h
  exact ⟨r, hr, Rows.mem_of_get _ hp, Rows.key_of_get _ hp⟩

/-- **With the same run, added policies leave the active one.** -/
theorem PoliciesGrow.of_run (hp : d.policies <+: d'.policies) (hr : d'.run = d.run) :
    PoliciesGrow d.toTables d'.toTables := by
  refine ⟨hp, fun p hact => ?_⟩
  obtain ⟨r, hrun, hmem, hid⟩ := run_of_activePolicy? hact
  obtain ⟨p', hp', hid', hact'⟩ := activePolicy?_of_run (hr.trans hrun)
  rw [Rows.eq_of_key _ d'.ok.policies.key hp' (hp.subset hmem) (hid'.trans hid.symm)] at hact'
  exact ⟨p, hact', le_rfl⟩

/-- **An activation of a policy whose row has the version that was compared.** -/
theorem PoliciesGrow.activate {i : OpaqueId} {v : Nat} {u : Unit} (h : Returns (activate i v now) d u d')
    (hv : ∀ p ∈ d.policies, p.policyId = i → p.policyVersion = v) : PoliciesGrow d.toTables d'.toTables := by
  obtain ⟨⟨active, hact, hle⟩, hpol, hrun⟩ := returns_activate h
  obtain ⟨r, hr, _⟩ := run_of_activePolicy? hact
  rw [hr, Option.map_some] at hrun
  obtain ⟨p, hp, hid, hact'⟩ := activePolicy?_of_run hrun
  refine ⟨hpol ▸ List.prefix_rfl, fun q hq => ⟨p, hact', ?_⟩⟩
  rw [Option.mem_unique hq hact, hv p (hpol ▸ hp) hid]
  exact hle

theorem filed_policyRow {m : PolicyManifest} (h : m.Valid env.codec) (path : Option String) :
    (policyRow env m path).Filed env.codec := ⟨h, rfl, rfl, rfl⟩

theorem filed_append {l l' : List PolicyRow} {m : PolicyManifest} {path : Option String} (h : m.Valid env.codec)
    (hl : ∀ p ∈ l, p.Filed env.codec) (he : l' = l ++ [policyRow env m path]) : ∀ p ∈ l', p.Filed env.codec := by
  intro p hp
  rw [he, List.mem_append, List.mem_singleton] at hp
  rcases hp with hp | rfl
  · exact hl p hp
  · exact filed_policyRow h path

/-- **Every commit only adds policies, each from a valid manifest**, and never activates an older one. -/
theorem commit_policies {c : Call} (hv : ∀ m ∈ c.manifests, m.Valid env.codec)
    (hf : ∀ p ∈ d.policies, p.Filed env.codec) (h : Commit env now d d' c) :
    (∀ p ∈ d'.policies, p.Filed env.codec) ∧ PoliciesGrow d.toTables d'.toTables := by
  by_cases hc : .run ∈ c.writes ∨ .policies ∈ c.writes
  · cases c
    case initializeRun m =>
      obtain ⟨hm, u, h⟩ := h
      rcases returns_initializeRunBody h with rfl | ⟨hnone, hpol⟩
      · exact ⟨hf, .refl _⟩
      · refine ⟨filed_append (hv m (List.mem_singleton_self m)) hf (hpol hm), hpol hm ▸ List.prefix_append _ _, ?_⟩
        intro p hp
        obtain ⟨r, hr, _⟩ := run_of_activePolicy? hp
        rw [hnone] at hr
        cases hr
    case recordPolicy m path onDisk =>
      have hrun : d'.run = d.run := commit_rows h .run (by simp only [Call.writes]; decide)
      obtain ⟨verified, hver, u, h⟩ := h
      have hvalid := hv verified (List.mem_cons_of_mem _ (Option.mem_toList.2 (prepareTrainedPolicyRecord_ok hver)))
      rcases returns_recordPolicyInTransaction h with rfl | hpol
      · exact ⟨hf, .refl _⟩
      · exact ⟨filed_append hvalid hf hpol, .of_run (hpol ▸ List.prefix_append _ _) hrun⟩
    case recordAndActivatePolicy m path onDisk =>
      obtain ⟨verified, hver, u, h⟩ := h
      have hvalid := hv verified (List.mem_cons_of_mem _ (Option.mem_toList.2 (prepareTrainedPolicyRecord_ok hver)))
      simp only [recordAndActivateBody, returns_bind] at h
      obtain ⟨_, d₁, h₁, h₂⟩ := h
      have hrun : d₁.run = d.run :=
        writes_recordPolicyInTransaction (S := [.policies]) _ _ _ (by decide) _ _ _ h₁ .run (by decide)
      have hf₁ : (∀ p ∈ d₁.policies, p.Filed env.codec) ∧ d.policies <+: d₁.policies := by
        rcases returns_recordPolicyInTransaction h₁ with rfl | hpol
        · exact ⟨hf, List.prefix_rfl⟩
        · exact ⟨filed_append hvalid hf hpol, hpol ▸ List.prefix_append _ _⟩
      refine ⟨(returns_activate h₂).2.1 ▸ hf₁.1, (PoliciesGrow.of_run hf₁.2 hrun).trans (.activate h₂ fun p hp hid => ?_)⟩
      have hfp := hf₁.1 p hp
      rw [hfp.version]
      exact hfp.valid.version_eq hvalid (hfp.id.symm.trans hid)
    case activatePolicy i artifacts =>
      obtain ⟨u, h⟩ := h
      simp only [activatePolicyBody, returns_bind, returns_tables, returns_pure, returns_orRaise, verifyPolicyRow,
        returns_raiseIf] at h
      obtain ⟨_, _, ⟨rfl, rfl⟩, target, d₀, ⟨ht, rfl⟩, _, _, ⟨_, rfl⟩, _, d₁, h₁, _, rfl⟩ := h
      refine ⟨(returns_activate h₁).2.1 ▸ hf, .activate h₁ fun p hp hid => ?_⟩
      obtain ⟨htm, hti⟩ := (Rows.get_eq_some _ (Db.ok _).policies.key).1 ht
      rw [Rows.eq_of_key _ (Db.ok _).policies.key hp htm (hid.trans hti.symm)]
    all_goals exact absurd hc (by simp only [Call.writes]; decide)
  · rw [not_or] at hc
    have hpol : d'.policies = d.policies := commit_rows h .policies hc.2
    exact ⟨hpol ▸ hf, .of_run (hpol ▸ List.prefix_rfl) (commit_rows h .run hc.1)⟩

/-! ## Groups and assignments -/

theorem AssignmentRow.Stamped.of_fixed {c : Codec} {a b : AssignmentRow} (h : a.Stamped c) (he : b.fixed = a.fixed) :
    b.Stamped c := by
  have h₁ : b.assignment = a.assignment := congrArg (·.assignment) he
  have h₂ : b.policyId = a.policyId := congrArg (·.policyId) he
  have h₃ : b.policyManifestDigest = a.policyManifestDigest := congrArg (·.policyManifestDigest) he
  unfold AssignmentRow.Stamped
  rwa [h₁, h₂, h₃]

/-- The groups and assignments there were are there still; a new group has the active policy unless it was made by hand,
and a new assignment carries its policy. -/
structure Stamps (c : Codec) (d d' : Db) : Prop where
  run : d'.run = d.run
  policies : d'.policies = d.policies
  groups : d.groups.map GroupRow.fixed <+: d'.groups.map GroupRow.fixed
  assignments : d.assignments.map AssignmentRow.fixed <+: d'.assignments.map AssignmentRow.fixed
  made : ∀ g ∈ d'.groups, g.fixed ∈ d.groups.map GroupRow.fixed ∨ g.sourceId = none ∨
    ∃ active ∈ d.activePolicy?, active.policyId = g.policyId
  stamped : ∀ a ∈ d'.assignments, a.fixed ∈ d.assignments.map AssignmentRow.fixed ∨ a.Stamped c

variable {c : Codec}

theorem Stamps.of_rows (h : ∀ k ∈ [Table.run, .policies, .fixedGroups, .fixedAssignments], d'.rows k = d.rows k) :
    Stamps c d d' := by
  have hg : d'.groups.map GroupRow.fixed = d.groups.map GroupRow.fixed := h .fixedGroups (by decide)
  have ha : d'.assignments.map AssignmentRow.fixed = d.assignments.map AssignmentRow.fixed :=
    h .fixedAssignments (by decide)
  exact ⟨h .run (by decide), h .policies (by decide), hg ▸ List.prefix_rfl, ha ▸ List.prefix_rfl,
    fun _ hm => Or.inl (hg ▸ List.mem_map_of_mem hm), fun _ hm => Or.inl (ha ▸ List.mem_map_of_mem hm)⟩

theorem Stamps.refl (d : Db) : Stamps c d d := .of_rows fun _ _ => rfl

theorem Stamps.trans (h₁ : Stamps c d d') (h₂ : Stamps c d' d'') : Stamps c d d'' := by
  refine ⟨h₂.run.trans h₁.run, h₂.policies.trans h₁.policies, h₁.groups.trans h₂.groups,
    h₁.assignments.trans h₂.assignments, fun g hg => ?_, fun a ha => ?_⟩
  · rcases h₂.made g hg with hold | hnew
    · obtain ⟨g', hg', he⟩ := List.mem_map.1 hold
      have hs : g'.sourceId = g.sourceId := congrArg (·.sourceId) he
      have hp : g'.policyId = g.policyId := congrArg (·.policyId) he
      have hmade := h₁.made g' hg'
      rwa [he, hs, hp] at hmade
    · unfold Tables.activePolicy? Tables.policy? at *
      rw [h₁.run, h₁.policies] at hnew
      exact Or.inr hnew
  · rcases h₂.stamped a ha with hold | hnew
    · obtain ⟨a', ha', he⟩ := List.mem_map.1 hold
      exact (h₁.stamped a' ha').imp (fun h => he ▸ h) fun h => h.of_fixed he.symm
    · exact Or.inr hnew

/-- **What a creation adds.** -/
theorem Created.stamps {g : GroupRow} {as : List RolloutAssignment} {n : Nat}
    (h : Created d.toTables d'.toTables g (as.map (newRow env n))) (hr : d'.run = d.run) (hp : d'.policies = d.policies)
    (hg : g.sourceId = none ∨ ∃ active ∈ d.activePolicy?, active.policyId = g.policyId) : Stamps env.codec d d' := by
  refine ⟨hr, hp, ?_, ?_, fun r hm => ?_, fun a hm => ?_⟩
  · rw [h.groups, List.map_append]
    exact List.prefix_append _ _
  · rw [h.assignments, List.map_append]
    exact List.prefix_append _ _
  · rw [h.groups, List.mem_append, List.mem_singleton] at hm
    rcases hm with hm | rfl
    · exact Or.inl (List.mem_map_of_mem hm)
    · exact Or.inr hg
  · rw [h.assignments, List.mem_append] at hm
    rcases hm with hm | hm
    · exact Or.inl (List.mem_map_of_mem hm)
    · obtain ⟨b, _, rfl⟩ := List.mem_map.1 hm
      exact Or.inr ⟨rfl, rfl⟩

theorem createNextGroupBody_stamps {kind : Option Kind} {ids : Nat → OpaqueId} {artifacts : Artifacts} {t : Time}
    {r : Option CreatedGroup} (h : Returns (createNextGroupBody env kind ids artifacts t) d r d') :
    Stamps env.codec d d' := by
  have hw := writes_createNextGroupBody (S := .sources :: .scheduler :: groupTables) env kind ids artifacts t (by decide)
    (by decide) (by decide) _ _ _ h
  cases returns_createNextGroupBody h with
  | idle => exact .refl _
  | existing source hs g hg r _ h =>
    have hsame := writes_existingGroup (S := [.sources]) _ _ _ (by decide) _ _ _ h
    exact .of_rows fun k hk => hsame k (by revert k; decide)
  | made source hs hg active ha hid hd task htask r _ h =>
    obtain ⟨⟨as, _, hc⟩, _⟩ := returns_newGroup h
    exact hc.stamps (hw .run (by decide)) (hw .policies (by decide)) (Or.inr ⟨active, ha, hid.symm⟩)

/-- **The calls that create groups only add them.** -/
theorem commit_stamps {c : Call} (hc : .fixedGroups ∈ c.writes) (h : Commit env now d d' c) : Stamps env.codec d d' := by
  cases c
  case createNextGroup =>
    obtain ⟨_, h⟩ := h
    exact createNextGroupBody_stamps h
  case createGroup as n =>
    have hw : ∀ k ∈ [Table.run, .policies], d'.rows k = d.rows k :=
      fun k hk => commit_rows h k (by simp only [Call.writes]; revert k; decide)
    obtain ⟨first, rest, rfl, hi, hg, u, h⟩ := h
    obtain ⟨hc, _⟩ := returns_createGroupBody hi (groupId_of_inputs hg) h
    exact hc.stamps (hw .run (by decide)) (hw .policies (by decide)) (Or.inl rfl)
  case leaseOrCreateNextCompatible =>
    rcases h with ⟨_, _, _, h⟩ | ⟨_, h⟩ | ⟨_, h⟩
    · have hw := writes_leaseNextBody (S := .requests :: .fixedLeases :: reapTables) env _ _ _ now (by decide)
        (by decide) (by decide) _ _ _ h
      exact .of_rows fun k hk => hw k (by revert k; decide)
    · exact .of_rows fun k _ => writes_leaseRequestCanGenerateBody (S := []) _ _ _ _ _ h k List.not_mem_nil
    · exact createNextGroupBody_stamps h
  all_goals exact absurd hc (by simp only [Call.writes]; decide)

/-- What every commit keeps of the groups and assignments. -/
structure Kept (t t' : Tables) : Prop where
  groups : t.groups.map GroupRow.fixed <+: t'.groups.map GroupRow.fixed
  assignments : t.assignments.map AssignmentRow.fixed <+: t'.assignments.map AssignmentRow.fixed

/-- **Every commit** keeps the groups and assignments there are, and stamps the new ones. -/
theorem commit_kept {c : Call} (hf : Filed env.codec d.toTables) (hv : ∀ m ∈ c.manifests, m.Valid env.codec)
    (h : Commit env now d d' c) :
    Filed env.codec d'.toTables ∧ PoliciesGrow d.toTables d'.toTables ∧ Kept d.toTables d'.toTables := by
  obtain ⟨hp, hgrow⟩ := commit_policies hv hf.policies h
  by_cases hc : .fixedGroups ∈ c.writes
  · have hs := commit_stamps hc h
    refine ⟨⟨hp, fun a ha => ?_⟩, hgrow, hs.groups, hs.assignments⟩
    rcases hs.stamped a ha with hold | hnew
    · obtain ⟨b, hb, he⟩ := List.mem_map.1 hold
      exact (hf.assignments b hb).of_fixed he.symm
    · exact hnew
  · have hfa : .fixedAssignments ∉ c.writes := fun hm => hc (by revert hm; cases c <;> simp only [Call.writes] <;> decide)
    have hg : d'.groups.map GroupRow.fixed = d.groups.map GroupRow.fixed := commit_rows h .fixedGroups hc
    have ha : d'.assignments.map AssignmentRow.fixed = d.assignments.map AssignmentRow.fixed :=
      commit_rows h .fixedAssignments hfa
    refine ⟨⟨hp, fun a hm => ?_⟩, hgrow, hg ▸ List.prefix_rfl, ha ▸ List.prefix_rfl⟩
    obtain ⟨b, hb, he⟩ := List.mem_map.1 (ha ▸ List.mem_map_of_mem (f := AssignmentRow.fixed) hm)
    exact (hf.assignments b hb).of_fixed he.symm

/-- **A group that a source makes has the policy that is active.** -/
theorem made_active {s : Step} {w : World} {g : GroupRow} (hg : g ∈ (s.run env w).db.groups)
    (hnew : g.groupId ∉ w.db.groups.map (·.groupId)) (hs : g.sourceId ≠ none) :
    ∃ active ∈ w.db.activePolicy?, active.policyId = g.policyId := by
  have hold : g.fixed ∉ w.db.groups.map GroupRow.fixed := by
    intro hm
    obtain ⟨g', hg', he⟩ := List.mem_map.1 hm
    have hid : g'.groupId = g.groupId := congrArg (·.groupId) he
    exact hnew (hid ▸ List.mem_map_of_mem hg')
  by_cases hc : .fixedGroups ∈ s.call.writes
  · have h : True ∧ Stamps env.codec w.db (s.run env w).db :=
      step_holds (I := fun _ _ => True) (fun _ _ _ _ _ => trivial) Stamps.refl (fun _ _ _ => Stamps.trans)
        (fun _ _ _ _ hcm => ⟨trivial, commit_stamps hc hcm⟩) trivial
    rcases h.2.made g hg with h | h | h
    · exact absurd h hold
    · exact absurd h hs
    · exact h
  · have h : True ∧ (s.run env w).db.groups.map GroupRow.fixed = w.db.groups.map GroupRow.fixed :=
      step_holds (I := fun _ _ => True)
        (R := fun d d' => d'.groups.map GroupRow.fixed = d.groups.map GroupRow.fixed) (fun _ _ _ _ _ => trivial)
        (fun _ => rfl) (fun _ _ _ h₁ h₂ => h₂.trans h₁)
        (fun _ _ _ _ hcm => ⟨trivial, commit_rows hcm .fixedGroups hc⟩) trivial
    exact absurd (h.2 ▸ List.mem_map_of_mem hg) hold

/-! ## Calls that raise -/

/-- The calls that are one transaction, and nothing after it that may raise. -/
def Call.atomic : Call → Bool
  | .recordPolicy _ _ _ | .recordAndActivatePolicy _ _ _ | .activatePolicy _ _ | .registerSchedulerSource _
  | .createNextGroup _ _ _ | .createGroup _ _ => true
  | _ => false

/-- **Such a call that raises leaves the database as it was.** -/
theorem atomic_refused (env : Env) {c : Call} (hc : c.atomic = true) (w : World) :
    Wp (perform env c) (fun _ _ => True) (fun _ w' => w'.db = w.db) w := by
  cases c <;> cases hc <;> simp only [perform, wp_answered]
  case recordPolicy =>
    unfold recordPolicy
    split
    · rfl
    · exact wp_transaction (fun _ _ _ _ => trivial) fun _ => rfl
  case recordAndActivatePolicy =>
    unfold recordAndActivatePolicy
    split
    · rfl
    · simp only [wp_bind, wp_readClock, wp_pure]
      exact wp_transaction (fun _ _ _ _ => trivial) fun _ => rfl
  case activatePolicy =>
    simp only [activatePolicy, wp_bind, wp_readClock]
    exact wp_transaction (fun _ _ _ _ => trivial) fun _ => rfl
  case registerSchedulerSource => exact wp_transaction (fun _ _ _ _ => trivial) fun _ => rfl
  case createNextGroup =>
    simp only [createNextGroup, wp_bind, wp_readClock]
    exact wp_transaction (fun _ _ _ _ => trivial) fun _ => rfl
  case createGroup =>
    simp only [createGroup, wp_bind, wp_raiseUnless]
    refine ⟨fun _ => ?_, fun _ => trivial⟩
    split
    · rfl
    · simp only [wp_bind, wp_raiseUnless]
      refine ⟨fun _ => ⟨fun _ => ⟨fun _ => ?_, fun _ => trivial⟩, fun _ => trivial⟩, fun _ => trivial⟩
      exact wp_transaction (fun _ _ _ _ => trivial) fun _ => rfl

theorem Step.refused {s : Step} {w : World} (hc : s.call.atomic = true) (h : ¬ s.Returned env w) :
    (s.run env w).db = w.db := by
  have hw := atomic_refused env hc { w with crashAfter := s.crashAfter, torn := s.torn }
  unfold Wp at hw
  unfold Step.Returned at h
  split at hw
  · rename_i heq
    exact absurd (congrArg Prod.fst heq) h
  · rename_i heq
    exact (congrArg (fun x => x.2.db) heq).trans hw

/-! ## Every run -/

/-- **Policies never change, and the active one only goes forward**: through every continuation of a run the policies
recorded stay as they are, with versions and ids that name one each, and the active version does not go down; groups and
assignments keep the recorded policy they were made with, which is the active one where a source made them; and a call
that raises leaves everything as it was. -/
theorem policies_never_change (env : Env) (steps more : List Step)
    (hv : ∀ s ∈ steps ++ more, ∀ m ∈ s.call.manifests, m.Valid env.codec) :
    let w := reached env steps
    let w' := reached env (steps ++ more)
    (∀ active ∈ w.db.activePolicy?, ∃ active' ∈ w'.db.activePolicy?, active.policyVersion ≤ active'.policyVersion) ∧
    (∀ p ∈ w.db.policies, p ∈ w'.db.policies ∧ p.policyId = p.manifest.policyId ∧
      p.policyVersion = p.manifest.policyVersion ∧ p.manifestDigest = env.codec.policyManifestDigest p.manifest ∧
      ∀ q ∈ w'.db.policies, q.policyId = p.policyId ∨ q.policyVersion = p.policyVersion → q = p) ∧
    (∀ g ∈ w.db.groups, (∃ p ∈ w.db.policies, p.policyId = g.policyId) ∧ ∃ g' ∈ w'.db.groups, g'.fixed = g.fixed) ∧
    (∀ a ∈ w.db.assignments, (∃ p ∈ w.db.policies, p.policyId = a.policyId ∧ p.manifestDigest = a.policyManifestDigest ∧
      a.assignment.policy.policyId = p.policyId ∧
      env.codec.policyManifestDigest a.assignment.policy = p.manifestDigest) ∧
      ∃ a' ∈ w'.db.assignments, a'.fixed = a.fixed) ∧
    (∀ s : Step, ∀ g ∈ (s.run env w).db.groups, g.groupId ∉ w.db.groups.map (·.groupId) → g.sourceId ≠ none →
      ∃ active ∈ w.db.activePolicy?, active.policyId = g.policyId ∧
        ∀ a ∈ (s.run env w).db.assignments, a.groupId = g.groupId → a.policyId = active.policyId) ∧
    (∀ s : Step, s.call.atomic = true → ¬ s.Returned env w → (s.run env w).db = w.db) := by
  intro w w'
  have hrun : ∀ (l : List Step) (v : World), (∀ s ∈ l, ∀ m ∈ s.call.manifests, m.Valid env.codec) →
      Filed env.codec v.db.toTables → Filed env.codec (runFrom env v l).db.toTables ∧
        PoliciesGrow v.db.toTables (runFrom env v l).db.toTables ∧ Kept v.db.toTables (runFrom env v l).db.toTables :=
    fun l v hl hf => runFrom_holds (I := fun _ d => Filed env.codec d.toTables)
      (R := fun d d' => PoliciesGrow d.toTables d'.toTables ∧ Kept d.toTables d'.toTables)
      (fun _ _ _ _ h => h) (fun _ => ⟨.refl _, List.prefix_rfl, List.prefix_rfl⟩)
      (fun _ _ _ h₁ h₂ => ⟨h₁.1.trans h₂.1, h₁.2.groups.trans h₂.2.groups, h₁.2.assignments.trans h₂.2.assignments⟩)
      l v (fun s hs _ _ _ hf h => commit_kept hf (hl s hs) h) hf
  obtain ⟨hf, _⟩ := hrun steps World.fresh (fun s hs => hv s (List.mem_append_left _ hs))
    ⟨fun p hp => absurd hp List.not_mem_nil, fun a ha => absurd ha List.not_mem_nil⟩
  have hw' : w' = runFrom env w more := runFrom_append env World.fresh steps more
  obtain ⟨_, hgrow, hkept⟩ := hrun more w (fun s hs => hv s (List.mem_append_right _ hs)) hf
  rw [← hw'] at hgrow hkept
  refine ⟨hgrow.active, fun p hp => ?_, fun g hg => ⟨w.db.ok.groups.policy g hg, ?_⟩, fun a ha => ⟨?_, ?_⟩,
    fun s g hg hnew hs => ?_, fun s hc h => Step.refused hc h⟩
  · have hfp := hf.policies p hp
    have hp' := hgrow.policies.subset hp
    refine ⟨hp', hfp.id, hfp.version, hfp.digest, fun q hq he => ?_⟩
    rcases he with he | he
    · exact Rows.eq_of_key _ w'.db.ok.policies.key hq hp' he
    · exact Rows.eq_of_key _ w'.db.ok.policies.version hq hp' he
  · exact List.mem_map.1 (hkept.groups.subset (List.mem_map_of_mem hg))
  · obtain ⟨p, hp, hid, hd⟩ := w.db.ok.assignments.policy a ha
    obtain ⟨h₁, h₂⟩ := hf.assignments a ha
    exact ⟨p, hp, hid, hd, h₁.trans hid.symm, h₂.trans hd.symm⟩
  · exact List.mem_map.1 (hkept.assignments.subset (List.mem_map_of_mem ha))
  · obtain ⟨active, hact, hid⟩ := made_active hg hnew hs
    refine ⟨active, hact, hid, fun a ha hag => ?_⟩
    obtain ⟨r, hr, hrid, hpol⟩ := (s.run env w).db.ok.assignments.group a ha
    rw [Rows.eq_of_key _ (s.run env w).db.ok.groups.key hr hg (hrid.trans hag)] at hpol
    exact hpol.symm.trans hid.symm

namespace Sample

/-- A manifest with the id its contents have. -/
def manifest (version : Nat) (adapter : Option AdapterManifest) : PolicyManifest :=
  let m : PolicyManifest := ⟨"run", version, "base", adapter, 0, ""⟩
  { m with policyId := codec.policyId m.identity }

theorem manifest_valid {version : Nat} {adapter : Option AdapterManifest} (h : version = 0 ↔ adapter = none) :
    (manifest version adapter).Valid codec := ⟨rfl, h⟩

/-- A run that makes a group, then records a second policy and activates it. -/
def published : List Step :=
  [.initializeRun (manifest 0 none), .registerSchedulerSource source, .createNextGroup none draws.group (fun _ => true)].map
    step

def activated : List Step :=
  [.recordAndActivatePolicy (manifest 1 (some ⟨"adapter"⟩)) "v1" (some (manifest 1 (some ⟨"adapter"⟩)))].map step

end Sample

theorem policies_never_change_sample :
    let w' := reached Sample.env (Sample.published ++ Sample.activated)
    (∃ active ∈ w'.db.activePolicy?, active.policyVersion = 1) ∧
      ∃ g ∈ w'.db.groups, g.policyId = (Sample.manifest 0 none).policyId := by
  have hv : ∀ s ∈ Sample.published ++ Sample.activated, ∀ m ∈ s.call.manifests, m.Valid Sample.env.codec := by
    have hbase : (Sample.manifest 0 none).Valid Sample.codec := Sample.manifest_valid (by decide)
    have hnext : (Sample.manifest 1 (some ⟨"adapter"⟩)).Valid Sample.codec := Sample.manifest_valid (by decide)
    simp only [Sample.published, Sample.activated, List.map_cons, List.map_nil, List.cons_append, List.nil_append,
      List.forall_mem_cons, Sample.step, Call.manifests, Option.toList_some, List.not_mem_nil, false_implies,
      implies_true, and_true]
    exact ⟨hbase, trivial, trivial, hnext, hnext⟩
  have hactive : ∃ active ∈ (reached Sample.env (Sample.published ++ Sample.activated)).db.activePolicy?,
      active.policyVersion = 1 := by decide +kernel
  have hmade : ∃ g ∈ (reached Sample.env Sample.published).db.groups,
      g.policyId = (Sample.manifest 0 none).policyId := by decide +kernel
  obtain ⟨g, hg, hp⟩ := hmade
  obtain ⟨g', hg', he⟩ := ((policies_never_change Sample.env Sample.published Sample.activated hv).2.2.1 g hg).2
  have hp' : g'.policyId = g.policyId := congrArg (·.policyId) he
  exact ⟨hactive, g', hg', hp'.trans hp⟩

end Aether
