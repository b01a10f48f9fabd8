import AetherRl.HandoffDisk
import AetherRl.Machine
import AetherRl.RepoAccounts
import AetherRl.RepoPolicies
import Mathlib.Logic.Relation
/-!
# HandoffRecords — the record store of the handoff is what the repository keeps

`recordsOf` reads the handoff's records off the tables.  Each call the runtime makes moves them as `Records` says:
`record_training_batch` appends the next step, `record_and_activate_policy` records the next version and activates it,
and nothing else touches them.
-/
namespace Aether
namespace Handoff

open Txn (Returns returns_bind returns_pure returns_orRaise returns_raiseIf)
open Tables Repo

variable {env : Env} {now : Time} {d d' : Db}

def batchRecord (b : BatchRow) : TrainingBatchRecord := ⟨b.step.toNat, b.sizeBytes.toNat, b.artifactDigest⟩

/-- What the tables say of the handoff; the base policy is no version of the trainer's. -/
def recordsOf (t : Tables) : Records where
  batches := t.batches.map batchRecord
  policies := (t.policies.filter fun q => q.policyVersion ≠ 0).map fun q => (q.policyVersion, q.manifestDigest)
  active := (t.activePolicy?.map (·.policyVersion)).getD 0

/-- One move of the record store; the version activated is the next one, or the active one again. -/
inductive Records.Move : Records → Records → Prop
  | stay (r : Records) : Move r r
  | record (r : Records) (sizeBytes : Nat) (artifactDigest : Digest) :
    Move r (r.recordTrainingBatch sizeBytes artifactDigest)
  | activate {r r' : Records} (version : Nat) (digest : Digest) (hnext : version ≤ r.active + 1)
    (h : r.recordAndActivatePolicy version digest = some r') : Move r r'

/-- The calls of a coordinator at work: it records a policy only together with activating it. -/
def runtimeCall : Call → Bool
  | .recordPolicy _ _ _ | .activatePolicy _ _ => false
  | _ => true

/-- A step of a coordinator at work in `w`: it publishes `active.policy_version + 1`, and a policy it publishes is one
`load_policy_manifest` validates. -/
structure RuntimeStep (env : Env) (w : World) (s : Step) : Prop where
  call : runtimeCall s.call = true
  valid : ∀ m ∈ s.call.manifests, m.Valid env.codec
  next : ∀ m ∈ s.call.manifests, m.policyVersion ≤ (recordsOf w.db.toTables).active + 1

/-- The steps of a coordinator at work, from `w` on. -/
def AtWork (env : Env) (w : World) (steps : List Step) : Prop :=
  Machine.Meets (fun w s => some (s.run env w)) (RuntimeStep env) w steps

/-- What the policies and the run say is read off them alone. -/
theorem recordsOf_batches {t t' : Tables} (hp : t'.policies = t.policies) (hr : t'.run = t.run) :
    recordsOf t' = { recordsOf t with batches := t'.batches.map batchRecord } := by
  have hactive : t'.activePolicy? = t.activePolicy? := by
    rw [Tables.activePolicy?, Tables.activePolicy?, hr]
    congr 1
    funext r
    rw [Tables.policy?, Tables.policy?, hp]
  rw [recordsOf, recordsOf, hp, hactive]

theorem recordsOf_congr {t t' : Tables} (hb : t'.batches = t.batches) (hp : t'.policies = t.policies)
    (hr : t'.run = t.run) : recordsOf t' = recordsOf t := by
  rw [recordsOf_batches hp hr, hb]
  rfl

theorem recordsOf_active {q : PolicyRow} (h : d.activePolicy? = some q) :
    (recordsOf d.toTables).active = q.policyVersion := by
  rw [recordsOf, h]
  rfl

/-- What recording a policy finds or inserts. -/
theorem returns_recordPolicy_cases {verified : PolicyManifest} {path : String} {u : Unit}
    (h : Returns (recordPolicyInTransaction env verified path) d u d') :
    (d' = d ∧ ∃ x ∈ d.policies, (x.policyId = verified.policyId ∨ x.policyVersion = verified.policyVersion) ∧
      x.manifestDigest = env.codec.policyManifestDigest verified) ∨
    ((∀ x ∈ d.policies, x.policyVersion ≠ verified.policyVersion) ∧
      d'.policies = d.policies ++ [policyRow env verified (some path)]) := by
  simp only [recordPolicyInTransaction, Repo.run, returns_bind, returns_tables, returns_orRaise, returns_raiseIf] at h
  obtain ⟨_, d₁, ⟨_, _, ⟨rfl, rfl⟩, _, rfl⟩, _, _, ⟨_, rfl⟩, _, _, ⟨rfl, rfl⟩, h⟩ := h
  split at h
  · rename_i x hx
    rw [returns_raiseIf, not_not] at h
    refine Or.inl ⟨h.2, x, List.mem_of_find?_eq_some hx, ?_, h.1.1⟩
    have hfound := List.find?_some hx
    rwa [Bool.or_eq_true, decide_eq_true_eq, decide_eq_true_eq] at hfound
  · rename_i hx
    rw [returns_exec] at h
    refine Or.inr ⟨fun x hmem hv => ?_, by rw [h]; rfl⟩
    have hfound := List.find?_eq_none.1 hx x hmem
    rw [decide_eq_true hv, Bool.or_true] at hfound
    exact hfound rfl

/-- The first activation of a run is of the base policy. -/
theorem returns_initializeRun_active {m : PolicyManifest} {u : Unit}
    (h : Returns (initializeRunBody m (env.codec.policyManifestDigest m)) d u d') :
    recordsOf d'.toTables = recordsOf d.toTables := by
  simp only [initializeRunBody, returns_bind, returns_tables] at h
  obtain ⟨_, d₀, ⟨rfl, rfl⟩, h⟩ := h
  split at h
  · simp only [returns_bind, returns_tables, returns_orRaise, returns_raiseIf] at h
    obtain ⟨_, _, ⟨rfl, rfl⟩, _, _, ⟨_, rfl⟩, _, rfl⟩ := h
    rfl
  · rename_i hnone
    simp only [returns_bind, returns_exec] at h
    obtain ⟨_, d₁, h₁, h₂⟩ := h
    have hbatches : d'.batches = d₀.batches := by rw [h₂, insertRun_batches, h₁, insertPolicy_batches]
    have hpolicies := congrArg Tables.policies h₂
    rw [insertRun_policies, h₁, insertPolicy_policies] at hpolicies
    obtain ⟨q, hq, hid, hactive⟩ := activePolicy?_of_run (d := d') (by rw [h₂, insertRun_run])
    have hrow : q.policyVersion = 0 := by
      rw [Rows.eq_of_key _ d'.ok.policies.key hq (hpolicies ▸ List.mem_append_right _ (List.mem_singleton_self _)) hid]
    rw [recordsOf, recordsOf, hactive, hbatches, hpolicies, List.filter_append, List.filter_singleton,
      Tables.activePolicy?, hnone]
    simp [hrow]

theorem mem_recordsOf_policies {t : Tables} {q : Nat × Digest} :
    q ∈ (recordsOf t).policies ↔ ∃ x ∈ t.policies, x.policyVersion ≠ 0 ∧ q = (x.policyVersion, x.manifestDigest) := by
  rw [recordsOf, List.mem_map]
  constructor
  · rintro ⟨x, hx, rfl⟩
    rw [List.mem_filter, decide_eq_true_eq] at hx
    exact ⟨x, hx.1, hx.2, rfl⟩
  · rintro ⟨x, hx, h0, rfl⟩
    exact ⟨x, List.mem_filter.2 ⟨hx, decide_eq_true h0⟩, rfl⟩

/-- A version is recorded once. -/
theorem recordsOf_find {x : PolicyRow} (hx : x ∈ d.policies) (h0 : x.policyVersion ≠ 0) :
    (recordsOf d.toTables).policies.find? (fun q => q.1 = x.policyVersion) =
      some (x.policyVersion, x.manifestDigest) := by
  cases hfind : (recordsOf d.toTables).policies.find? (fun q => q.1 = x.policyVersion) with
  | none =>
    have hno := List.find?_eq_none.1 hfind _ (mem_recordsOf_policies.2 ⟨x, hx, h0, rfl⟩)
    exact absurd (decide_eq_true rfl) hno
  | some q =>
    obtain ⟨y, hy, _, rfl⟩ := mem_recordsOf_policies.1 (List.mem_of_find?_eq_some hfind)
    have hv := List.find?_some hfind
    rw [decide_eq_true_eq] at hv
    rw [Rows.eq_of_key _ d.ok.policies.version hy hx hv]

/-- **What `record_and_activate_policy` commits is what the record store does.** -/
theorem recordsOf_activate {verified : PolicyManifest} {path : String} {u : Unit}
    (hf : ∀ q ∈ d.policies, q.Filed env.codec)
    (hv : verified.Valid env.codec) (h0 : verified.policyVersion ≠ 0)
    (h : Returns (recordAndActivateBody env verified path now) d u d') (hb : d'.batches = d.batches) :
    (recordsOf d.toTables).recordAndActivatePolicy verified.policyVersion (env.codec.policyManifestDigest verified) =
      some (recordsOf d'.toTables) := by
  simp only [recordAndActivateBody, returns_bind] at h
  obtain ⟨_, d₁, h₁, h₂⟩ := h
  obtain ⟨⟨active, hactive, hle⟩, hpol, hrun⟩ := returns_activate h₂
  have hrun₁ : d₁.run = d.run :=
    writes_recordPolicyInTransaction (S := [.policies]) _ _ _ (by decide) _ _ _ h₁ .run (by decide)
  obtain ⟨r, hr, _⟩ := run_of_activePolicy? hactive
  have hpol₁ : d.policies <+: d₁.policies ∧ ∀ q ∈ d₁.policies, q.Filed env.codec := by
    rcases returns_recordPolicyInTransaction h₁ with rfl | hpol₁
    · exact ⟨List.prefix_rfl, hf⟩
    · exact ⟨hpol₁ ▸ List.prefix_append _ _, filed_append hv hf hpol₁⟩
  -- the version compared is the active one of the store
  have hle' : (recordsOf d.toTables).active ≤ verified.policyVersion := by
    obtain ⟨q, hq, hid, hact⟩ := activePolicy?_of_run (hrun₁ ▸ hr)
    obtain ⟨q', hq', hgrow⟩ := (PoliciesGrow.of_run hpol₁.1 hrun₁).active q hact
    rw [recordsOf_active hact]
    rw [Option.mem_unique hq' hactive] at hgrow
    exact hgrow.trans hle
  -- and the one stored has the version given
  have hactive' : (recordsOf d'.toTables).active = verified.policyVersion := by
    rw [hr, Option.map_some] at hrun
    obtain ⟨q, hq, hid, hact⟩ := activePolicy?_of_run hrun
    have hfiled := hpol₁.2 q (hpol ▸ hq)
    rw [recordsOf_active hact, hfiled.version]
    exact hfiled.valid.version_eq hv (hfiled.id.symm.trans hid)
  have hrecords : ∀ policies, ((d'.policies.filter fun q => q.policyVersion ≠ 0).map fun q =>
      (q.policyVersion, q.manifestDigest)) = policies →
      recordsOf d'.toTables = ⟨(recordsOf d.toTables).batches, policies, verified.policyVersion⟩ := by
    rintro policies rfl
    rw [← hactive', recordsOf, recordsOf, hb]
  rw [Records.recordAndActivatePolicy]
  rcases returns_recordPolicy_cases h₁ with ⟨rfl, x, hx, hsame, hdigest⟩ | ⟨hnew, hpol₂⟩
  · have hxv : x.policyVersion = verified.policyVersion := by
      rcases hsame with hid | hver
      · have hfx := hf x hx
        rw [hfx.version]
        exact hfx.valid.version_eq hv (hfx.id.symm.trans hid)
      · exact hver
    have hfind := recordsOf_find hx (hxv ▸ h0)
    rw [hxv] at hfind
    rw [hfind]
    refine (if_pos ⟨hdigest, hle'⟩).trans (congrArg some ?_)
    rw [hrecords _ rfl, hpol]
    rfl
  · have hfind : (recordsOf d.toTables).policies.find? (fun q => q.1 = verified.policyVersion) = none := by
      rw [List.find?_eq_none]
      intro q hq heq
      obtain ⟨y, hy, _, rfl⟩ := mem_recordsOf_policies.1 hq
      exact hnew y hy (of_decide_eq_true heq)
    rw [hfind]
    refine (if_pos hle').trans (congrArg some ?_)
    rw [hrecords _ rfl, hpol, hpol₂, List.filter_append, List.map_append]
    simp [policyRow, h0, recordsOf]

theorem prepareTrainedPolicyRecord_adapter {m verified : PolicyManifest} {onDisk : Option PolicyManifest}
    (h : prepareTrainedPolicyRecord env m onDisk = .ok verified) : verified.adapter ≠ none := by
  unfold prepareTrainedPolicyRecord at h
  split at h
  · cases h
  · split at h
    · cases h
    · split at h
      · cases h
      · rename_i hadapter
        split at h
        · cases h
        · rw [Except.ok.injEq] at h
          exact h ▸ hadapter

/-! ## Every call -/

/-- A move never lowers the active version. -/
theorem Records.Move.active_le {r r' : Records} (h : r.Move r') : r.active ≤ r'.active := by
  cases h with
  | stay => exact le_rfl
  | record => exact le_rfl
  | activate version digest _ h =>
    rw [Records.recordAndActivatePolicy] at h
    split at h <;> split at h
    case isTrue hle =>
      rw [Option.some.injEq] at h
      exact h ▸ hle.2
    case isTrue hle =>
      rw [Option.some.injEq] at h
      exact h ▸ hle
    all_goals cases h

/-- **Every commit of a call the runtime makes is a move of the record store.** -/
theorem commit_moves {c : Call} (hc : runtimeCall c = true) (hv : ∀ m ∈ c.manifests, m.Valid env.codec)
    (hnext : ∀ m ∈ c.manifests, m.policyVersion ≤ (recordsOf d.toTables).active + 1)
    (hf : ∀ q ∈ d.policies, q.Filed env.codec) (hn : d.toTables.Numbered) (h : Commit env now d d' c) :
    (recordsOf d.toTables).Move (recordsOf d'.toTables) ∧ d'.toTables.Numbered := by
  have hnumbered : d'.batches = d.batches → d'.toTables.Numbered := fun hb => by
    rw [Tables.Numbered, hb]
    exact hn
  by_cases hw : .run ∈ c.writes ∨ .policies ∈ c.writes ∨ .batches ∈ c.writes
  · cases c
    case initializeRun m =>
      have hb : d'.batches = d.batches := commit_rows h .batches (by simp only [Call.writes]; decide)
      obtain ⟨_, u, h⟩ := h
      rw [returns_initializeRun_active h]
      exact ⟨.stay _, hnumbered hb⟩
    case recordAndActivatePolicy m path onDisk =>
      have hb : d'.batches = d.batches := commit_rows h .batches (by simp only [Call.writes]; decide)
      obtain ⟨verified, hver, u, h⟩ := h
      have hmem : verified ∈ (Call.recordAndActivatePolicy m path onDisk).manifests :=
        List.mem_cons_of_mem _ (Option.mem_toList.2 (prepareTrainedPolicyRecord_ok hver))
      have hvalid := hv verified hmem
      have h0 : verified.policyVersion ≠ 0 := fun h0 => prepareTrainedPolicyRecord_adapter hver (hvalid.adapter.1 h0)
      exact ⟨.activate _ _ (hnext verified hmem) (recordsOf_activate hf hvalid h0 h hb), hnumbered hb⟩
    case recordTrainingBatch b =>
      have hpol : d'.policies = d.policies := commit_rows h .policies (by simp only [Call.writes]; decide)
      have hrun : d'.run = d.run := commit_rows h .run (by simp only [Call.writes]; decide)
      obtain ⟨u, h⟩ := h
      rcases returns_recordTrainingBatchBody h with ⟨rfl, _⟩ | ⟨_, hstep, _, _, ht⟩
      · exact ⟨.stay _, hn⟩
      · have hbatches : d'.batches = d.batches ++ [b.row now] := by rw [ht]; rfl
        rw [hn.next] at hstep
        refine ⟨?_, hn.append hbatches hstep⟩
        have hrec : recordsOf d'.toTables =
            (recordsOf d.toTables).recordTrainingBatch b.sizeBytes.toNat b.artifactDigest := by
          have hlen : (recordsOf d.toTables).batches.length = d.batches.length := List.length_map ..
          have hrow : batchRecord (b.row now) = ⟨d.batches.length + 1, b.sizeBytes.toNat, b.artifactDigest⟩ := by
            change TrainingBatchRecord.mk b.step.toNat b.sizeBytes.toNat b.artifactDigest = _
            rw [hstep, Int.toNat_natCast_add_one]
          rw [recordsOf_batches hpol hrun, Records.recordTrainingBatch, hlen, hbatches, List.map_append,
            List.map_singleton, hrow]
          rfl
        rw [hrec]
        exact .record _ _ _
    all_goals first | exact absurd hw (by simp only [Call.writes]; decide) | cases hc
  · rw [not_or, not_or] at hw
    have hb : d'.batches = d.batches := commit_rows h .batches hw.2.2
    rw [recordsOf_congr hb (commit_rows h .policies hw.2.1) (commit_rows h .run hw.1)]
    exact ⟨.stay _, hnumbered hb⟩

/-- What the moves of the record store need of the tables. -/
structure Booked (env : Env) (d : Db) : Prop where
  filed : ∀ q ∈ d.policies, q.Filed env.codec
  numbered : d.toTables.Numbered

theorem Booked.fresh (env : Env) : Booked env World.fresh.db := ⟨fun _ hq => absurd hq List.not_mem_nil, rfl⟩

/-- **Every step of a coordinator at work moves the records only as the store's operations do.**  The version published
is compared with the active one of the state before the step; no commit of the step lowers it on the way. -/
theorem RuntimeStep.moves {w : World} {s : Step} (hs : RuntimeStep env w s) (hw : Booked env w.db) :
    Booked env (s.run env w).db ∧
      Relation.ReflTransGen Records.Move (recordsOf w.db.toTables) (recordsOf (s.run env w).db.toTables) := by
  have h := step_holds (w := w) (s := s)
    (I := fun _ d => Booked env d ∧ (recordsOf w.db.toTables).active ≤ (recordsOf d.toTables).active)
    (R := fun d d' => Relation.ReflTransGen Records.Move (recordsOf d.toTables) (recordsOf d'.toTables))
    (fun _ _ _ _ h => h) (fun _ => .refl) (fun _ _ _ h₁ h₂ => h₁.trans h₂)
    (fun now d d' hi hcommit => by
      have hnext : ∀ m ∈ s.call.manifests, m.policyVersion ≤ (recordsOf d.toTables).active + 1 := fun m hm =>
        (hs.next m hm).trans (Nat.add_le_add_right hi.2 1)
      obtain ⟨hmove, hn⟩ := commit_moves hs.call hs.valid hnext hi.1.filed hi.1.numbered hcommit
      exact ⟨⟨⟨(commit_policies hs.valid hi.1.filed hcommit).1, hn⟩, hi.2.trans hmove.active_le⟩, .single hmove⟩)
    ⟨hw, le_rfl⟩
  exact ⟨h.1.1, h.2⟩

theorem AtWork.moves : ∀ (steps : List Step) {w : World}, AtWork env w steps → Booked env w.db →
    Booked env (runFrom env w steps).db ∧
      Relation.ReflTransGen Records.Move (recordsOf w.db.toTables) (recordsOf (runFrom env w steps).db.toTables)
  | [], _, _, hw => ⟨hw, .refl⟩
  | s :: steps, w, h, hw => by
    obtain ⟨hbooked, hmove⟩ := h.1.moves hw
    obtain ⟨hbooked', hmoves⟩ := AtWork.moves steps (h.2 (s.run env w) rfl) hbooked
    exact ⟨hbooked', hmove.trans hmoves⟩

theorem AtWork.split : ∀ (steps : List Step) {more : List Step} {w : World}, AtWork env w (steps ++ more) →
    AtWork env w steps ∧ AtWork env (runFrom env w steps) more
  | [], _, _, h => ⟨trivial, h⟩
  | s :: steps, _, w, h => by
    obtain ⟨h₁, h₂⟩ := AtWork.split steps (h.2 (s.run env w) rfl)
    exact ⟨⟨h.1, fun t ht => Option.some.inj ht ▸ h₁⟩, h₂⟩

/-- **The repository refines the record store**: over any run of a coordinator at work, crashed calls included, the
records the handoff is stated over start empty, and from any point of the run to any later one they move only as the
store's own operations move them: the next batch recorded, the next version recorded and activated. -/
theorem records_refined (env : Env) (steps more : List Step) (h : AtWork env World.fresh (steps ++ more)) :
    recordsOf World.fresh.db.toTables = ⟨[], [], 0⟩ ∧
    Relation.ReflTransGen Records.Move (recordsOf (reached env steps).db.toTables)
      (recordsOf (reached env (steps ++ more)).db.toTables) := by
  obtain ⟨hsteps, hmore⟩ := AtWork.split steps h
  rw [reached, reached, runFrom_append]
  exact ⟨rfl, (AtWork.moves more hmore (AtWork.moves steps hsteps (Booked.fresh env)).1).2⟩

/-- A policy recorded and activated after the first group of the base policy. -/
theorem records_refined_sample :
    Relation.ReflTransGen Records.Move (recordsOf (reached Aether.Sample.env Aether.Sample.published).db.toTables)
      (recordsOf (reached Aether.Sample.env (Aether.Sample.published ++ Aether.Sample.activated)).db.toTables) ∧
    (recordsOf (reached Aether.Sample.env (Aether.Sample.published ++ Aether.Sample.activated)).db.toTables).active
      = 1 := by
  have hbase : (Aether.Sample.manifest 0 none).Valid Aether.Sample.codec := Aether.Sample.manifest_valid (by decide)
  have hnext : (Aether.Sample.manifest 1 (some ⟨"adapter"⟩)).Valid Aether.Sample.codec :=
    Aether.Sample.manifest_valid (by decide)
  have quiet (w : World) (c : Call) (hc : runtimeCall c = true) (hm : c.manifests = []) :
      RuntimeStep Aether.Sample.env w (Aether.Sample.step c) :=
    ⟨hc, fun m h => absurd (hm ▸ h) List.not_mem_nil, fun m h => absurd (hm ▸ h) List.not_mem_nil⟩
  have hwork : AtWork Aether.Sample.env World.fresh (Aether.Sample.published ++ Aether.Sample.activated) := by
    refine ⟨⟨rfl, ?_, ?_⟩, fun w _ => ⟨quiet w _ rfl rfl, fun w _ => ⟨quiet w _ rfl rfl, fun w _ => ⟨⟨rfl, ?_, ?_⟩,
      fun _ _ => trivial⟩⟩⟩⟩
    · exact List.forall_mem_singleton.2 hbase
    · exact List.forall_mem_singleton.2 (Nat.zero_le _)
    · exact List.forall_mem_cons.2 ⟨hnext, List.forall_mem_singleton.2 hnext⟩
    · exact List.forall_mem_cons.2 ⟨Nat.le_add_left _ _, List.forall_mem_singleton.2 (Nat.le_add_left _ _)⟩
  exact ⟨(records_refined Aether.Sample.env Aether.Sample.published Aether.Sample.activated hwork).2,
    by decide +kernel⟩

end Handoff
end Aether
