import AetherRl.PolicyPublishSound
/-!
# PolicyRepublish — publishing a policy once more

A policy is named by its version and by what it is, which does not say when it was created.  A call that publishes one
that is there already answers with the one that is there, and no call raises for what an earlier one left behind.
-/
namespace Aether
namespace Publish

variable {δ ι : Type} {lib : Libraries δ} {args : ι → Args δ}

/-! ## What is published, whenever it is -/

/-- The digest of the policy a call publishes; it does not read `created_at`. -/
def policyDigest (lib : Libraries δ) (a : Args δ) : Except Raised Digest := do
  let targetModules ← prepare a
  let weights ← saveWeights lib a
  let config ← canonicalJsonBytes lib (adapterConfig a targetModules)
  let adapter ← createAdapterManifest lib
    [adapterFile lib adapterConfigName config, adapterFile lib adapterWeightsName weights] a.rank a.alpha targetModules
  sha256Json lib (Identity.json ⟨a.runId, a.policyVersion, a.baseModel, some adapter.digest⟩)

/-- What `PolicyManifest(...)` holds. -/
theorem createPolicyManifest_eq_ok {runId : String} {version : Int} {baseModel : BaseModelIdentity}
    {adapter : AdapterManifest} {createdAt : Number} {policy : Manifest} :
    createPolicyManifest lib runId version baseModel adapter createdAt = .ok policy ↔
      ∃ created digest, toFloat lib createdAt = .ok created ∧ isOpaqueId runId = true ∧ 0 < version ∧
        created.finite?.any (fun q => decide (0 ≤ q)) = true ∧
        sha256Json lib (Identity.json ⟨runId, version, baseModel, some adapter.digest⟩) = .ok digest ∧
        policy = ⟨runId, version, baseModel, some adapter, created, policyIdOf version digest, policyIdOf version digest⟩ := by
  have hdated : ∀ created : PyFloat, created.finite?.any (fun q => decide (0 ≤ q)) = true ↔
      ¬ (created.finite?.all (fun q => decide (0 ≤ q)) = false ∨ created.finite? = none) := fun created => by
    cases created.finite? <;> simp
  rw [createPolicyManifest]
  simp only [Checked.bind_eq_ok]
  constructor
  · rintro ⟨created, hcreated, h⟩
    split at h
    · obtain ⟨_, h, _⟩ := h
    · rename_i hvalid
      simp only [Checked.bind_eq_ok, Checked.pure_eq_ok] at h
      obtain ⟨digest, hdigest, rfl⟩ := h
      simp only [not_or, Bool.not_eq_false, not_le] at hvalid
      refine ⟨created, digest, hcreated, hvalid.1, hvalid.2.1, (hdated created).2 ?_, hdigest, rfl⟩
      rw [not_or, Bool.not_eq_false]
      exact hvalid.2.2
  · rintro ⟨created, digest, hcreated, hrun, hversion, hcreatedAt, hdigest, rfl⟩
    refine ⟨created, hcreated, ?_⟩
    rw [if_neg]
    · simp only [Checked.bind_eq_ok, Checked.pure_eq_ok]
      exact ⟨digest, hdigest, rfl⟩
    · rw [hrun, not_or, not_or]
      exact ⟨Bool.noConfusion, hversion.not_ge, (hdated created).1 hcreatedAt⟩

/-- **A policy is the same whenever it is created.** -/
theorem publishes_digest {a : Args δ} {policy : Manifest} (h : publishes lib a = .ok policy) :
    ∃ digest, policyDigest lib a = .ok digest ∧ policyManifestDigest lib policy = .ok digest ∧
      policy.runId = a.runId ∧ policy.policyVersion = a.policyVersion ∧ policy.baseModel = a.baseModel := by
  obtain ⟨modules, weights, config, hprepare, hweights, hconfig, hcreate⟩ := publishes_eq_ok.1 h
  rw [createManifest, Checked.bind_eq_ok] at hcreate
  obtain ⟨adapter, hadapter, hcreate⟩ := hcreate
  obtain ⟨created, digest, _, _, _, _, hdigest, rfl⟩ := createPolicyManifest_eq_ok.1 hcreate
  refine ⟨digest, ?_, hdigest, rfl, rfl, rfl⟩
  rw [policyDigest, hprepare, Checked.ok_bind, hweights, Checked.ok_bind, hconfig, Checked.ok_bind, hadapter,
    Checked.ok_bind, hdigest]

/-- **What can be published can be published later.** -/
theorem publishes_later {a : Args δ} {policy : Manifest} (h : publishes lib a = .ok policy) {t : ℚ} (ht : 0 ≤ t) :
    publishes lib { a with createdAt := .float (.finite t) } = .ok { policy with createdAt := .finite t } := by
  obtain ⟨modules, weights, config, hprepare, hweights, hconfig, hcreate⟩ := publishes_eq_ok.1 h
  rw [createManifest, Checked.bind_eq_ok] at hcreate
  obtain ⟨adapter, hadapter, hcreate⟩ := hcreate
  obtain ⟨created, digest, _, hrun, hversion, _, hdigest, rfl⟩ := createPolicyManifest_eq_ok.1 hcreate
  refine publishes_eq_ok.2 ⟨modules, weights, config, hprepare, hweights, hconfig, ?_⟩
  rw [createManifest, Checked.bind_eq_ok]
  refine ⟨adapter, hadapter, createPolicyManifest_eq_ok.2 ⟨.finite t, digest, rfl, hrun, hversion, ?_, hdigest, rfl⟩⟩
  exact decide_eq_true ht

/-- **The id of a policy names its version.** -/
theorem policyIdOf_version {version version' : Int} {digest digest' : Digest}
    (h : policyIdOf version digest = policyIdOf version' digest') : version.toNat = version'.toNat := by
  unfold policyIdOf at h
  rw [String.append_assoc, String.append_assoc, String.append_assoc, String.append_assoc, String.append_right_inj] at h
  rw [← String.append_assoc, ← String.append_assoc] at h
  exact Numeral.prefix_inj (c := '-') rfl h

/-! ## Calls that nothing befalls -/

/-- A call that runs, and is not about to raise. -/
def Phase.goesOn : Phase → Bool
  | .cleanup _ _ (.raised _) | .ended _ _ _ | .killed _ _ => false
  | _ => true

/-- How many operations a call has before its cleanup. -/
def Phase.rank : Phase → Nat
  | .ready => 11
  | .parent _ => 10
  | .mkdtemp _ => 9
  | .weights _ _ => 8
  | .config _ _ => 7
  | .manifest _ _ => 6
  | .verify _ _ => 5
  | .exists? _ _ => 4
  | .rename _ _ => 3
  | .existing _ _ => 2
  | .sync _ _ _ => 1
  | .cleanup _ _ _ | .ended _ _ _ | .killed _ _ => 0

/-- What a call needs for only an `OSError` to stop it: arguments that make a policy, libraries that read back what they
wrote, and no other policy published under its id. -/
structure Publishable (lib : Libraries δ) (args : ι → Args δ) (s : State ι) (i : ι) (policy : Manifest) : Prop where
  parent : s.parent = .directory
  publishes : publishes lib (args i) = .ok policy
  back : ReadsBack lib (args i)
  dumps : ∃ data, canonicalJsonBytes lib policy.json = .ok data
  agrees : ∀ j policy', (s.phase j).renamed = true → Publish.publishes lib (args j) = .ok policy' →
    policy'.policyId = policy.policyId → policyManifestDigest lib policy' = policyManifestDigest lib policy

section
variable [DecidableEq ι] {s s' : State ι} {i : ι} {policy : Manifest}

theorem Publishable.moves (h : Publishable lib args s i policy) (hm : Moves lib args i s s') (hp : s'.parent = s.parent) :
    Publishable lib args s' i policy where
  parent := hp.trans h.parent
  publishes := h.publishes
  back := h.back
  dumps := h.dumps
  agrees j policy' hr hpub hid := by
    by_cases hj : j = i
    · subst hj
      rw [Except.ok.inj (hpub.symm.trans h.publishes)]
    · exact h.agrees j policy' (hm.others j hj ▸ hr) hpub hid

omit [DecidableEq ι] in
/-- **A policy that is there is the one that is published.** -/
theorem Publishable.existing (h : Publishable lib args s i policy) (hs : Sound lib args s) {d : Directory}
    (hd : s.directories (finalName policy) = some d) : ∃ answer, verifyExisting lib s policy = .ok answer := by
  have hfinal : ¬ isTemporary (finalName policy) := not_isTemporary h.publishes
  obtain ⟨j, answer, hr, hpub, hid, hv⟩ := hs.final _ d hfinal hd
  obtain ⟨hplain, digest, hanswer, _⟩ := verify_forget hv
  refine ⟨answer, ?_⟩
  rw [verifyExisting, hd]
  simp only [Checked.bind_eq_ok]
  refine ⟨answer, hplain, digest, hanswer, digest, (h.agrees j answer hr hpub hid).symm.trans hanswer, ?_⟩
  rw [if_neg (not_not.2 rfl)]
  rfl

/-- **An operation of such a call succeeds.** -/
theorem Publishable.goes (h : Publishable lib args s i policy) (hs : Sound lib args s) (hrank : 1 ≤ (s.phase i).rank)
    (hdraw : ∀ modules, s.phase i ≠ .mkdtemp modules) : ∃ s', stepCall lib args s i = some s' ∧
      (s'.phase i).rank < (s.phase i).rank ∧ (s'.phase i).goesOn = true := by
  obtain ⟨modules, weights, config, hprepare, hweights, hconfig, hcreate⟩ := publishes_eq_ok.1 h.publishes
  have hcall := hs.call i
  have hto : ∀ (s₁ : State ι) (phase : Phase), phase.rank < (s.phase i).rank → phase.goesOn = true →
      ∃ s', some (s₁.goes i phase) = some s' ∧ (s'.phase i).rank < (s.phase i).rank ∧ (s'.phase i).goesOn = true :=
    fun s₁ phase hlt hr => ⟨_, rfl, by rwa [goes_phase], by rwa [goes_phase]⟩
  unfold stepCall
  cases hp : s.phase i <;> rw [hp] at hcall hto hrank <;> dsimp only
  case ready =>
    rw [hprepare]
    exact hto s (.parent modules) (Nat.lt_succ_self _) rfl
  case parent modules' =>
    rw [h.parent]
    exact hto s (.mkdtemp modules') (Nat.lt_succ_self _) rfl
  case mkdtemp modules' => exact absurd hp (hdraw modules')
  case weights t modules' =>
    rw [hweights]
    exact hto _ (.config t modules') (Nat.lt_succ_self _) rfl
  case config t modules' =>
    obtain rfl := Except.ok.inj (hprepare.symm.trans hcall.1)
    rw [hconfig]
    exact hto _ (.manifest t modules) (Nat.lt_succ_self _) rfl
  case manifest t modules' =>
    obtain ⟨hprepare', weights', config', hweights', hconfig', hd⟩ := hcall
    obtain rfl := Except.ok.inj (hprepare.symm.trans hprepare')
    obtain rfl := Except.ok.inj (hweights.symm.trans hweights')
    obtain rfl := Except.ok.inj (hconfig.symm.trans hconfig')
    obtain ⟨data, hdata⟩ := h.dumps
    have hbuilt : buildManifest lib (args i) modules (s.directories t) = .ok (policy, data) := by
      rw [hd, buildManifest]
      simp only [Checked.bind_eq_ok, Checked.pure_eq_ok]
      exact ⟨config, readBytes_set, weights, by rw [readBytes_set_ne (by decide), readBytes_set], policy, hcreate, data,
        hdata, rfl⟩
    rw [hbuilt]
    exact hto _ (.verify t policy) (Nat.lt_succ_self _) rfl
  case verify t policy' =>
    have hv := hs.verifies hp h.back
    unfold stepCall at hv
    rw [hp] at hv
    dsimp only at hv
    rw [hv]
    exact hto s (.exists? t policy') (Nat.lt_succ_self _) rfl
  case exists? t policy' =>
    split
    · exact hto s (.existing t policy') (Nat.lt_of_succ_lt (Nat.lt_succ_self _)) rfl
    · exact hto s (.rename t policy') (Nat.lt_succ_self _) rfl
  case rename t policy' =>
    split
    · exact hto s (.existing t policy') (Nat.lt_succ_self _) rfl
    · exact hto _ (.sync t true policy') (Nat.lt_of_succ_lt (Nat.lt_succ_self _)) rfl
  case existing t policy' =>
    obtain ⟨hpublishes, hthere⟩ := hcall
    obtain rfl := Except.ok.inj (h.publishes.symm.trans hpublishes)
    obtain ⟨d, hd⟩ := Option.isSome_iff_exists.1 hthere
    obtain ⟨answer, ha⟩ := h.existing hs hd
    rw [ha]
    exact hto s (.sync t false answer) (Nat.lt_succ_self _) rfl
  case sync t renamed answer => exact hto s (.cleanup t renamed (.returned answer)) Nat.zero_lt_one rfl
  all_goals cases hrank

end

/-! ## A call from its beginning to its end -/

/-- An operation of a call, or the `OSError` that comes of one. -/
inductive Operation
  | step
  | draw (name : String)
  | fault (torn : Option Bytes)
  | unlink (name : String)

def Operation.event (i : ι) : Operation → Event ι
  | .step => .step i
  | .draw name => .draw i name
  | .fault torn => .fault i torn
  | .unlink name => .unlink i name

def Operation.name? : Operation → Option String
  | .draw name => some name
  | _ => none

/-- No `OSError` comes of it. -/
def Operation.succeeds : Operation → Bool
  | .fault _ => false
  | _ => true

/-- A call ends with `outcome` by operations none of which raises, and `names` are what `mkdtemp` gives it. -/
def Ends [DecidableEq ι] (lib : Libraries δ) (args : ι → Args δ) (s : State ι) (i : ι) (names : List String)
    (outcome : Outcome) : Prop :=
  ∃ operations : List Operation, (∀ o ∈ operations, o.succeeds = true) ∧
    operations.filterMap Operation.name? = names ∧
    ∃ s' t renamed, Machine.run (next lib args) s (operations.map (Operation.event i)) = some s' ∧
      s'.phase i = .ended t renamed outcome

section
variable [DecidableEq ι] {s s' : State ι} {i : ι} {policy : Manifest} {outcome : Outcome} {names : List String}

theorem Ends.cons {o : Operation} (ho : o.succeeds = true) (hn : next lib args s (o.event i) = some s')
    (h : Ends lib args s' i names outcome) : Ends lib args s i (o.name?.toList ++ names) outcome := by
  obtain ⟨operations, hcalm, rfl, s'', t, renamed, hrun, hp⟩ := h
  refine ⟨o :: operations, List.forall_mem_cons.2 ⟨ho, hcalm⟩, ?_, s'', t, renamed, ?_, hp⟩
  · rw [List.filterMap_cons]
    cases o.name? <;> rfl
  · rw [List.map_cons, Machine.run, hn, Option.bind_some]
    exact hrun

/-- A cleanup whose directory is empty, or gone. -/
theorem ends_empty {t : String} {renamed : Bool} (hp : s.phase i = .cleanup t renamed outcome)
    (hempty : ∀ d, s.directories t = some d → d.entries = []) : Ends lib args s i [] outcome := by
  have hlast : ∀ s', next lib args s (.step i) = some s' → s'.phase i = .ended (some t) renamed outcome →
      Ends lib args s i [] outcome := fun s' hn hended =>
    .cons (o := .step) rfl hn ⟨[], fun _ h => absurd h List.not_mem_nil, rfl, s', some t, renamed, rfl, hended⟩
  cases hdir : s.directories t with
  | none =>
    refine hlast (s.goes i (.ended (some t) renamed outcome)) ?_ (goes_phase ..)
    rw [next, stepCall, hp]
    dsimp only
    rw [hdir]
  | some d =>
    refine hlast ((s.put t none).goes i (.ended (some t) renamed outcome)) ?_ (goes_phase ..)
    rw [next, stepCall, hp]
    dsimp only
    rw [hdir]
    exact if_pos (List.isEmpty_iff.2 (hempty d hdir))

/-- **A cleanup ends**: each file of its directory is unlinked in turn. -/
theorem ends_cleanup {t : String} {renamed : Bool} (n : Nat) : ∀ {s : State ι}, s.phase i = .cleanup t renamed outcome →
    (∀ d, s.directories t = some d → d.entries.length ≤ n) → Ends lib args s i [] outcome := by
  induction n with
  | zero => exact fun hp hd => ends_empty hp fun d hdir => List.length_eq_zero_iff.1 (Nat.le_zero.1 (hd d hdir))
  | succ n ih =>
    intro s hp hd
    by_cases hfull : ∃ d, s.directories t = some d ∧ d.entries ≠ []
    swap
    · exact ends_empty hp fun d hdir => not_not.1 fun hne => hfull ⟨d, hdir, hne⟩
    obtain ⟨d, hdir, hne⟩ := hfull
    obtain ⟨entry, hentry⟩ := List.exists_mem_of_ne_nil _ hne
    have hget : d.get? entry.1 = some entry.2 := Dict.get?_of_mem hentry
    have hunlink : next lib args s (.unlink i entry.1) = some (s.put t (some (d.erase entry.1))) := by
      rw [next, hp]
      dsimp only
      rw [hdir]
      exact if_pos (Option.isSome_of_eq_some hget)
    refine .cons (o := .unlink entry.1) rfl hunlink (ih hp fun d' hd' => ?_)
    rw [put_self] at hd'
    cases hd'
    have hlt := Dict.length_erase (d := d) (k := entry.1) (by rw [hget]; exact Option.some_ne_none _)
    have hle := hd d hdir
    omega

theorem temporary_of_rank {phase : Phase} (h : 9 ≤ phase.rank) : phase.temporary? = none := by
  cases phase with
  | ready | parent | mkdtemp => rfl
  | _ =>
    rw [Phase.rank] at h
    omega

/-- What a call needs of the name it will be given. -/
def Unused (s : State ι) (i : ι) (name : String) : Prop :=
  9 ≤ (s.phase i).rank → isTemporary name ∧ name ∉ s.drawn ∧ s.directories name = none

/-- **Such a call returns**: each of its operations succeeds, whatever stands in the directory. -/
theorem Publishable.ends {name : String} (n : Nat) : ∀ {s : State ι}, Sound lib args s →
    Publishable lib args s i policy → (s.phase i).goesOn = true → (s.phase i).rank ≤ n → Unused s i name →
    ∃ names answer, (names = [] ∨ names = [name] ∧ 9 ≤ (s.phase i).rank) ∧
      Ends lib args s i names (.returned answer) := by
  induction n with
  | zero =>
    intro s hs h hgoes hrank _
    cases hp : s.phase i <;> rw [hp] at hgoes hrank <;> try exact absurd hrank (Nat.not_succ_le_zero _)
    case cleanup t renamed outcome =>
      cases outcome with
      | returned answer =>
        refine ⟨[], answer, .inl rfl, ?_⟩
        cases hdir : s.directories t with
        | none => exact ends_empty hp fun d hd => by rw [hdir] at hd; cases hd
        | some d => exact ends_cleanup d.entries.length hp fun d' hd => by rw [hdir] at hd; cases hd; exact le_rfl
      | raised error => cases hgoes
    all_goals cases hgoes
  | succ n ih =>
    intro s hs h hgoes hrank hunused
    by_cases hzero : (s.phase i).rank ≤ n
    · exact ih hs h hgoes hzero hunused
    by_cases hdraw : ∃ modules, s.phase i = .mkdtemp modules
    · obtain ⟨modules, hp⟩ := hdraw
      have hnine : 9 ≤ (s.phase i).rank := by rw [hp]; exact le_rfl
      obtain ⟨htemp, hnew, hfree⟩ := hunused hnine
      let s' := ({ s with drawn := name :: s.drawn }.put name (some Dict.empty)).goes i (.weights name modules)
      have hn : next lib args s (.draw i name) = some s' := by
        rw [next, hp]
        exact if_pos ⟨htemp, hfree⟩
      have hp' : s'.phase i = .weights name modules := goes_phase ..
      have hm := moves_draw hs hp htemp hnew
      have hrank' : (s'.phase i).rank ≤ n := by
        rw [hp] at hrank
        rw [hp']
        exact Nat.le_of_succ_le_succ hrank
      have hlater : ¬ 9 ≤ (s'.phase i).rank := by
        rw [hp', Phase.rank]
        decide
      obtain ⟨names, answer, hnames, hends⟩ := ih (hs.moves hm) (h.moves hm rfl) (by rw [hp']; rfl) hrank'
        fun hr => absurd hr hlater
      obtain rfl | ⟨-, hr⟩ := hnames
      · exact ⟨[name], answer, .inr ⟨rfl, hnine⟩, .cons (o := .draw name) rfl hn hends⟩
      · exact absurd hr hlater
    · obtain ⟨s', hstep, hlt, hgoes'⟩ := h.goes hs (by omega) fun modules hp => hdraw ⟨modules, hp⟩
      have hm := moves_step hs hstep
      have hn : next lib args s (.step i) = some s' := hstep
      have hunused' : Unused s' i name := fun hr => by
        obtain ⟨htemp, hnew, hfree⟩ := hunused (hr.trans hlt.le)
        refine ⟨htemp, by rwa [still_drawn.stepCall hstep], ?_⟩
        rw [hm.directories name htemp (by rw [temporary_of_rank hr]; exact Option.some_ne_none _ ∘ Eq.symm), hfree]
      obtain ⟨names, answer, hnames, hends⟩ := ih (hs.moves hm) (h.moves hm (next_parent hn)) hgoes' (by omega) hunused'
      exact ⟨names, answer, hnames.imp_right (And.imp_right fun hr => hr.trans hlt.le), .cons (o := .step) rfl hn hends⟩

end

end Publish
end Aether
