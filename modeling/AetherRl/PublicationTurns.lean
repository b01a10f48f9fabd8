import AetherRl.HandoffRestart
import AetherRl.PublicationSound
/-!
# PublicationTurns — from one version to the next

A version is published and activated after the one before it, and whatever a publication was cut short after, the next
one of that version answers with the policy that stands and activates it.
-/
namespace Aether
namespace Publication

open Handoff (Config Spares StepDir)

variable {δ : Type} {q : Publisher δ} {c : Config} {models : Nat → q.base.Model} {last : Nat}

/-! ## One policy for each version -/

/-- Calls of one version publish the same, but for the time. -/
theorem digest_of_due {k k' : Call q.base.Adapter} (h : Due models last k) (h' : Due models last k')
    (hv : k.version = k'.version) {policy policy' : Publish.Manifest}
    (hp : Publish.publishes q.lib (q.callArgs k) = .ok policy) (hp' : Publish.publishes q.lib (q.callArgs k') = .ok policy') :
    Publish.policyManifestDigest q.lib policy = Publish.policyManifestDigest q.lib policy' ∧
      policy.policyId = policy'.policyId := by
  have hdigest : q.training.policy k.version k.adapter = q.training.policy k'.version k'.adapter := by
    rw [h.adapter, h'.adapter, hv]
  have hsame := (policy_of_publishes hp).trans (hdigest ▸ (policy_of_publishes hp').symm)
  refine ⟨hsame, ?_⟩
  obtain ⟨digest, hd, hid⟩ := Publish.publishes_policyId hp
  obtain ⟨digest', hd', hid'⟩ := Publish.publishes_policyId hp'
  obtain ⟨_, _, _, _, hversion, _⟩ := Publish.publishes_digest hp
  obtain ⟨_, _, _, _, hversion', _⟩ := Publish.publishes_digest hp'
  have heq : digest = digest' := Except.ok.inj (hd.symm.trans (hsame.trans hd'))
  have hargs : (q.callArgs k).policyVersion = (q.callArgs k').policyVersion := congrArg Nat.cast hv
  rw [hid, hid', heq, hversion, hversion', hargs]

/-- The id of a policy names the version of the call that publishes it. -/
theorem version_of_id {k k' : Call q.base.Adapter} {policy policy' : Publish.Manifest}
    (hp : Publish.publishes q.lib (q.callArgs k) = .ok policy) (hp' : Publish.publishes q.lib (q.callArgs k') = .ok policy')
    (hid : policy.policyId = policy'.policyId) : k.version = k'.version := by
  obtain ⟨digest, _, hd⟩ := Publish.publishes_policyId hp
  obtain ⟨digest', _, hd'⟩ := Publish.publishes_policyId hp'
  obtain ⟨_, _, _, _, hversion, _⟩ := Publish.publishes_digest hp
  obtain ⟨_, _, _, _, hversion', _⟩ := Publish.publishes_digest hp'
  have h := Publish.policyIdOf_version (hd.symm.trans (hid.trans hd'))
  rw [hversion, hversion'] at h
  exact h

theorem renamed_ne_ready {s : Publish.State (Call q.base.Adapter)} {k : Call q.base.Adapter}
    (h : (s.phase k).renamed = true) : s.phase k ≠ .ready := fun hp => by
  rw [hp] at h
  cases h

section
variable {s s' : State q}

/-- **A call does not raise for what stands in the directory.** -/
theorem Joint.publishable (h : Joint c s models last) {k : Call q.base.Adapter} (hdue : Due models last k)
    {policy : Publish.Manifest} (hp : Publish.publishes q.lib (q.callArgs k) = .ok policy)
    (hback : Publish.ReadsBack q.lib (q.callArgs k))
    (hdumps : ∃ data, Publish.canonicalJsonBytes q.lib policy.json = .ok data) :
    Publish.Publishable q.lib q.callArgs s.policies k policy where
  parent := h.parent
  publishes := hp
  back := hback
  dumps := hdumps
  agrees j _ hr hp' hid :=
    (digest_of_due (h.due j (renamed_ne_ready hr)) hdue (version_of_id hp' hp hid) hp' hp).1

variable [DecidableEq q.base.Adapter]

/-- The operations of a call under way. -/
theorem operations_run {k : Call q.base.Adapter} : ∀ (operations : List Publish.Operation) {s : State q}
    {d : Publish.State (Call q.base.Adapter)}, s.call = some k →
    Machine.run (Publish.next q.lib q.callArgs) s.policies (operations.map (Publish.Operation.event k)) = some d →
    Machine.run (next c) s (operations.map Event.operation) = some { s with policies := d }
  | [], s, d, _, h => by
    cases h
    rfl
  | o :: operations, s, d, hk, h => by
    obtain ⟨d', hd', h⟩ := Option.bind_eq_some_iff.1 h
    have hn : next c s (.operation o) = some { s with policies := d' } := by
      rw [next, hk, Option.bind_some, hd']
      rfl
    rw [List.map_cons, Machine.run, hn, Option.bind_some]
    exact operations_run operations (s := { s with policies := d' }) hk h

omit [DecidableEq q.base.Adapter] in
/-- **What stands for a version is what a call of it published.** -/
theorem Joint.standing (h : Joint c s models last) {manifest : Publish.Manifest}
    (hm : Publish.Standing q.lib s.policies manifest) (hfinal : ¬ Publish.isTemporary manifest.policyId) {version : Nat}
    (hv : manifest.policyVersion = version) : ∃ j, Due models last j ∧ j.version = version ∧
      Publish.publishes q.lib (q.callArgs j) = .ok manifest := by
  obtain ⟨d, hd, hverify⟩ := hm
  obtain ⟨j, policy, hr, hp, _, hverify'⟩ := h.policies.final _ d hfinal hd
  obtain rfl := Except.ok.inj ((Publish.verify_forget hverify).1.symm.trans (Publish.verify_forget hverify').1)
  obtain ⟨_, _, _, _, hversion, _⟩ := Publish.publishes_digest hp
  exact ⟨j, h.due j (renamed_ne_ready hr), Nat.cast_injective (hversion.symm.trans hv), hp⟩

/-! ## A publication from its call to its activation -/

/-- What was answered is to be activated next. -/
theorem published_phase {p : Handoff.Training} (h : Handoff.State p) (version : Nat) (policy : Digest) :
    (published h version policy).coordinator.phase = .starting (.activate version policy) ∨
      (published h version policy).coordinator.phase = .publishing (.activate version policy) := by
  rw [published, Handoff.State.coordinatorGoes]
  dsimp only
  split
  · exact .inl rfl
  · exact .inr rfl

theorem waits_activate {p : Handoff.Training} {h : Handoff.State p} {version : Nat} {policy : Digest}
    (hp : h.coordinator.phase = .starting (.activate version policy) ∨
      h.coordinator.phase = .publishing (.activate version policy)) (artifact : Bytes) (noise : p.Noise) :
    waits h (.coordinator artifact noise) = false := by
  obtain hp | hp := hp
  · rw [waits, publishing?, hp]
    rfl
  · rw [waits, publishing?, hp]
    rfl

/-- `record_and_activate_policy` of what was published. -/
theorem activate_next {p : Handoff.Training} {h : Handoff.State p} {models : Nat → p.Model}
    (hs : Handoff.Sound c h models last) {version : Nat} {policy : Digest}
    (hp : h.coordinator.phase = .starting (.activate version policy) ∨
      h.coordinator.phase = .publishing (.activate version policy)) (artifact : Bytes) (noise : p.Noise) :
    ∃ h', h.next c (.coordinator artifact noise) = some h' ∧ h'.records.active = version ∧
      (version, policy) ∈ h'.records.policies := by
  have hco := hs.coordinator
  rw [Handoff.CoordinatorOk] at hco
  have hok : Handoff.PublishingOk h models last (.activate version policy) := by
    obtain hp | hp := hp
    · rw [hp] at hco
      exact hco.2
    · rw [hp] at hco
      exact hco
  obtain ⟨rfl, hle, rfl, _⟩ := hok
  obtain ⟨records, hrecords, hactive, _, hkept⟩ := hs.kept.activate hle
  have hmem : (h.records.active + 1, Handoff.policyOf models (h.records.active + 1)) ∈ records.policies := by
    rw [hkept.policies, hactive]
    exact List.mem_map.2 ⟨h.records.active, List.mem_range.2 (Nat.lt_succ_self _), rfl⟩
  obtain hp | hp := hp
  · refine ⟨{ h with records := records }.coordinatorGoes (.starting (.prune (h.records.active + 1))), ?_, hactive, hmem⟩
    rw [Handoff.State.next, Handoff.State.coordinatorNext, hp]
    dsimp only
    rw [Handoff.State.publishNext, hrecords]
    rfl
  · refine ⟨{ h with records := records }.coordinatorGoes (.publishing (.prune (h.records.active + 1))), ?_, hactive, hmem⟩
    rw [Handoff.State.next, Handoff.State.coordinatorNext, hp]
    dsimp only
    rw [Handoff.State.publishNext, hrecords]
    rfl

/-- The libraries write what a call hands them, and read it back. -/
structure Serves (lib : Publish.Libraries δ) (a : Publish.Args δ) : Prop where
  back : Publish.ReadsBack lib a
  dumps : ∀ policy, Publish.publishes lib a = .ok policy → ∃ data, Publish.canonicalJsonBytes lib policy.json = .ok data

/-- A publication of `version` that is called at `createdAt`, and is given `name`, ends without raising: it answers with
`manifest`, and activates it. -/
def Publishes (c : Config) (s : State q) (version : Nat) (createdAt : ℚ) (name : String)
    (manifest : Publish.Manifest) : Prop :=
  ∃ operations : List Publish.Operation, (∀ o ∈ operations, o.succeeds = true) ∧
    (operations.filterMap Publish.Operation.name? = [] ∨ operations.filterMap Publish.Operation.name? = [name]) ∧
    ∀ artifact noise, ∃ s', Machine.run (next c) s (.call createdAt :: operations.map Event.operation ++
        [.answer, .handoff (.coordinator artifact noise)]) = some s' ∧
      s'.handoff.records.active = version ∧ Publish.Standing q.lib s'.policies manifest ∧
      ∃ digest, Publish.policyManifestDigest q.lib manifest = .ok digest ∧ (version, digest) ∈ s'.handoff.records.policies

theorem Joint.publishes [Inhabited q.base.Noise] (h : Joint c s models last) {version : Nat} {adapter : q.base.Adapter}
    {createdAt : ℚ} {name : String} {policy : Publish.Manifest}
    (hwaits : publishing? s.handoff = some (version, adapter)) (hidle : s.call = none)
    (hp : Publish.publishes q.lib (q.args version adapter createdAt) = .ok policy)
    (hserves : Serves q.lib (q.args version adapter createdAt)) (hname : Publish.isTemporary name)
    (hnew : name ∉ s.policies.drawn) (hfree : s.policies.directories name = none) :
    ∃ manifest, Publishes c s version createdAt name manifest ∧ manifest.policyId = policy.policyId ∧
      ∀ m, Publish.Standing q.lib s.policies m → ¬ Publish.isTemporary m.policyId → m.policyVersion = version →
        manifest = m := by
  let k : Call q.base.Adapter := ⟨s.calls, version, adapter, createdAt⟩
  let s₁ : State q := { s with call := some k, calls := s.calls + 1 }
  have hcall : next c s (.call createdAt) = some s₁ := by rw [next, hwaits, hidle]
  obtain ⟨hversion, hle, hadapter⟩ := publishing_due h.handoff hwaits
  have hpos : 1 ≤ version := by omega
  have hdue : Due models last k := ⟨hpos, hle, hadapter⟩
  have hready : s.policies.phase k = .ready := h.rest k le_rfl
  have hpub := h.publishable hdue hp hserves.back (hserves.dumps _ hp)
  obtain ⟨names, answer, hnames, operations, hcalm, rfl, d, t, renamed, hrun, hended⟩ :=
    hpub.ends 11 h.policies (by rw [hready]; rfl) (by rw [hready]; exact le_rfl) fun _ => ⟨hname, hnew, hfree⟩
  have hnames := hnames.imp_right And.left
  have hoperations := operations_run (c := c) operations (s := s₁) rfl hrun
  -- what the operations draw is the name, if anything
  have hdrawn : ∀ x ∈ operations.filterMap Publish.Operation.name?, x ∉ s.policies.drawn := fun x hx => by
    obtain hnone | hone := hnames
    · rw [hnone] at hx
      cases hx
    · rw [hone, List.mem_singleton] at hx
      exact hx ▸ hnew
  have hnodup : (operations.filterMap Publish.Operation.name?).Nodup := by
    obtain hnone | hone := hnames
    · exact hnone ▸ List.nodup_nil
    · exact hone ▸ List.nodup_singleton _
  have hkeeps : Publish.Keeps s.policies d := by
    have hfilter : (operations.map (Publish.Operation.event k)).filterMap Publish.Event.name? =
        operations.filterMap Publish.Operation.name? := by
      rw [List.filterMap_map]
      congr 1
      funext o
      cases o <;> rfl
    have hdrive := (Publish.drive_sound (operations.map (Publish.Operation.event k)) h.policies
      (by rw [Publish.FreshNames, hfilter]; exact hnodup) (by rw [hfilter]; exact hdrawn)).2
    rwa [Machine.drive_of_run hrun] at hdrive
  obtain ⟨models₂, last₂, h₂⟩ : ∃ models₂ last₂, Joint c { s₁ with policies := d } models₂ last₂ := by
    have hfilter : (.call createdAt :: operations.map Event.operation : List (Event q)).filterMap Event.name? =
        operations.filterMap Publish.Operation.name? := by
      rw [List.filterMap_cons, List.filterMap_map]
      rfl
    have hdrive := joint_drive (.call createdAt :: operations.map Event.operation) h
      (by rw [FreshNames, hfilter]; exact hnodup) (by rw [hfilter]; exact hdrawn)
    rwa [Machine.drive_of_run (by rw [Machine.run, hcall]; exact hoperations)] at hdrive
  obtain ⟨hstands, policy', hp', hid, _⟩ := h₂.policies.answered hended
  obtain rfl := Except.ok.inj (hp.symm.trans hp')
  -- the coordinator goes on with what was answered
  have hdigest := h₂.answered hended
  let s₃ : State q :=
    { s₁ with
      policies := d
      call := none
      handoff := Publication.published s.handoff version (q.training.policy version adapter) }
  have hanswer : next c { s₁ with policies := d } .answer = some s₃ := by
    rw [next, Option.bind_some]
    dsimp only
    rw [hended, hwaits]
    dsimp only
    rw [hdigest]
    rfl
  obtain ⟨models₃, last₃, _, h₃⟩ := joint_next h₂ (fun _ hx => by cases hx) hanswer
  have hphase : s₃.handoff.coordinator.phase = .starting (.activate version (q.training.policy version adapter)) ∨
      s₃.handoff.coordinator.phase = .publishing (.activate version (q.training.policy version adapter)) :=
    published_phase ..
  refine ⟨answer, ⟨operations, hcalm, hnames, fun artifact noise => ?_⟩, hid, fun m hm hfinal hv => ?_⟩
  · obtain ⟨h', hactivate, hactive, hmem⟩ := activate_next h₃.handoff hphase artifact noise
    have hlast : next c s₃ (.handoff (.coordinator artifact noise)) = some { s₃ with handoff := h' } := by
      rw [next, if_neg (Bool.eq_false_iff.1 (waits_activate hphase artifact noise)), hactivate]
      rfl
    refine ⟨{ s₃ with handoff := h' }, ?_, hactive, hstands, _, hdigest, hmem⟩
    rw [List.cons_append, Machine.run, hcall, Option.bind_some, Machine.run_append, hoperations, Option.bind_some,
      Machine.run, hanswer, Option.bind_some, Machine.run, hlast]
    rfl
  · obtain ⟨j, hdue', hversion', hm'⟩ := h.standing hm hfinal hv
    have hid' := (digest_of_due hdue' hdue hversion' hm' hp).2
    obtain ⟨e, he, hverify⟩ := hm
    exact hstands.unique ⟨e, hkeeps _ e hfinal he, hverify⟩ (hid.trans hid'.symm)

/-! ## Every run -/

/-- What an event does to the versions: it activates the next one or none, and that one only where its broadcast and its
checkpoint are marked; and it spares what is not published yet. -/
structure InTurn {p : Handoff.Training} (h h' : Handoff.State p) : Prop where
  activation : h'.records.active = h.records.active ∨ h'.records.active = h.records.active + 1 ∧
    (h.disk.broadcasts (h.records.active + 1)).any StepDir.stable = true ∧
    (h.disk.checkpoints (h.records.active + 1)).any StepDir.stable = true
  spares : Spares h h'

theorem inTurn_refl {p : Handoff.Training} (h : Handoff.State p) : InTurn h h :=
  ⟨.inl rfl, fun _ _ => .refl _, fun _ _ => .refl _, fun _ => rfl, fun _ _ _ => ⟨rfl, rfl⟩⟩

theorem inTurn_next {p : Handoff.Training} {h h' : Handoff.State p} {models : Nat → p.Model} {e : Handoff.Event p}
    (hs : Handoff.Sound c h models last) (hn : h.next c e = some h') : InTurn h h' := by
  refine ⟨(active_next hs hn).imp_right fun ⟨hactive, hle⟩ => ⟨hactive, ?_, ?_⟩, hs.spares hn⟩
  · rw [hs.kept.broadcasts _ (Nat.lt_succ_self _) hle]
    rfl
  · rw [hs.kept.checkpoints _ (Nat.le_add_left 1 _) (Nat.le_succ _) hle]
    rfl

end

/-- What stands, as it can be computed. -/
theorem standing_of_any {ι : Type} {lib : Publish.Libraries δ} {s : Publish.State ι} {manifest : Publish.Manifest}
    (h : (s.directories manifest.policyId).any (fun d =>
      decide ((Publish.verifyLoraPolicy lib manifest.policyId (some d) (some manifest)).toOption = some manifest)) = true) :
    Publish.Standing lib s manifest := by
  obtain ⟨d, hd, hverify⟩ := (Option.any_eq_true ..).1 h
  refine ⟨d, hd, ?_⟩
  have hverify := of_decide_eq_true hverify
  cases hr : Publish.verifyLoraPolicy lib manifest.policyId (some d) (some manifest) with
  | ok m =>
    rw [hr] at hverify
    exact congrArg Except.ok (Option.some.inj hverify)
  | error e =>
    rw [hr] at hverify
    cases hverify

namespace Sample

open Handoff.Sample (config training)

/-- The training of one rank, with the libraries and the adapter that are published. -/
def publisher : Publisher Bytes where
  base := training
  lib := Publish.Sample.libraries
  runId := "run"
  baseModel := Publish.Sample.baseModel
  rank := 1
  alpha := .float (.finite 1)
  dropout := .float (.finite 0)
  stateDict _ := Publish.Sample.adapter

instance decidableAdapter : DecidableEq publisher.base.Adapter := inferInstanceAs (DecidableEq (List Nat))

instance decidableTrained : DecidableEq publisher.training.Adapter := inferInstanceAs (DecidableEq (List Nat))

instance inhabitedNoise : Inhabited publisher.base.Noise := ⟨()⟩

def trained : publisher.training.Adapter := ([7] : List Nat)

def coordinates (n : Nat) (artifact : Bytes) : List (Event publisher) :=
  List.replicate n (.handoff (.coordinator artifact ()))
def works (n : Nat) : List (Event publisher) := List.replicate n (.handoff (.trainer ()))
def steps (n : Nat) : List (Event publisher) := List.replicate n (.operation .step)

/-- A trainer trains and marks its checkpoint; both go down, and a coordinator starts that finds it. -/
def found : List (Event publisher) :=
  .handoff .boot :: coordinates 6 [] ++ .handoff (.recordBatch 1 "seven") :: coordinates 3 [7] ++ works 16 ++
    [.halt none, .handoff .boot] ++ coordinates 4 []

/-- The policy is published; before it is recorded they go down again, and a coordinator finds what the last one did. -/
def cut : List (Event publisher) :=
  found ++ .call 3 :: steps 2 ++ .operation (.draw ".policy-k3x9q1ab") :: steps 8 ++
    [.answer, .halt none, .handoff .boot] ++ coordinates 4 []

theorem cut_fresh : FreshNames cut := by
  unfold FreshNames
  decide

theorem publishes_later : Publish.publishes publisher.lib (Publish.Sample.calls true) = .ok (Publish.Sample.policy true) := by
  decide +kernel

theorem dumps_later : publisher.lib.dumps (Publish.Sample.policy true).json =
    some (Publish.Sample.bytes (Publish.Sample.policy true).json) := by
  decide +kernel

/-- The policy stands, and the coordinator is about to publish it again. -/
theorem cut_reached :
    publishing? (reached config cut).handoff = some (1, trained) ∧ (reached config cut).call = none ∧
      ".policy-p07zt5wd" ∉ (reached config cut).policies.drawn ∧
      (reached config cut).policies.directories ".policy-p07zt5wd" = none ∧
      ((reached config cut).policies.directories (Publish.Sample.policy false).policyId).any (fun d =>
        decide ((Publish.verifyLoraPolicy publisher.lib (Publish.Sample.policy false).policyId (some d)
          (some (Publish.Sample.policy false))).toOption = some (Publish.Sample.policy false))) = true := by
  decide +kernel

theorem saves : publisher.lib.saveFile (Publish.Sample.calls true).stateDict = some Publish.Sample.weights := by
  decide +kernel

theorem opens : publisher.lib.safeOpen Publish.Sample.weights = some Publish.Sample.adapter := by
  simp only [publisher, Publish.Sample.libraries, if_true]

theorem serves : Serves publisher.lib (Publish.Sample.calls true) where
  back :=
    { weights := fun data h => by
        obtain rfl := Option.some.inj (saves.symm.trans h)
        exact opens
      manifest := fun policy data hp hdata => by
        obtain rfl := Except.ok.inj (publishes_later.symm.trans hp)
        obtain rfl := Option.some.inj (dumps_later.symm.trans hdata)
        decide +kernel
      alpha := fun _ _ h => by cases h }
  dumps policy hp := by
    obtain rfl := Except.ok.inj (publishes_later.symm.trans hp)
    exact ⟨_, by rw [Publish.canonicalJsonBytes, dumps_later]⟩

end Sample

end Publication
end Aether
