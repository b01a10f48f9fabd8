import AetherRl.HandoffLineage
import AetherRl.PublicationRuns
/-!
# PublicationSound — policies are published in their turn

Every event of the handoff with its policy directory is one of the handoff, or none: what it keeps is kept.  The calls of
a version all publish one policy, so that one cut short after its rename is no hindrance to the next.
-/
namespace Aether
namespace Publication

open Handoff (Config Training PublishingOk)

/-! ## The handoff's part -/

section
variable {p : Training} {c : Config} {s s' : Handoff.State p} {models : Nat → p.Model} {last : Nat}

theorem exportNext_same {record : Handoff.TrainingBatchRecord} {artifact : Bytes}
    (hn : s.exportNext record artifact = some s') : s'.records = s.records ∧ s'.published = s.published := by
  obtain ⟨s₁, hexport, rfl⟩ := Option.map_eq_some_iff.1 hn
  rw [Handoff.State.exportRecord] at hexport
  split at hexport
  · obtain ⟨_, hexport⟩ := Option.ite_none_right_eq_some.1 hexport
    cases hexport
    exact ⟨rfl, rfl⟩
  · obtain ⟨_, hexport⟩ := Option.ite_none_right_eq_some.1 hexport
    cases hexport
    exact ⟨rfl, rfl⟩

/-- **The coordinator records and publishes policies by the operations of a publication alone.** -/
theorem coordinatorNext_cases {artifact : Bytes} {noise : p.Noise} (hn : s.coordinatorNext c artifact noise = some s') :
    (∃ publishing r s₁, (s.coordinator.phase = .starting publishing ∨ s.coordinator.phase = .publishing publishing) ∧
      s.publishNext publishing = some (s₁, r) ∧ s'.records = s₁.records ∧ s'.published = s₁.published) ∨
    s'.records = s.records ∧ s'.published = s.published := by
  rw [Handoff.State.coordinatorNext] at hn
  cases hp : s.coordinator.phase with
  | down | failed => rw [hp] at hn; cases hn
  | starting publishing =>
    rw [hp] at hn
    obtain ⟨⟨s₁, r⟩, hnext, rfl⟩ := Option.map_eq_some_iff.1 hn
    exact .inl ⟨publishing, r, s₁, .inl rfl, hnext, rfl, rfl⟩
  | publishing publishing =>
    rw [hp] at hn
    obtain ⟨⟨s₁, r⟩, hnext, rfl⟩ := Option.map_eq_some_iff.1 hn
    exact .inl ⟨publishing, r, s₁, .inr rfl, hnext, rfl, rfl⟩
  | pruning | runConfig | process | query =>
    rw [hp] at hn
    cases hn
    exact .inr ⟨rfl, rfl⟩
  | launch =>
    rw [hp] at hn
    dsimp only at hn
    split at hn <;> cases hn <;> exact .inr ⟨rfl, rfl⟩
  | exporting records | serviceExporting records =>
    rw [hp] at hn
    cases records with
    | nil =>
      cases hn
      exact .inr ⟨rfl, rfl⟩
    | cons record records =>
      obtain ⟨s₁, hnext, rfl⟩ := Option.map_eq_some_iff.1 hn
      obtain ⟨hrecords, hpublished⟩ := exportNext_same hnext
      exact .inr ⟨hrecords, hpublished⟩

theorem publishNext_published {publishing : Handoff.Publishing p} {r : Handoff.Publishing p ⊕ Bool}
    (hp : ∀ version stateDict, publishing ≠ .publish version stateDict) (hn : s.publishNext publishing = some (s', r)) :
    s'.published = s.published := by
  cases publishing with
  | publish version stateDict => exact absurd rfl (hp version stateDict)
  | look | prune =>
    cases hn
    rfl
  | broadcast | checkpoint =>
    rw [Handoff.State.publishNext] at hn
    split at hn <;> cases hn <;> rfl
  | load | activate =>
    obtain ⟨_, _, heq⟩ := Option.map_eq_some_iff.1 hn
    cases heq
    rfl

theorem publishNext_active {publishing : Handoff.Publishing p} {r : Handoff.Publishing p ⊕ Bool}
    (hk : Handoff.Kept c s.records s.published s.disk models last) (hp : PublishingOk s models last publishing)
    (hn : s.publishNext publishing = some (s', r)) :
    s'.records.active = s.records.active ∨ s'.records.active = s.records.active + 1 ∧ s.records.active + 1 ≤ last := by
  cases publishing with
  | publish version stateDict =>
    obtain ⟨_, hn⟩ := Option.ite_none_right_eq_some.1 hn
    cases hn
    exact .inl rfl
  | look | prune =>
    cases hn
    exact .inl rfl
  | broadcast | checkpoint =>
    rw [Handoff.State.publishNext] at hn
    split at hn <;> cases hn <;> exact .inl rfl
  | load =>
    obtain ⟨_, _, heq⟩ := Option.map_eq_some_iff.1 hn
    cases heq
    exact .inl rfl
  | activate version policy =>
    obtain ⟨rfl, hle, rfl, _⟩ := hp
    obtain ⟨records, hrecords, hactive, _⟩ := hk.activate hle
    rw [Handoff.State.publishNext, hrecords] at hn
    cases hn
    exact .inr ⟨hactive, hle⟩

/-- **An event of the handoff activates the next version or none**, once that version's checkpoint is marked. -/
theorem active_next {e : Handoff.Event p} (h : Handoff.Sound c s models last) (hn : s.next c e = some s') :
    s'.records.active = s.records.active ∨ s'.records.active = s.records.active + 1 ∧ s.records.active + 1 ≤ last := by
  cases e with
  | coordinator artifact noise =>
    obtain ⟨publishing, r, s₁, hphase, hnext, hrecords, _⟩ | ⟨hrecords, _⟩ := coordinatorNext_cases hn
    · have hco := h.coordinator
      rw [Handoff.CoordinatorOk] at hco
      have hok : PublishingOk s models last publishing := by
        obtain hphase | hphase := hphase
        · rw [hphase] at hco
          exact hco.2
        · rw [hphase] at hco
          exact hco
      rw [hrecords]
      exact publishNext_active h.kept hok hnext
    · exact .inl (congrArg Handoff.Records.active hrecords)
  | trainer | tear | trainerDies =>
    obtain ⟨_, _, rfl⟩ := Option.map_eq_some_iff.1 hn
    exact .inl rfl
  | recordBatch | coordinatorFails | boot =>
    rw [Handoff.State.next] at hn
    split at hn <;> cases hn <;> exact .inl rfl
  | removeBroadcast | removeCheckpoint =>
    rw [Handoff.State.next] at hn
    split at hn
    · obtain ⟨_, hn⟩ := Option.ite_none_right_eq_some.1 hn
      cases hn
      exact .inl rfl
    · cases hn
  | halt =>
    cases hn
    exact .inl rfl

/-- **Beside the calls nothing is published**, and a coordinator that waits for one goes on waiting or has failed. -/
theorem waiting_next {e : Handoff.Event p} (hw : waits s e = false) (hn : s.next c e = some s') :
    s'.published = s.published ∧ (s.coordinator.phase = .failed ∨ (publishing? s).isSome = true →
      s'.coordinator.phase = .failed ∨ s'.coordinator.phase = s.coordinator.phase) := by
  cases e with
  | coordinator artifact noise =>
    have hnone : publishing? s = none := Option.not_isSome_iff_eq_none.1 (Bool.eq_false_iff.1 hw)
    refine ⟨?_, fun hphase => ?_⟩
    · obtain ⟨publishing, r, s₁, hphase, hnext, _, hpublished⟩ | ⟨_, hpublished⟩ := coordinatorNext_cases hn
      · rw [hpublished]
        refine publishNext_published (fun version stateDict heq => ?_) hnext
        subst heq
        rw [publishing?] at hnone
        obtain hphase | hphase := hphase
        · rw [hphase] at hnone
          cases hnone
        · rw [hphase] at hnone
          cases hnone
      · exact hpublished
    · obtain hphase | hphase := hphase
      · rw [Handoff.State.next, Handoff.State.coordinatorNext, hphase] at hn
        cases hn
      · rw [hnone] at hphase
        cases hphase
  | trainer | tear | trainerDies =>
    obtain ⟨_, _, rfl⟩ := Option.map_eq_some_iff.1 hn
    exact ⟨rfl, fun _ => .inr rfl⟩
  | recordBatch =>
    rw [Handoff.State.next] at hn
    split at hn <;> cases hn
    exact ⟨rfl, fun _ => .inr rfl⟩
  | coordinatorFails =>
    rw [Handoff.State.next] at hn
    split at hn <;> cases hn <;> exact ⟨rfl, fun _ => .inl rfl⟩
  | boot =>
    rw [Handoff.State.next] at hn
    split at hn
    · rename_i hdown
      cases hn
      refine ⟨rfl, fun hphase => ?_⟩
      rw [publishing?, hdown] at hphase
      obtain hphase | hphase := hphase <;> cases hphase
    · cases hn
  | removeBroadcast | removeCheckpoint =>
    rw [Handoff.State.next] at hn
    split at hn
    · obtain ⟨_, hn⟩ := Option.ite_none_right_eq_some.1 hn
      cases hn
      exact ⟨rfl, fun _ => .inr rfl⟩
    · cases hn
  | halt => cases hw

end

/-! ## Calls of one version -/

variable {δ : Type} {q : Publisher δ}

/-- A call is of a version whose checkpoint is marked, with the adapter of that version. -/
structure Due (models : Nat → q.base.Model) (last : Nat) (k : Call q.base.Adapter) : Prop where
  pos : 1 ≤ k.version
  le : k.version ≤ last
  adapter : k.adapter = q.base.adapter (models k.version)

theorem Due.extends {models models' : Nat → q.base.Model} {last last' : Nat} {k : Call q.base.Adapter}
    (h : Due models last k) (hx : Handoff.Extends (p := q.base) models last models' last') : Due models' last' k where
  pos := h.pos
  le := h.le.trans hx.1
  adapter := by rw [h.adapter, hx.2 k.version (by have := h.pos; omega) h.le]

/-- What was published stands: a call has answered with it. -/
def Stands (q : Publisher δ) (d : Publish.State (Call q.base.Adapter)) (x : Nat × Digest) : Prop :=
  ∃ k manifest, Publish.Answered q.lib q.callArgs d k manifest ∧ k.version = x.1 ∧
    Publish.policyManifestDigest q.lib manifest = .ok x.2

/-- The digest of a version's policy is that of what its calls publish. -/
theorem policy_of_publishes {k : Call q.base.Adapter} {policy : Publish.Manifest}
    (h : Publish.publishes q.lib (q.callArgs k) = .ok policy) :
    Publish.policyManifestDigest q.lib policy = .ok (q.training.policy k.version k.adapter) := by
  obtain ⟨digest, hdigest, hpolicy, _⟩ := Publish.publishes_digest h
  have hsame : Publish.policyDigest q.lib (q.args k.version k.adapter 0) = .ok digest := hdigest
  rw [hpolicy]
  dsimp only
  rw [hsame]
  rfl

variable [DecidableEq q.base.Adapter] {c : Config} {s s' : State q} {models : Nat → q.base.Model} {last : Nat}

/-- **What holds of the handoff and its policies.** -/
structure Joint (c : Config) (s : State q) (models : Nat → q.base.Model) (last : Nat) : Prop where
  handoff : Handoff.Sound c s.handoff models last
  policies : Publish.Sound q.lib q.callArgs s.policies
  parent : s.policies.parent = .directory
  due : ∀ k, s.policies.phase k ≠ .ready → Due models last k
  rest : ∀ k, s.calls ≤ k.number → s.policies.phase k = .ready
  call : ∀ k ∈ s.call, k.number < s.calls ∧ Due models last k ∧
    (s.handoff.coordinator.phase = .failed ∨ publishing? s.handoff = some (k.version, k.adapter))
  published : ∀ x ∈ s.handoff.published, Stands q s.policies x

/-- The coordinator's next operation, where a call has answered. -/
theorem published_next {p : Training} {s : Handoff.State p} {version : Nat} {adapter : p.Adapter} {artifact : Bytes}
    {noise : p.Noise} (hp : publishing? s = some (version, adapter)) (hpublishes : p.publishes version adapter = true) :
    s.next c (.coordinator artifact noise) = some (published s version (p.policy version adapter)) := by
  rw [publishing?] at hp
  rw [Handoff.State.next, Handoff.State.coordinatorNext, published, if_congr List.contains_iff_mem rfl rfl]
  split at hp
  · rename_i hphase
    cases hp
    rw [hphase]
    dsimp only
    rw [Handoff.State.publishNext, if_pos hpublishes]
    rfl
  · rename_i hphase
    cases hp
    rw [hphase]
    dsimp only
    rw [Handoff.State.publishNext, if_pos hpublishes]
    rfl
  · cases hp

theorem raised_next {p : Training} {s : Handoff.State p} {x : Nat × p.Adapter} (hp : publishing? s = some x) :
    s.next c .halt = some (raised s) ∨ s.next c .coordinatorFails = some (raised s) := by
  rw [publishing?] at hp
  split at hp
  · rename_i hphase
    refine .inl ?_
    rw [raised, hphase]
    rfl
  · rename_i hphase
    refine .inr ?_
    rw [raised, Handoff.State.next, hphase]
  · cases hp

omit [DecidableEq q.base.Adapter] in
/-- What a call has answered with is the policy of its version. -/
theorem Joint.answered (h : Joint c s models last) {k : Call q.base.Adapter} {t : Option String} {renamed : Bool}
    {manifest : Publish.Manifest} (hp : s.policies.phase k = .ended t renamed (.returned manifest)) :
    Publish.policyManifestDigest q.lib manifest = .ok (q.training.policy k.version k.adapter) := by
  obtain ⟨_, policy, hpublishes, _, hdigest⟩ := h.policies.answered hp
  exact hdigest.trans (policy_of_publishes hpublishes)

/-- **An event of the handoff with its policies is one of the handoff, or none.** -/
theorem handoff_next [Inhabited q.base.Noise] {e : Event q} (h : Joint c s models last) (hn : next c s e = some s') :
    s'.handoff = s.handoff ∨ ∃ e', s.handoff.next c e' = some s'.handoff := by
  cases e with
  | handoff e =>
    obtain ⟨_, hn⟩ := Option.ite_none_left_eq_some.1 hn
    obtain ⟨h', hnext, rfl⟩ := Option.map_eq_some_iff.1 hn
    exact .inr ⟨e, hnext⟩
  | call createdAt =>
    rw [next] at hn
    split at hn <;> cases hn
    exact .inl rfl
  | operation o =>
    obtain ⟨k, _, hn⟩ := Option.bind_eq_some_iff.1 hn
    obtain ⟨d, _, rfl⟩ := Option.map_eq_some_iff.1 hn
    exact .inl rfl
  | answer =>
    obtain ⟨k, hk, hn⟩ := Option.bind_eq_some_iff.1 hn
    split at hn
    · rename_i hphase hpublishing
      obtain ⟨digest, hdigest, rfl⟩ := Option.map_eq_some_iff.1 hn
      rw [h.answered hphase] at hdigest
      cases hdigest
      obtain ⟨_, _, hfailed | hwaits⟩ := h.call k hk
      · rw [publishing?, hfailed] at hpublishing
        cases hpublishing
      · cases hwaits.symm.trans hpublishing
        exact .inr ⟨.coordinator [] default, published_next hwaits rfl⟩
    · cases hn
  | raise =>
    obtain ⟨k, _, hn⟩ := Option.bind_eq_some_iff.1 hn
    split at hn
    · rename_i hpublishing
      cases hn
      obtain hnext | hnext := raised_next (c := c) hpublishing
      · exact .inr ⟨.halt, hnext⟩
      · exact .inr ⟨.coordinatorFails, hnext⟩
    · cases hn
  | halt torn =>
    cases hn
    exact .inr ⟨.halt, rfl⟩

/-- **It changes what stands in the directory by an operation of the call under way, or not at all.** -/
theorem policies_next {e : Event q} (hn : next c s e = some s') : s'.policies = s.policies ∨
    ∃ k ∈ s.call, ∃ e', e'.call = k ∧ e'.name? = e.name? ∧
      Publish.next q.lib q.callArgs s.policies e' = some s'.policies := by
  cases e with
  | handoff e =>
    obtain ⟨_, hn⟩ := Option.ite_none_left_eq_some.1 hn
    obtain ⟨_, _, rfl⟩ := Option.map_eq_some_iff.1 hn
    exact .inl rfl
  | call createdAt =>
    rw [next] at hn
    split at hn <;> cases hn
    exact .inl rfl
  | operation o =>
    obtain ⟨k, hk, hn⟩ := Option.bind_eq_some_iff.1 hn
    obtain ⟨d, hd, rfl⟩ := Option.map_eq_some_iff.1 hn
    refine .inr ⟨k, hk, o.event k, ?_, ?_, hd⟩
    · cases o <;> rfl
    · cases o <;> rfl
  | answer =>
    obtain ⟨k, _, hn⟩ := Option.bind_eq_some_iff.1 hn
    split at hn
    · obtain ⟨_, _, rfl⟩ := Option.map_eq_some_iff.1 hn
      exact .inl rfl
    · cases hn
  | raise =>
    obtain ⟨k, _, hn⟩ := Option.bind_eq_some_iff.1 hn
    split at hn <;> cases hn
    exact .inl rfl
  | halt torn =>
    cases hn
    cases hcall : s.call with
    | none => exact .inl rfl
    | some k =>
      cases hkill : Publish.next q.lib q.callArgs s.policies (.kill k torn) with
      | none =>
        refine .inl ?_
        simp only [Option.bind_some, hkill]
        rfl
      | some d =>
        refine .inr ⟨k, rfl, .kill k torn, rfl, rfl, ?_⟩
        simp only [Option.bind_some, hkill]
        rfl

theorem calls_next {e : Event q} (hn : next c s e = some s') : s.calls ≤ s'.calls := by
  cases e with
  | handoff e =>
    obtain ⟨_, hn⟩ := Option.ite_none_left_eq_some.1 hn
    obtain ⟨_, _, rfl⟩ := Option.map_eq_some_iff.1 hn
    exact le_rfl
  | call createdAt =>
    rw [next] at hn
    split at hn <;> cases hn
    exact Nat.le_succ _
  | operation o =>
    obtain ⟨k, _, hn⟩ := Option.bind_eq_some_iff.1 hn
    obtain ⟨_, _, rfl⟩ := Option.map_eq_some_iff.1 hn
    exact le_rfl
  | answer =>
    obtain ⟨k, _, hn⟩ := Option.bind_eq_some_iff.1 hn
    split at hn
    · obtain ⟨_, _, rfl⟩ := Option.map_eq_some_iff.1 hn
      exact le_rfl
    · cases hn
  | raise =>
    obtain ⟨k, _, hn⟩ := Option.bind_eq_some_iff.1 hn
    split at hn <;> cases hn
    exact le_rfl
  | halt torn =>
    cases hn
    exact le_rfl

omit [DecidableEq q.base.Adapter] in
/-- A coordinator publishes the version after the active one, with the adapter of its checkpoint. -/
theorem publishing_due {s : Handoff.State q.training} (h : Handoff.Sound c s models last) {version : Nat}
    {adapter : q.base.Adapter} (hp : publishing? s = some (version, adapter)) :
    version = s.records.active + 1 ∧ version ≤ last ∧ adapter = q.base.adapter (models version) := by
  have hco := h.coordinator
  rw [Handoff.CoordinatorOk] at hco
  rw [publishing?] at hp
  split at hp
  · rename_i hphase
    cases hp
    rw [hphase] at hco
    exact hco.2
  · rename_i hphase
    cases hp
    rw [hphase] at hco
    exact hco
  · cases hp

/-- **The call under way is of the version its coordinator publishes**, if that has not failed. -/
theorem call_next {e : Event q} (h : Joint c s models last) (hn : next c s e = some s') : ∀ k ∈ s'.call,
    k.number < s'.calls ∧ Due models last k ∧
      (s'.handoff.coordinator.phase = .failed ∨ publishing? s'.handoff = some (k.version, k.adapter)) := by
  cases e with
  | handoff e =>
    obtain ⟨hw, hn⟩ := Option.ite_none_left_eq_some.1 hn
    obtain ⟨h', hnext, rfl⟩ := Option.map_eq_some_iff.1 hn
    intro k hk
    obtain ⟨hnumber, hdue, hphase⟩ := h.call k hk
    refine ⟨hnumber, hdue, ?_⟩
    have hwaiting := (waiting_next (Bool.eq_false_iff.2 hw) hnext).2
      (hphase.imp_right fun hp => Option.isSome_of_eq_some hp)
    obtain hfailed | hsame := hwaiting
    · exact .inl hfailed
    · refine hphase.imp (fun hfailed => hsame.trans hfailed) fun hp => ?_
      rw [publishing?, hsame]
      exact hp
  | call createdAt =>
    rw [next] at hn
    split at hn
    · rename_i version adapter hpublishing _
      cases hn
      intro k hk
      cases hk
      obtain ⟨hversion, hle, hadapter⟩ := publishing_due h.handoff hpublishing
      exact ⟨Nat.lt_succ_self _, ⟨hversion ▸ Nat.le_add_left 1 _, hle, hadapter⟩, .inr hpublishing⟩
    · cases hn
  | operation o =>
    obtain ⟨_, _, hn⟩ := Option.bind_eq_some_iff.1 hn
    obtain ⟨_, _, rfl⟩ := Option.map_eq_some_iff.1 hn
    exact h.call
  | answer =>
    obtain ⟨_, _, hn⟩ := Option.bind_eq_some_iff.1 hn
    split at hn
    · obtain ⟨_, _, rfl⟩ := Option.map_eq_some_iff.1 hn
      exact fun k hk => by cases hk
    · cases hn
  | raise =>
    obtain ⟨_, _, hn⟩ := Option.bind_eq_some_iff.1 hn
    split at hn <;> cases hn
    exact fun k hk => by cases hk
  | halt torn =>
    cases hn
    exact fun k hk => by cases hk

/-- **What is published has been answered by a call.** -/
theorem mem_published_next {e : Event q} (h : Joint c s models last) (hn : next c s e = some s') :
    ∀ x ∈ s'.handoff.published, x ∈ s.handoff.published ∨ Stands q s.policies x := by
  cases e with
  | handoff e =>
    obtain ⟨hw, hn⟩ := Option.ite_none_left_eq_some.1 hn
    obtain ⟨h', hnext, rfl⟩ := Option.map_eq_some_iff.1 hn
    intro x hx
    rw [(waiting_next (Bool.eq_false_iff.2 hw) hnext).1] at hx
    exact .inl hx
  | call createdAt =>
    rw [next] at hn
    split at hn <;> cases hn
    exact fun x hx => .inl hx
  | operation o =>
    obtain ⟨_, _, hn⟩ := Option.bind_eq_some_iff.1 hn
    obtain ⟨_, _, rfl⟩ := Option.map_eq_some_iff.1 hn
    exact fun x hx => .inl hx
  | answer =>
    obtain ⟨k, hk, hn⟩ := Option.bind_eq_some_iff.1 hn
    split at hn
    · rename_i manifest version adapter hphase hpublishing
      obtain ⟨digest, hdigest, rfl⟩ := Option.map_eq_some_iff.1 hn
      have hversion : k.version = version := by
        obtain ⟨_, _, hfailed | hwaits⟩ := h.call k hk
        · rw [publishing?, hfailed] at hpublishing
          cases hpublishing
        · cases hwaits.symm.trans hpublishing
          rfl
      have hanswered := h.answered hphase
      rw [hanswered] at hdigest
      cases hdigest
      intro x hx
      rw [published, Handoff.State.coordinatorGoes_published] at hx
      have hmem : x ∈ s.handoff.published ∨ x = (version, q.training.policy k.version k.adapter) := by
        split at hx
        · exact .inl hx
        · exact (List.mem_append.1 hx).imp_right List.mem_singleton.1
      refine hmem.imp_right fun heq => ⟨k, manifest, h.policies.answered hphase, ?_, ?_⟩
      · rw [heq]
        exact hversion
      · rw [heq]
        exact hanswered
    · cases hn
  | raise =>
    obtain ⟨_, _, hn⟩ := Option.bind_eq_some_iff.1 hn
    split at hn
    · cases hn
      intro x hx
      refine .inl ?_
      rw [raised] at hx
      split at hx <;> exact hx
    · cases hn
  | halt torn =>
    cases hn
    exact fun x hx => .inl hx

/-- **Every event keeps it.** -/
theorem joint_next [Inhabited q.base.Noise] {e : Event q} (h : Joint c s models last)
    (hnew : ∀ name ∈ e.name?, name ∉ s.policies.drawn) (hn : next c s e = some s') :
    ∃ models' last', Handoff.Extends (p := q.base) models last models' last' ∧ Joint c s' models' last' := by
  have hpolicies : Publish.Sound q.lib q.callArgs s'.policies ∧ s'.policies.parent = .directory ∧
      Publish.Keeps s.policies s'.policies ∧ ∀ k, k ∉ s.call → s'.policies.phase k = s.policies.phase k := by
    obtain hsame | ⟨k, hk, e', rfl, hname, hnext⟩ := policies_next hn
    · rw [hsame]
      exact ⟨h.policies, h.parent, Publish.Keeps.refl _, fun _ _ => rfl⟩
    · have hm := Publish.moves_next h.policies (hname ▸ hnew) hnext
      exact ⟨h.policies.moves hm, (Publish.next_parent hnext).trans h.parent, hm.keeps, fun j hj =>
        hm.others j fun heq => hj (heq ▸ hk)⟩
  obtain ⟨hsound, hparent, hkeeps, hothers⟩ := hpolicies
  obtain ⟨models', last', hx, hhandoff⟩ : ∃ models' last', Handoff.Extends (p := q.base) models last models' last' ∧
      Handoff.Sound c s'.handoff models' last' := by
    obtain hsame | ⟨e', hnext⟩ := handoff_next h hn
    · exact ⟨models, last, .refl _ _, hsame ▸ h.handoff⟩
    · exact Handoff.sound_next h.handoff hnext
  refine ⟨models', last', hx, hhandoff, hsound, hparent, fun k hk => ?_, fun k hk => ?_, fun k hk => ?_, fun x hx => ?_⟩
  · by_cases hmem : k ∈ s.call
    · exact (h.call k hmem).2.1.extends hx
    · rw [hothers k hmem] at hk
      exact (h.due k hk).extends hx
  · have hle := (calls_next hn).trans hk
    rw [hothers k fun hmem => (h.call k hmem).1.not_ge hle]
    exact h.rest k hle
  · obtain ⟨hnumber, hdue, hphase⟩ := call_next h hn k hk
    exact ⟨hnumber, hdue.extends hx, hphase⟩
  · obtain hmem | hstands := mem_published_next h hn x hx
    · obtain ⟨k, manifest, hanswered, hrest⟩ := h.published x hmem
      exact ⟨k, manifest, hanswered.frame hkeeps, hrest⟩
    · obtain ⟨k, manifest, hanswered, hrest⟩ := hstands
      exact ⟨k, manifest, hanswered.frame hkeeps, hrest⟩

theorem drawn_next {e : Event q} (hn : next c s e = some s') : ∀ name ∈ s'.policies.drawn,
    name ∈ s.policies.drawn ∨ e.name? = some name := by
  obtain hsame | ⟨k, _, e', _, hname, hnext⟩ := policies_next hn
  · rw [hsame]
    exact fun name h => .inl h
  · rw [← hname]
    exact Publish.next_drawn hnext

omit [DecidableEq q.base.Adapter] in
theorem joint_start [Inhabited q.base.Noise] (c : Config) : ∃ models last, Joint c (start q) models last := by
  obtain ⟨models, last, h⟩ := Handoff.sound_reached (p := q.training) c []
  refine ⟨models, last, h, Publish.sound_start _, rfl, fun _ hk => absurd rfl hk, fun _ _ => rfl, fun _ hk => ?_,
    fun _ hx => ?_⟩
  · cases hk
  · cases hx

/-- **From one state to a later one.** -/
theorem joint_drive [Inhabited q.base.Noise] (events : List (Event q)) (h : Joint c s models last)
    (hfresh : FreshNames events) (hnew : ∀ name ∈ events.filterMap Event.name?, name ∉ s.policies.drawn) :
    ∃ models' last', Joint c (Machine.drive (next c) s events) models' last' := by
  refine Machine.drive_fresh (I := fun s => ∃ models last, Joint c s models last)
    (D := fun s name => name ∈ s.policies.drawn) ?_ (fun _ _ _ hn => drawn_next hn) events ⟨models, last, h⟩ hfresh hnew
  rintro s e s' ⟨models, last, h⟩ hname hn
  obtain ⟨models', last', _, h'⟩ := joint_next h hname hn
  exact ⟨models', last', h'⟩

theorem joint_reached [Inhabited q.base.Noise] (c : Config) {events : List (Event q)} (hfresh : FreshNames events) :
    ∃ models last, Joint c (reached c events) models last := by
  obtain ⟨models, last, h⟩ := joint_start (q := q) c
  exact joint_drive events h hfresh fun _ _ => List.not_mem_nil

end Publication
end Aether
