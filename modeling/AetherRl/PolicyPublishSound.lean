import AetherRl.PolicyLayout
/-!
# PolicyPublishSound — published policies verify

Every call owns its temporary directory until it has ended, and what it wrote there is what it is about to publish.  A
directory of a final name was renamed there whole, after it was verified, and no operation touches it again.
-/
namespace Aether
namespace Publish

variable {δ ι : Type} {lib : Libraries δ} {args : ι → Args δ}

/-! ## The policy of a call -/

/-- **A published policy's id is made of its version and its digest.** -/
theorem publishes_policyId {a : Args δ} {policy : Manifest} (h : publishes lib a = .ok policy) :
    ∃ digest, policyManifestDigest lib policy = .ok digest ∧ policy.policyId = policyIdOf policy.policyVersion digest := by
  obtain ⟨modules, weights, config, _, _, _, hm⟩ := publishes_eq_ok.1 h
  obtain ⟨_, _, _, _, _, _, _, _, hid⟩ := createManifest_eq_ok hm
  exact hid

/-- **Policies of one identity have one id.** -/
theorem policyId_eq {a a' : Args δ} {policy policy' : Manifest} (h : publishes lib a = .ok policy)
    (h' : publishes lib a' = .ok policy') (hi : policy.identity = policy'.identity) :
    policy.policyId = policy'.policyId := by
  obtain ⟨digest, hd, hid⟩ := publishes_policyId h
  obtain ⟨digest', hd', hid'⟩ := publishes_policyId h'
  have hversion : policy.policyVersion = policy'.policyVersion := congrArg Identity.policyVersion hi
  rw [policyManifestDigest, hi] at hd
  rw [policyManifestDigest, hd, Except.ok.injEq] at hd'
  rw [hid, hid', hversion, hd']

/-- No policy's id is a temporary name. -/
theorem not_isTemporary_policyIdOf (version : Int) (digest : Digest) : ¬ isTemporary (policyIdOf version digest) := by
  intro h
  obtain ⟨rest, hrest⟩ := h
  rw [policyIdOf, String.toList_append, String.toList_append, String.toList_append, List.append_assoc,
    List.append_assoc] at hrest
  have hhead := congrArg List.head? hrest
  rw [List.head?_append_of_ne_nil _ (by decide), List.head?_append_of_ne_nil _ (by decide)] at hhead
  revert hhead
  decide

theorem not_isTemporary {a : Args δ} {policy : Manifest} (h : publishes lib a = .ok policy) :
    ¬ isTemporary policy.policyId := by
  obtain ⟨digest, _, hid⟩ := publishes_policyId h
  exact hid ▸ not_isTemporary_policyIdOf _ _

/-! ## What a call has made -/

/-- A policy stands in its directory, and is accepted there. -/
def Standing (lib : Libraries δ) (s : State ι) (policy : Manifest) : Prop :=
  ∃ d, s.directories policy.policyId = some d ∧
    verifyLoraPolicy lib policy.policyId (some d) (some policy) = .ok policy

/-- A manifest a call may answer with: one that stands under the id, and has the digest, of what it publishes. -/
def Answered (lib : Libraries δ) (args : ι → Args δ) (s : State ι) (i : ι) (answer : Manifest) : Prop :=
  Standing lib s answer ∧ ∃ policy, publishes lib (args i) = .ok policy ∧ answer.policyId = policy.policyId ∧
    policyManifestDigest lib answer = policyManifestDigest lib policy

def OutcomeOk (lib : Libraries δ) (args : ι → Args δ) (s : State ι) (i : ι) : Outcome → Prop
  | .returned answer => Answered lib args s i answer
  | .raised _ => True

/-- What a call has made of its temporary directory, and what it is about to answer. -/
def CallOk (lib : Libraries δ) (args : ι → Args δ) (s : State ι) (i : ι) : Phase → Prop
  | .ready => True
  | .parent modules | .mkdtemp modules => prepare (args i) = .ok modules
  | .weights t modules => prepare (args i) = .ok modules ∧ s.directories t = some Dict.empty
  | .config t modules => prepare (args i) = .ok modules ∧ ∃ weights, saveWeights lib (args i) = .ok weights ∧
      s.directories t = some (Dict.empty.set adapterWeightsName (.regular weights))
  | .manifest t modules => prepare (args i) = .ok modules ∧ ∃ weights config,
      saveWeights lib (args i) = .ok weights ∧ canonicalJsonBytes lib (adapterConfig (args i) modules) = .ok config ∧
      s.directories t = some ((Dict.empty.set adapterWeightsName (.regular weights)).set adapterConfigName (.regular config))
  | .verify t policy => ∃ d, s.directories t = some d ∧ Layout lib (args i) policy d
  | .exists? t policy | .rename t policy => publishes lib (args i) = .ok policy ∧
      ∃ d, s.directories t = some d ∧ verifyLoraPolicy lib t (some d) (some policy) = .ok policy
  | .existing _ policy => publishes lib (args i) = .ok policy ∧ (s.directories (finalName policy)).isSome = true
  | .sync _ _ answer => Answered lib args s i answer
  | .cleanup _ _ outcome => OutcomeOk lib args s i outcome
  | .ended t _ outcome => (∀ n, t = some n → s.directories n = none) ∧ OutcomeOk lib args s i outcome
  | .killed _ _ => True

/-- No final directory is touched. -/
def Keeps (s s' : State ι) : Prop :=
  ∀ n d, ¬ isTemporary n → s.directories n = some d → s'.directories n = some d

section
variable {s s' s'' : State ι} {i : ι}

theorem Keeps.refl (s : State ι) : Keeps s s := fun _ _ _ h => h

theorem Keeps.trans (h : Keeps s s') (h' : Keeps s' s'') : Keeps s s'' := fun n d hn hd => h' n d hn (h n d hn hd)

theorem Answered.frame {answer : Manifest} (h : Answered lib args s i answer) (hkeeps : Keeps s s') :
    Answered lib args s' i answer := by
  obtain ⟨⟨d, hd, hv⟩, policy, hp, hid, hdigest⟩ := h
  exact ⟨⟨d, hkeeps _ d (hid ▸ not_isTemporary hp) hd, hv⟩, policy, hp, hid, hdigest⟩

theorem OutcomeOk.frame {outcome : Outcome} (h : OutcomeOk lib args s i outcome) (hkeeps : Keeps s s') :
    OutcomeOk lib args s' i outcome := by
  cases outcome with
  | returned answer => exact Answered.frame h hkeeps
  | raised => trivial

/-- **What others do to other directories does not concern a call.** -/
theorem CallOk.frame {phase : Phase} (h : CallOk lib args s i phase)
    (hown : ∀ t, phase.temporary? = some t → s'.directories t = s.directories t) (hkeeps : Keeps s s') :
    CallOk lib args s' i phase := by
  cases phase with
  | ready => trivial
  | parent => exact h
  | mkdtemp => exact h
  | weights t => exact ⟨h.1, (hown t rfl).trans h.2⟩
  | config t =>
    obtain ⟨hp, weights, hw, hd⟩ := h
    exact ⟨hp, weights, hw, (hown t rfl).trans hd⟩
  | manifest t =>
    obtain ⟨hp, weights, config, hw, hc, hd⟩ := h
    exact ⟨hp, weights, config, hw, hc, (hown t rfl).trans hd⟩
  | verify t =>
    obtain ⟨d, hd, hlayout⟩ := h
    exact ⟨d, (hown t rfl).trans hd, hlayout⟩
  | exists? t =>
    obtain ⟨hp, d, hd, hv⟩ := h
    exact ⟨hp, d, (hown t rfl).trans hd, hv⟩
  | rename t =>
    obtain ⟨hp, d, hd, hv⟩ := h
    exact ⟨hp, d, (hown t rfl).trans hd, hv⟩
  | existing =>
    obtain ⟨hp, hthere⟩ := h
    obtain ⟨d, hd⟩ := Option.isSome_iff_exists.1 hthere
    exact ⟨hp, Option.isSome_of_eq_some (hkeeps _ d (not_isTemporary hp) hd)⟩
  | sync => exact Answered.frame h hkeeps
  | cleanup => exact OutcomeOk.frame h hkeeps
  | ended t =>
    refine ⟨fun n hn => ?_, OutcomeOk.frame h.2 hkeeps⟩
    rw [hown n hn]
    exact h.1 n hn
  | killed => trivial

end

/-! ## What a step does -/

/-- Every call owns its temporary directory, and every final directory was renamed by a call. -/
structure Sound (lib : Libraries δ) (args : ι → Args δ) (s : State ι) : Prop where
  drawn : ∀ i t, (s.phase i).temporary? = some t → t ∈ s.drawn ∧ isTemporary t
  apart : ∀ i j t, (s.phase i).temporary? = some t → (s.phase j).temporary? = some t → i = j
  call : ∀ i, CallOk lib args s i (s.phase i)
  final : ∀ n d, ¬ isTemporary n → s.directories n = some d → ∃ i policy, (s.phase i).renamed = true ∧
    publishes lib (args i) = .ok policy ∧ policy.policyId = n ∧
    verifyLoraPolicy lib n (some d) (some policy) = .ok policy
  owned : ∀ n d, isTemporary n → s.directories n = some d →
    ∃ i, (s.phase i).temporary? = some n ∧ (s.phase i).isEnded = false

/-- **What an event can do**, to one call and its directory. -/
structure Moves (lib : Libraries δ) (args : ι → Args δ) (i : ι) (s s' : State ι) : Prop where
  others : ∀ j, j ≠ i → s'.phase j = s.phase j
  drawn : s.drawn ⊆ s'.drawn
  temporary : ∀ t, (s'.phase i).temporary? = some t →
    (s.phase i).temporary? = some t ∨ (t ∉ s.drawn ∧ t ∈ s'.drawn ∧ isTemporary t)
  holds : ∀ t, (s.phase i).temporary? = some t → (s'.phase i).temporary? = some t
  directories : ∀ n, isTemporary n → (s'.phase i).temporary? ≠ some n → s'.directories n = s.directories n
  keeps : Keeps s s'
  new : ∀ n d, ¬ isTemporary n → s'.directories n = some d → s.directories n = some d ∨
    ((s'.phase i).renamed = true ∧ ∃ policy, publishes lib (args i) = .ok policy ∧ policy.policyId = n ∧
      verifyLoraPolicy lib n (some d) (some policy) = .ok policy)
  renamed : (s.phase i).renamed = true → (s'.phase i).renamed = true
  call : CallOk lib args s' i (s'.phase i)

theorem CallOk.ended {s : State ι} {i : ι} {phase : Phase} (h : CallOk lib args s i phase) (he : phase.isEnded = true)
    {t : String} (ht : phase.temporary? = some t) : s.directories t = none := by
  cases phase with
  | ended t' => exact h.1 t ht
  | _ => cases he

/-- **A step keeps the soundness of every call.** -/
theorem Sound.moves {s s' : State ι} {i : ι} (h : Sound lib args s) (m : Moves lib args i s s') : Sound lib args s' where
  drawn := by
    intro j t ht
    by_cases hj : j = i
    · subst hj
      rcases m.temporary t ht with ht | ⟨_, hd, htemp⟩
      · exact (h.drawn j t ht).imp_left fun hd => m.drawn hd
      · exact ⟨hd, htemp⟩
    · rw [m.others j hj] at ht
      exact (h.drawn j t ht).imp_left fun hd => m.drawn hd
  apart := by
    have hone : ∀ j t, j ≠ i → (s.phase j).temporary? = some t → (s'.phase i).temporary? ≠ some t := by
      intro j t hj ht ht'
      rcases m.temporary t ht' with hi | ⟨hnew, _⟩
      · exact hj (h.apart j i t ht hi)
      · exact hnew (h.drawn j t ht).1
    intro j k t hj hk
    by_cases hji : j = i
    · by_cases hki : k = i
      · rw [hji, hki]
      · rw [m.others k hki] at hk
        exact absurd (hji ▸ hj) (hone k t hki hk)
    · rw [m.others j hji] at hj
      by_cases hki : k = i
      · exact absurd (hki ▸ hk) (hone j t hji hj)
      · rw [m.others k hki] at hk
        exact h.apart j k t hj hk
  call := by
    intro j
    by_cases hj : j = i
    · exact hj ▸ m.call
    · rw [m.others j hj]
      refine (h.call j).frame (fun t ht => ?_) m.keeps
      refine m.directories t (h.drawn j t ht).2 fun ht' => ?_
      rcases m.temporary t ht' with hi | ⟨hnew, _⟩
      · exact hj (h.apart j i t ht hi)
      · exact hnew (h.drawn j t ht).1
  final := by
    intro n d hn hd
    rcases m.new n d hn hd with hd | ⟨hr, policy, hp, hid, hv⟩
    · obtain ⟨j, policy, hr, hp, hid, hv⟩ := h.final n d hn hd
      by_cases hj : j = i
      · subst hj
        exact ⟨j, policy, m.renamed hr, hp, hid, hv⟩
      · exact ⟨j, policy, m.others j hj ▸ hr, hp, hid, hv⟩
    · exact ⟨i, policy, hr, hp, hid, hv⟩
  owned := by
    intro n d hn hd
    by_cases hi : (s'.phase i).temporary? = some n
    · refine ⟨i, hi, ?_⟩
      by_contra hended
      rw [Bool.not_eq_false] at hended
      rw [m.call.ended hended hi] at hd
      cases hd
    · rw [m.directories n hn hi] at hd
      obtain ⟨j, hj, hended⟩ := h.owned n d hn hd
      have hji : j ≠ i := fun hji => hi (m.holds n (hji ▸ hj))
      exact ⟨j, m.others j hji ▸ hj, m.others j hji ▸ hended⟩

theorem sound_start (parent : Parent) : Sound lib args (start ι parent) where
  drawn := fun _ _ h => (Option.some_ne_none _ h.symm).elim
  apart := fun _ _ _ h => (Option.some_ne_none _ h.symm).elim
  call := fun _ => trivial
  final := fun _ _ _ h => (Option.some_ne_none _ h.symm).elim
  owned := fun _ _ _ h => (Option.some_ne_none _ h.symm).elim

/-- **One answer for one id.** -/
theorem Standing.unique {s : State ι} {policy policy' : Manifest} (h : Standing lib s policy) (h' : Standing lib s policy')
    (hid : policy.policyId = policy'.policyId) : policy = policy' := by
  obtain ⟨d, hd, hv⟩ := h
  obtain ⟨d', hd', hv'⟩ := h'
  rw [← hid] at hd' hv'
  obtain rfl := Option.some.inj (hd.symm.trans hd')
  exact Except.ok.inj ((verify_forget hv).1.symm.trans (verify_forget hv').1)

theorem Sound.answered {s : State ι} {i : ι} {t : Option String} {renamed : Bool} {answer : Manifest} (h : Sound lib args s)
    (hp : s.phase i = .ended t renamed (.returned answer)) : Answered lib args s i answer := by
  have hcall := h.call i
  rw [hp] at hcall
  exact hcall.2

/-! ## The events -/

/-- What a call that raises turns to. -/
theorem raise_spec {i : ι} {phase phase' : Phase} {e : Raised} (h : phase.raise e = some phase') :
    phase'.temporary? = phase.temporary? ∧ (phase.renamed = true → phase'.renamed = true) ∧
      ∀ s : State ι, CallOk lib args s i phase' := by
  have hended : ∀ s : State ι, CallOk lib args s i (.ended none false (.raised e)) := fun _ =>
    ⟨fun _ hn => (Option.some_ne_none _ hn.symm).elim, trivial⟩
  cases phase <;> cases h
  case ready | parent | mkdtemp => exact ⟨rfl, id, hended⟩
  all_goals exact ⟨rfl, id, fun _ => trivial⟩

theorem writing_temporary {phase : Phase} {t name : String} (h : phase.writing? = some (t, name)) :
    phase.temporary? = some t := by
  cases phase <;> cases h <;> rfl

theorem tear_phase (s : State ι) (i : ι) (torn : Option Bytes) : (s.tear i torn).phase = s.phase := by
  unfold State.tear
  split <;> rfl

theorem put_self (s : State ι) (n : String) (d : Option Directory) : (s.put n d).directories n = d :=
  Function.update_self ..

theorem put_of_ne {s : State ι} {n m : String} {d : Option Directory} (h : m ≠ n) :
    (s.put n d).directories m = s.directories m := Function.update_of_ne h _ _

/-- **A policy that was there before is answered** as it stands. -/
theorem verifyExisting_answered {s : State ι} {i : ι} {policy answer : Manifest} (hpublishes : publishes lib (args i) = .ok policy)
    (h : verifyExisting lib s policy = .ok answer) : Answered lib args s i answer := by
  rw [verifyExisting] at h
  simp only [Checked.bind_eq_ok] at h
  obtain ⟨existing, hv, found, hfound, wanted, hwanted, h⟩ := h
  split at h
  · obtain ⟨_, h, _⟩ := h
  · rename_i hsame
    cases h
    rw [not_not] at hsame
    cases hd : s.directories (finalName policy) with
    | none =>
      rw [hd] at hv
      cases hv
    | some d =>
      rw [hd] at hv
      have hid : answer.policyId = policy.policyId := verify_name hv (not_isTemporary hpublishes)
      have haccepted := verify_against hv hfound hfound
      rw [finalName, ← hid] at hd haccepted
      exact ⟨⟨d, hd, haccepted⟩, policy, hpublishes, hid, by rw [hfound, hwanted, hsame]⟩

section
variable [DecidableEq ι] {s s' : State ι} {i : ι}

theorem goes_phase (s : State ι) (i : ι) (phase : Phase) : (s.goes i phase).phase i = phase := Function.update_self ..

/-- A call goes on in its own directory, if it has one. -/
theorem moves_own {phase : Phase} (hphase : s'.phase = Function.update s.phase i phase) (hdrawn : s'.drawn = s.drawn)
    (hsound : Sound lib args s) (hsame : phase.temporary? = (s.phase i).temporary?)
    (hdirs : ∀ n, (s.phase i).temporary? ≠ some n → s'.directories n = s.directories n)
    (hrenamed : (s.phase i).renamed = true → phase.renamed = true) (hcall : CallOk lib args s' i phase) :
    Moves lib args i s s' := by
  have hi : s'.phase i = phase := by rw [hphase, Function.update_self]
  have hfinal : ∀ n, ¬ isTemporary n → s'.directories n = s.directories n := fun n hn =>
    hdirs n fun ht => hn (hsound.drawn i n ht).2
  constructor
  · intro j hj
    rw [hphase, Function.update_of_ne hj]
  · exact hdrawn ▸ List.Subset.refl _
  · intro t ht
    rw [hi, hsame] at ht
    exact Or.inl ht
  · intro t ht
    rw [hi, hsame]
    exact ht
  · intro n _ ht
    rw [hi, hsame] at ht
    exact hdirs n ht
  · intro n d hn hd
    rw [hfinal n hn]
    exact hd
  · intro n d hn hd
    rw [hfinal n hn] at hd
    exact Or.inl hd
  · rw [hi]
    exact hrenamed
  · rw [hi]
    exact hcall

/-- A call goes on, and touches no directory. -/
theorem moves_goes {phase : Phase} (hsound : Sound lib args s) (hsame : phase.temporary? = (s.phase i).temporary?)
    (hrenamed : (s.phase i).renamed = true → phase.renamed = true) (hcall : CallOk lib args s i phase) :
    Moves lib args i s (s.goes i phase) :=
  moves_own rfl rfl hsound hsame (fun _ _ => rfl) hrenamed (hcall.frame (fun _ _ => rfl) fun _ _ _ h => h)

/-- A call goes on after it wrote a file into its directory. -/
theorem moves_write {t name : String} {data : Bytes} {phase : Phase} (hsound : Sound lib args s)
    (ht : (s.phase i).temporary? = some t) (hsame : phase.temporary? = some t)
    (hrenamed : (s.phase i).renamed = true → phase.renamed = true)
    (hcall : CallOk lib args ((s.write t name data).goes i phase) i phase) :
    Moves lib args i s ((s.write t name data).goes i phase) := by
  refine moves_own rfl rfl hsound (hsame.trans ht.symm) (fun n hn => ?_) hrenamed hcall
  exact put_of_ne fun h => hn (h ▸ ht)

theorem directories_write (s : State ι) (t name : String) (data : Bytes) (phase : Phase) :
    ((s.write t name data).goes i phase).directories t =
      (s.directories t).map fun d => d.set name (.regular data) := put_self ..

theorem moves_raise {e : Raised} (hsound : Sound lib args s) (h : s.raise i e = some s') : Moves lib args i s s' := by
  obtain ⟨phase, hp, rfl⟩ := Option.map_eq_some_iff.1 h
  obtain ⟨hsame, hrenamed, hcall⟩ := raise_spec (i := i) hp
  exact moves_goes hsound hsame hrenamed (hcall s)

/-- **An operation that may raise**: it succeeds, or the call cleans up. -/
theorem moves_attempt {α : Type} {x : Except Raised α} {f : α → State ι} (hsound : Sound lib args s)
    (h : s.attempt i x f = some s') (hok : ∀ a, x = .ok a → Moves lib args i s (f a)) : Moves lib args i s s' := by
  cases x with
  | ok a =>
    obtain rfl := Option.some.inj h
    exact hok a rfl
  | error e => exact moves_raise hsound h

/-- A call that dies or raises at an operation leaves at most its own file torn. -/
theorem moves_tear {phase : Phase} {torn : Option Bytes} (hsound : Sound lib args s)
    (hsame : phase.temporary? = (s.phase i).temporary?) (hrenamed : (s.phase i).renamed = true → phase.renamed = true)
    (hcall : ∀ s : State ι, CallOk lib args s i phase) : Moves lib args i s ((s.tear i torn).goes i phase) := by
  unfold State.tear
  split
  · rename_i t name data hw
    have ht := writing_temporary hw
    exact moves_write hsound ht (hsame.trans ht) hrenamed (hcall _)
  · exact moves_goes hsound hsame hrenamed (hcall s)

/-- **A rename puts the verified directory under its policy's id**, and no other. -/
theorem moves_rename {t : String} {policy : Manifest} (hsound : Sound lib args s) (hp : s.phase i = .rename t policy)
    (hcall : CallOk lib args s i (.rename t policy))
    (hfree : ¬ (s.directories (finalName policy)).any (fun d => !d.entries.isEmpty) = true) :
    Moves lib args i s
      (((s.put (finalName policy) (s.directories t)).put t none).goes i (.sync t true policy)) := by
  obtain ⟨hpublishes, d, hd, hv⟩ := hcall
  have hfinal : ¬ isTemporary (finalName policy) := not_isTemporary hpublishes
  have htemp : isTemporary t := (hsound.drawn i t (by rw [hp]; rfl)).2
  have hne : finalName policy ≠ t := fun h => hfinal (h ▸ htemp)
  have hother : ∀ n, n ≠ finalName policy → n ≠ t →
      ((s.put (finalName policy) (s.directories t)).put t none).directories n = s.directories n := fun n hn ht =>
    (put_of_ne ht).trans (put_of_ne hn)
  have hthere : ((s.put (finalName policy) (s.directories t)).put t none).directories (finalName policy) = some d :=
    (put_of_ne hne).trans ((put_self ..).trans hd)
  have hverify : verifyLoraPolicy lib policy.policyId (some d) (some policy) = .ok policy := verify_rename hv
  have hphase := goes_phase ((s.put (finalName policy) (s.directories t)).put t none) i (.sync t true policy)
  constructor
  · intro j hj
    exact Function.update_of_ne hj _ _
  · exact List.Subset.refl _
  · intro n hn
    rw [hphase] at hn
    rw [hp]
    exact Or.inl hn
  · intro n hn
    rw [hphase]
    rw [hp] at hn
    exact hn
  · intro n hn hnt
    rw [hphase] at hnt
    exact hother n (fun h => hfinal (h ▸ hn)) fun h => hnt (congrArg some h.symm)
  · intro n d' hn hd'
    by_cases hnf : n = finalName policy
    · -- a directory that stands there is not empty
      obtain ⟨_, _, _, _, _, haccepted⟩ := hsound.final n d' hn hd'
      refine absurd ?_ hfree
      rw [← hnf, hd']
      simpa using verify_ne_empty haccepted
    · exact (hother n hnf fun h => hn (h ▸ htemp)).trans hd'
  · intro n d' hn hd'
    by_cases hnf : n = finalName policy
    · subst hnf
      obtain rfl : d = d' := Option.some.inj (hthere.symm.trans hd')
      rw [hphase]
      exact Or.inr ⟨rfl, policy, hpublishes, rfl, hverify⟩
    · exact Or.inl ((hother n hnf fun h => hn (h ▸ htemp)).symm.trans hd')
  · intro _
    rw [hphase]
    rfl
  · rw [hphase]
    exact ⟨⟨d, hthere, hverify⟩, policy, hpublishes, rfl, rfl⟩

/-- The emptied directory is removed, and the call ends. -/
theorem moves_removed {t : String} {renamed : Bool} {outcome : Outcome} (hsound : Sound lib args s)
    (hp : s.phase i = .cleanup t renamed outcome) (hcall : OutcomeOk lib args s i outcome) :
    Moves lib args i s ((s.put t none).goes i (.ended (some t) renamed outcome)) := by
  have htemp : isTemporary t := (hsound.drawn i t (by rw [hp]; rfl)).2
  have hkeeps : Keeps s ((s.put t none).goes i (.ended (some t) renamed outcome)) := fun n d hn hd => by
    have hne : n ≠ t := fun h => hn (h ▸ htemp)
    exact (put_of_ne hne).trans hd
  refine moves_own rfl rfl hsound (by rw [hp]; rfl) (fun n hn => ?_) (by rw [hp]; exact id)
    ⟨fun n hn => ?_, hcall.frame hkeeps⟩
  · rw [hp] at hn
    exact put_of_ne fun h => hn (congrArg some h.symm)
  · obtain rfl := Option.some.inj hn
    exact put_self ..

/-- **The next operation of a call.** -/
theorem moves_step (hsound : Sound lib args s) (h : stepCall lib args s i = some s') : Moves lib args i s s' := by
  have hcall := hsound.call i
  unfold stepCall at h
  split at h
  case h_1 hp =>
    rw [hp] at hcall
    refine moves_attempt hsound h fun modules hm => ?_
    exact moves_goes hsound (by rw [hp]; rfl) (by rw [hp]; exact id) hm
  case h_2 modules hp =>
    rw [hp] at hcall
    split at h
    · exact moves_raise hsound h
    · exact moves_raise hsound h
    · obtain rfl := Option.some.inj h
      exact moves_goes hsound (by rw [hp]; rfl) (by rw [hp]; exact id) hcall
  case h_3 => cases h
  case h_4 t modules hp =>
    rw [hp] at hcall
    obtain ⟨hm, hd⟩ := hcall
    refine moves_attempt hsound h fun weights hw => ?_
    refine moves_write hsound (by rw [hp]; rfl) rfl (by rw [hp]; exact id) ⟨hm, weights, hw, ?_⟩
    rw [directories_write, hd]
    rfl
  case h_5 t modules hp =>
    rw [hp] at hcall
    obtain ⟨hm, weights, hw, hd⟩ := hcall
    refine moves_attempt hsound h fun config hc => ?_
    refine moves_write hsound (by rw [hp]; rfl) rfl (by rw [hp]; exact id) ⟨hm, weights, config, hw, hc, ?_⟩
    rw [directories_write, hd]
    rfl
  case h_6 t modules hp =>
    rw [hp] at hcall
    obtain ⟨hm, weights, config, hw, hc, hd⟩ := hcall
    refine moves_attempt hsound h fun built hb => ?_
    rw [hd] at hb
    refine moves_write hsound (by rw [hp]; rfl) rfl (by rw [hp]; exact id) ⟨_, ?_, buildManifest_layout hm hw hc hb⟩
    rw [directories_write, hd]
    rfl
  case h_7 t policy hp =>
    rw [hp] at hcall
    obtain ⟨d, hd, hlayout⟩ := hcall
    obtain ⟨data, hread, hdata⟩ := hlayout.manifest
    refine moves_attempt hsound h fun found hv => ?_
    refine moves_goes hsound (by rw [hp]; rfl) (by rw [hp]; exact id) ⟨hlayout.publishes, d, hd, ?_⟩
    rw [hd] at hv
    -- the directory has the bytes of one manifest only
    obtain ⟨data', hread', hdata'⟩ := verify_canonical hv
    obtain rfl : data = data' := Except.ok.inj (hread.symm.trans hread')
    rwa [canonical_injective lib hdata' hdata] at hv
  case h_8 t policy hp =>
    rw [hp] at hcall
    split at h
    · rename_i hthere
      obtain rfl := Option.some.inj h
      exact moves_goes hsound (by rw [hp]; rfl) (by rw [hp]; exact id) ⟨hcall.1, hthere⟩
    · obtain rfl := Option.some.inj h
      exact moves_goes hsound (by rw [hp]; rfl) (by rw [hp]; exact id) hcall
  case h_9 t policy hp =>
    rw [hp] at hcall
    split at h
    · rename_i hfull
      obtain ⟨d, hd, -⟩ := (Option.any_eq_true _ _).1 hfull
      obtain rfl := Option.some.inj h
      exact moves_goes hsound (by rw [hp]; rfl) (by rw [hp]; exact id) ⟨hcall.1, Option.isSome_of_eq_some hd⟩
    · rename_i hfree
      obtain rfl := Option.some.inj h
      exact moves_rename hsound hp hcall hfree
  case h_10 t policy hp =>
    rw [hp] at hcall
    refine moves_attempt hsound h fun answer ha => ?_
    exact moves_goes hsound (by rw [hp]; rfl) (by rw [hp]; exact id) (verifyExisting_answered hcall.1 ha)
  case h_11 t renamed answer hp =>
    rw [hp] at hcall
    obtain rfl := Option.some.inj h
    exact moves_goes hsound (by rw [hp]; rfl) (by rw [hp]; exact id) hcall
  case h_12 t renamed outcome hp =>
    rw [hp] at hcall
    split at h
    · rename_i hd
      obtain rfl := Option.some.inj h
      refine moves_goes hsound (by rw [hp]; rfl) (by rw [hp]; exact id) ⟨fun n hn => ?_, hcall⟩
      rwa [← Option.some.inj hn]
    · rename_i directory hd
      split at h
      · obtain rfl := Option.some.inj h
        exact moves_removed hsound hp hcall
      · cases h
  case h_13 => cases h
  case h_14 => cases h

/-- `mkdtemp` gives a call its empty directory. -/
theorem moves_draw {name : String} {modules : List String} (hsound : Sound lib args s)
    (hp : s.phase i = .mkdtemp modules) (htemp : isTemporary name) (hnew : name ∉ s.drawn) :
    Moves lib args i s (({ s with drawn := name :: s.drawn }.put name (some Dict.empty)).goes i (.weights name modules)) := by
  have hcall := hsound.call i
  rw [hp] at hcall
  have hphase := goes_phase ({ s with drawn := name :: s.drawn }.put name (some Dict.empty)) i (.weights name modules)
  have hfinal : ∀ n, ¬ isTemporary n →
      ({ s with drawn := name :: s.drawn }.put name (some Dict.empty)).directories n = s.directories n := fun n hn =>
    put_of_ne fun h => hn (h ▸ htemp)
  constructor
  · intro j hj
    exact Function.update_of_ne hj _ _
  · exact List.subset_cons_self ..
  · intro t ht
    rw [hphase] at ht
    obtain rfl := Option.some.inj ht
    exact Or.inr ⟨hnew, List.mem_cons_self, htemp⟩
  · intro t ht
    rw [hp] at ht
    cases ht
  · intro n _ ht
    rw [hphase] at ht
    exact put_of_ne fun h => ht (congrArg some h.symm)
  · intro n d hn hd
    exact (hfinal n hn).trans hd
  · intro n d hn hd
    exact Or.inl ((hfinal n hn).symm.trans hd)
  · intro h
    rw [hp] at h
    cases h
  · rw [hphase]
    exact ⟨hcall, put_self ..⟩

/-- The cleanup of a call unlinks a file of its directory. -/
theorem moves_unlink {t : String} {renamed : Bool} {outcome : Outcome} {d : Directory} (hsound : Sound lib args s)
    (hp : s.phase i = .cleanup t renamed outcome) : Moves lib args i s (s.put t (some d)) := by
  have htemp : isTemporary t := (hsound.drawn i t (by rw [hp]; rfl)).2
  have hcall := hsound.call i
  have hsame : (s.put t (some d)).phase = Function.update s.phase i (s.phase i) := (Function.update_eq_self ..).symm
  have hkeeps : Keeps s (s.put t (some d)) := fun n e hn he => by
    have hne : n ≠ t := fun h => hn (h ▸ htemp)
    exact (put_of_ne hne).trans he
  apply moves_own hsame rfl hsound rfl
  · intro n hn
    rw [hp] at hn
    exact put_of_ne fun h => hn (congrArg some h.symm)
  · exact id
  · rw [hp] at hcall ⊢
    exact OutcomeOk.frame hcall hkeeps

/-- What a draw leads to. -/
theorem next_draw {name : String} (h : next lib args s (.draw i name) = some s') : ∃ modules,
    s.phase i = .mkdtemp modules ∧ (isTemporary name ∧ s.directories name = none) ∧
      s' = ({ s with drawn := name :: s.drawn }.put name (some Dict.empty)).goes i (.weights name modules) := by
  rw [next] at h
  split at h
  · rename_i modules hp
    obtain ⟨hname, h⟩ := Option.ite_none_right_eq_some.1 h
    exact ⟨modules, hp, hname, (Option.some.inj h).symm⟩
  · cases h

/-- **Every event moves its call**, where the name it draws, if any, was not drawn before. -/
theorem moves_next {e : Event ι} (hsound : Sound lib args s) (hnew : ∀ name ∈ e.name?, name ∉ s.drawn)
    (h : next lib args s e = some s') : Moves lib args e.call s s' := by
  cases e with
  | step i => exact moves_step hsound h
  | draw i name =>
    obtain ⟨modules, hp, hname, rfl⟩ := next_draw h
    exact moves_draw hsound hp hname.1 (hnew name rfl)
  | fault i torn =>
    rw [next] at h
    split at h
    · cases h
    · obtain ⟨phase, hp, rfl⟩ := Option.map_eq_some_iff.1 h
      rw [tear_phase] at hp
      obtain ⟨hsame, hrenamed, hcall⟩ := raise_spec (i := i) hp
      exact moves_tear hsound hsame hrenamed hcall
  | unlink i name =>
    rw [next] at h
    split at h
    · rename_i t renamed outcome hp
      split at h
      · split at h
        · obtain rfl := Option.some.inj h
          exact moves_unlink hsound hp
        · cases h
      · cases h
    · cases h
  | kill i torn =>
    rw [next] at h
    split at h
    · obtain rfl := Option.some.inj h
      exact moves_tear hsound rfl id fun _ => trivial
    · cases h

/-! ## Runs -/

/-- What neither the directories nor the phases say. -/
structure Still {β : Type} (f : State ι → β) : Prop where
  put : ∀ s n d, f (State.put s n d) = f s
  goes : ∀ s i phase, f (State.goes s i phase) = f s

theorem still_drawn : Still (ι := ι) State.drawn := ⟨fun _ _ _ => rfl, fun _ _ _ => rfl⟩

theorem still_parent : Still (ι := ι) State.parent := ⟨fun _ _ _ => rfl, fun _ _ _ => rfl⟩

section
variable {β : Type} {f : State ι → β} (hf : Still f)

include hf

theorem Still.write (s : State ι) (t name : String) (data : Bytes) : f (s.write t name data) = f s := hf.put ..

theorem Still.tear (torn : Option Bytes) : f (s.tear i torn) = f s := by
  unfold State.tear
  split
  · exact hf.write ..
  · rfl

theorem Still.raise {error : Raised} (h : s.raise i error = some s') : f s' = f s := by
  obtain ⟨_, _, rfl⟩ := Option.map_eq_some_iff.1 h
  exact hf.goes ..

theorem Still.attempt {α : Type} {x : Except Raised α} {g : α → State ι} (hg : ∀ a, f (g a) = f s)
    (h : s.attempt i x g = some s') : f s' = f s := by
  cases x with
  | ok a =>
    obtain rfl := Option.some.inj h
    exact hg a
  | error e => exact hf.raise h

/-- No step of a call draws a name, or touches the parent directory. -/
theorem Still.stepCall (h : stepCall lib args s i = some s') : f s' = f s := by
  unfold Publish.stepCall at h
  cases hp : s.phase i <;> rw [hp] at h <;> dsimp only at h
  case ready | verify | existing => exact hf.attempt (fun _ => hf.goes ..) h
  case weights | config | manifest => exact hf.attempt (fun _ => (hf.goes ..).trans (hf.write ..)) h
  case parent =>
    split at h
    · exact hf.raise h
    · exact hf.raise h
    · obtain rfl := Option.some.inj h
      exact hf.goes ..
  case exists? =>
    split at h <;> obtain rfl := Option.some.inj h <;> exact hf.goes ..
  case rename =>
    split at h <;> obtain rfl := Option.some.inj h
    · exact hf.goes ..
    · exact (hf.goes ..).trans ((hf.put ..).trans (hf.put ..))
  case sync =>
    obtain rfl := Option.some.inj h
    exact hf.goes ..
  case cleanup =>
    split at h
    · obtain rfl := Option.some.inj h
      exact hf.goes ..
    · obtain ⟨_, h⟩ := Option.ite_none_right_eq_some.1 h
      obtain rfl := Option.some.inj h
      exact (hf.goes ..).trans (hf.put ..)
  all_goals cases h

/-- Nor does any other event but a draw. -/
theorem Still.next {e : Event ι} (he : e.name? = none) (h : next lib args s e = some s') : f s' = f s := by
  cases e with
  | step i => exact hf.stepCall h
  | draw => cases he
  | fault i torn =>
    rw [Publish.next] at h
    split at h
    · cases h
    · exact (hf.raise h).trans (hf.tear torn)
  | unlink i name =>
    rw [Publish.next] at h
    split at h
    · split at h
      · obtain ⟨_, h⟩ := Option.ite_none_right_eq_some.1 h
        obtain rfl := Option.some.inj h
        exact hf.put ..
      · cases h
    · cases h
  | kill i torn =>
    obtain ⟨_, h⟩ := Option.ite_none_right_eq_some.1 h
    obtain rfl := Option.some.inj h
    exact (hf.goes ..).trans (hf.tear torn)

end

/-- A name that was drawn was drawn before or is the event's. -/
theorem next_drawn {e : Event ι} (h : next lib args s e = some s') : ∀ name ∈ s'.drawn,
    name ∈ s.drawn ∨ e.name? = some name := by
  cases he : e.name? with
  | none =>
    rw [still_drawn.next he h]
    exact fun name hn => Or.inl hn
  | some name =>
    cases e <;> cases he
    obtain ⟨_, _, _, rfl⟩ := next_draw h
    intro other hother
    exact (List.mem_cons.1 hother).symm.imp_right fun hn => congrArg some hn.symm

theorem next_parent {e : Event ι} (h : next lib args s e = some s') : s'.parent = s.parent := by
  cases he : e.name? with
  | none => exact still_parent.next he h
  | some name =>
    cases e <;> cases he
    obtain ⟨_, _, _, rfl⟩ := next_draw h
    rfl

/-- **Events that draw fresh names keep the soundness of every call and every final directory.** -/
theorem drive_sound (events : List (Event ι)) (hsound : Sound lib args s) (hfresh : FreshNames events)
    (hnew : ∀ name ∈ events.filterMap Event.name?, name ∉ s.drawn) :
    Sound lib args (Machine.drive (next lib args) s events) ∧ Keeps s (Machine.drive (next lib args) s events) := by
  refine Machine.drive_fresh (I := fun t => Sound lib args t ∧ Keeps s t) (D := fun t name => name ∈ t.drawn)
    ?_ (fun _ _ _ h => next_drawn h) events ⟨hsound, Keeps.refl s⟩ hfresh hnew
  rintro t e t' ⟨ht, hkeeps⟩ hname h
  have hm := moves_next ht hname h
  exact ⟨ht.moves hm, hkeeps.trans hm.keeps⟩

/-- Every name drawn in a run is that of one of its events. -/
theorem drawn_reached (parent : Parent) (events : List (Event ι)) :
    ∀ name ∈ (reached lib args parent events).drawn, name ∈ events.filterMap Event.name? := by
  have hdrive : ∀ (events : List (Event ι)) (s : State ι),
      ∀ name ∈ (Machine.drive (next lib args) s events).drawn, name ∈ s.drawn ∨ name ∈ events.filterMap Event.name? := by
    intro events
    induction events with
    | nil => exact fun s name hn => Or.inl hn
    | cons e events ih =>
      intro s name hn
      have hstep : name ∈ ((next lib args s e).getD s).drawn → name ∈ s.drawn ∨ e.name? = some name := by
        cases h : next lib args s e with
        | none => exact Or.inl
        | some s' => exact next_drawn h name
      rw [List.filterMap_cons]
      obtain hn | hn := ih _ name hn
      · obtain hn | he := hstep hn
        · exact Or.inl hn
        · rw [he]
          exact Or.inr List.mem_cons_self
      · refine Or.inr ?_
        cases e.name? with
        | none => exact hn
        | some other => exact List.mem_cons_of_mem _ hn
  exact fun name hn => (hdrive events (start ι parent) name hn).resolve_left List.not_mem_nil

/-- **Every state that events lead to is sound.** -/
theorem sound_reached (parent : Parent) {events : List (Event ι)} (hfresh : FreshNames events) :
    Sound lib args (reached lib args parent events) :=
  (drive_sound events (sound_start parent) hfresh fun _ _ => List.not_mem_nil).1

/-- **No event touches a final directory.** -/
theorem keeps_reached (parent : Parent) {events more : List (Event ι)} (hfresh : FreshNames (events ++ more)) :
    Keeps (reached lib args parent events) (reached lib args parent (events ++ more)) := by
  rw [FreshNames, List.filterMap_append] at hfresh
  obtain ⟨hevents, hmore, hdisjoint⟩ := List.nodup_append.1 hfresh
  have hdrawn : ∀ name ∈ (reached lib args parent events).drawn, name ∈ events.filterMap Event.name? :=
    drawn_reached parent events
  rw [reached, reached, Machine.drive_append]
  exact (drive_sound more (sound_reached parent hevents) hmore fun name hn hd =>
    hdisjoint name (hdrawn name hd) name hn rfl).2

/-- **No call is stopped by its own layout**, where the libraries read back what they wrote. -/
theorem Sound.verifies {t : String} {policy : Manifest} (h : Sound lib args s) (hp : s.phase i = .verify t policy)
    (hback : ReadsBack lib (args i)) : stepCall lib args s i = some (s.goes i (.exists? t policy)) := by
  have hcall := h.call i
  have htemp : isTemporary t := (h.drawn i t (by rw [hp]; rfl)).2
  rw [hp] at hcall
  obtain ⟨d, hd, hlayout⟩ := hcall
  unfold stepCall
  rw [hp]
  simp only [hd, hlayout.accepted hback htemp, State.attempt]

/-- **Published policies verify.**  A directory of a final name was put there whole by a call, is accepted against what that
call publishes, and stands ever after; what a call returns stands; calls that publish one identity return one manifest;
a call that raised before its rename left no final directory, and no call that ended left its temporary one.  `mkdtemp`
is taken to draw no name twice. -/
theorem published_policies_verify (lib : Libraries δ) (args : ι → Args δ) (parent : Parent) (events : List (Event ι))
    (hfresh : FreshNames events) :
    (∀ n d, ¬ isTemporary n → (reached lib args parent events).directories n = some d →
      (∃ i policy, ((reached lib args parent events).phase i).renamed = true ∧
        publishes lib (args i) = .ok policy ∧ policy.policyId = n ∧
        verifyLoraPolicy lib n (some d) (some policy) = .ok policy) ∧
      ∀ more, FreshNames (events ++ more) → (reached lib args parent (events ++ more)).directories n = some d) ∧
    (∀ i t renamed answer, (reached lib args parent events).phase i = .ended t renamed (.returned answer) →
      (∃ d, (reached lib args parent events).directories answer.policyId = some d ∧
        verifyLoraPolicy lib answer.policyId (some d) (some answer) = .ok answer) ∧
      ∃ policy, publishes lib (args i) = .ok policy ∧ answer.policyId = policy.policyId ∧
        policyManifestDigest lib answer = policyManifestDigest lib policy) ∧
    (∀ i j t t' renamed renamed' policy policy' answer answer',
      publishes lib (args i) = .ok policy → publishes lib (args j) = .ok policy' → policy.identity = policy'.identity →
      (reached lib args parent events).phase i = .ended t renamed (.returned answer) →
      (reached lib args parent events).phase j = .ended t' renamed' (.returned answer') → answer = answer') ∧
    (∀ i t error, (reached lib args parent events).phase i = .ended t false (.raised error) →
      ∀ n d, ¬ isTemporary n → (reached lib args parent events).directories n = some d →
        ∃ j, j ≠ i ∧ ((reached lib args parent events).phase j).renamed = true ∧
          ∃ policy, publishes lib (args j) = .ok policy ∧ policy.policyId = n) ∧
    (∀ i t renamed outcome, (reached lib args parent events).phase i = .ended (some t) renamed outcome →
      (reached lib args parent events).directories t = none) ∧
    (∀ n d, isTemporary n → (reached lib args parent events).directories n = some d →
      ∃ i, ((reached lib args parent events).phase i).temporary? = some n ∧
        ((reached lib args parent events).phase i).isEnded = false) := by
  have hsound : Sound lib args (reached lib args parent events) := sound_reached parent hfresh
  refine ⟨fun n d hn hd => ?_, fun i t renamed answer hp => hsound.answered hp, ?_, ?_, ?_, hsound.owned⟩
  · exact ⟨hsound.final n d hn hd, fun more hmore => keeps_reached parent hmore n d hn hd⟩
  · intro i j t t' renamed renamed' policy policy' answer answer' hi hj hidentity hpi hpj
    obtain ⟨hstands, p, hp, hid, _⟩ := hsound.answered hpi
    obtain ⟨hstands', p', hp', hid', _⟩ := hsound.answered hpj
    obtain rfl := Except.ok.inj (hi.symm.trans hp)
    obtain rfl := Except.ok.inj (hj.symm.trans hp')
    exact hstands.unique hstands' (by rw [hid, hid', policyId_eq hi hj hidentity])
  · intro i t error hp n d hn hd
    obtain ⟨j, policy, hrenamed, hpublishes, hid, _⟩ := hsound.final n d hn hd
    refine ⟨j, fun hji => ?_, hrenamed, policy, hpublishes, hid⟩
    rw [hji, hp] at hrenamed
    cases hrenamed
  · intro i t renamed outcome hp
    have hcall := hsound.call i
    rw [hp] at hcall
    exact hcall.1 t rfl

end

/-! ## Two calls for one policy -/

namespace Sample

mutual

/-- `a == b`, of values without numbers that are equal across types. -/
def same : Json → Json → Bool
  | .null, .null => true
  | .bool a, .bool b => decide (a = b)
  | .int a, .int b => decide (a = b)
  | .float a, .float b => decide (a = b)
  | .str a, .str b => decide (a = b)
  | .list as, .list bs => sameList as bs
  | .object as, .object bs => sameItems as bs
  | _, _ => false

def sameList : List Json → List Json → Bool
  | [], [] => true
  | a :: as, b :: bs => same a b && sameList as bs
  | _, _ => false

def sameItems : List (String × Json) → List (String × Json) → Bool
  | [], [] => true
  | a :: as, b :: bs => decide (a.1 = b.1) && same a.2 b.2 && sameItems as bs
  | _, _ => false

end

mutual

theorem eq_of_same : ∀ {a b : Json}, same a b = true → a = b
  | .null, b, h => by cases b <;> simp_all [same]
  | .bool _, b, h => by cases b <;> simp_all [same]
  | .int _, b, h => by cases b <;> simp_all [same]
  | .float _, b, h => by cases b <;> simp_all [same]
  | .str _, b, h => by cases b <;> simp_all [same]
  | .list as, b, h => by
    cases b <;> rw [same] at h <;> try cases h
    rw [eq_of_sameList h]
  | .object as, b, h => by
    cases b <;> rw [same] at h <;> try cases h
    rw [eq_of_sameItems h]

theorem eq_of_sameList : ∀ {as bs : List Json}, sameList as bs = true → as = bs
  | [], [], _ => rfl
  | [], _ :: _, h => by cases h
  | _ :: _, [], h => by cases h
  | a :: as, b :: bs, h => by
    rw [sameList, Bool.and_eq_true] at h
    rw [eq_of_same h.1, eq_of_sameList h.2]

theorem eq_of_sameItems : ∀ {as bs : List (String × Json)}, sameItems as bs = true → as = bs
  | [], [], _ => rfl
  | [], _ :: _, h => by cases h
  | _ :: _, [], h => by cases h
  | a :: as, b :: bs, h => by
    rw [sameItems, Bool.and_eq_true, Bool.and_eq_true, decide_eq_true_eq] at h
    rw [Prod.ext h.1.1 (eq_of_same h.1.2), eq_of_sameItems h.2]

end

def utf8 (s : String) : Bytes := s.toUTF8.data.toList

mutual

/-- What `json.dumps` writes with sorted keys and no space, of values whose texts need no escape and whose floats are
whole. -/
def bytes : Json → Bytes
  | .null => utf8 "null"
  | .bool b => utf8 (if b then "true" else "false")
  | .int n => utf8 (toString n)
  | .float (.finite q) => utf8 (toString q.num) ++ utf8 ".0"
  | .float _ => []
  | .str s => utf8 "\"" ++ utf8 s ++ utf8 "\""
  | .list values => utf8 "[" ++ bytesList values ++ utf8 "]"
  | .object items => utf8 "\x7b" ++ bytesItems items ++ utf8 "\x7d"

def bytesList : List Json → Bytes
  | [] => []
  | [v] => bytes v
  | v :: values => bytes v ++ utf8 "," ++ bytesList values

def bytesItems : List (String × Json) → Bytes
  | [] => []
  | [x] => utf8 "\"" ++ utf8 x.1 ++ utf8 "\":" ++ bytes x.2
  | x :: items => utf8 "\"" ++ utf8 x.1 ++ utf8 "\":" ++ bytes x.2 ++ utf8 "," ++ bytesItems items

end

def noDigest : Digest := "sha256:" ++ String.ofList (List.replicate 64 '0')

def baseModel : BaseModelIdentity := ⟨"m", "r", noDigest, "t", "r", noDigest, noDigest, 8, "none"⟩

def tensor : AdapterTensor Bytes := ⟨true, [1, 1], [0, 0, 0, 0]⟩

def adapter : StateDict Bytes := ⟨[("q.lora_A.weight", tensor), ("q.lora_B.weight", tensor)], by decide⟩

def header : String :=
  "\x7b\"__metadata__\":\x7b\"format\":\"pt\"\x7d,\"q.lora_A.weight\":\x7b\"dtype\":\"F32\",\"shape\":[1,1]," ++
    "\"data_offsets\":[0,4]\x7d,\"q.lora_B.weight\":\x7b\"dtype\":\"F32\",\"shape\":[1,1],\"data_offsets\":[4,8]\x7d\x7d      "

/-- What `save_file` writes of the adapter: the length of the header, the header, and the data. -/
def weights : Bytes := [176, 0, 0, 0, 0, 0, 0, 0] ++ utf8 header ++ List.replicate 8 0

/-- Two calls that differ in when their policies were created. -/
def calls (later : Bool) : Args Bytes :=
  ⟨"run", 1, baseModel, adapter, 1, .float (.finite 1), .float (.finite 0), .float (.finite (if later then 4 else 3))⟩

def config : Json := adapterConfig (calls false) ["q"]

def configDigest : Digest := "sha256:9a37230f04f95cb3c441cb9b47ee6e2004be6dbae0af56e4023f0f8b0744c1e3"
def weightsDigest : Digest := "sha256:db3199f2a784278cdd142e5fd652e4d1eba63be8d82e5a83b318fed919817f08"
def contentDigest : Digest := "sha256:0685f1d6495c57a2fd162dda8b42092a6c8dea04269ff5fc063594e7230e7cd6"
def identityDigest : Digest := "sha256:191846c62e6acb6442efd9d6d9c32b3e1d431cca78b5d74a993ce66068f856f2"

def files : List AdapterFile := [⟨adapterConfigName, 250, configDigest⟩, ⟨adapterWeightsName, 192, weightsDigest⟩]

def content : Json := adapterContent files 1 (.finite 1) ["q"]

def identity : Identity := ⟨"run", 1, baseModel, some contentDigest⟩

def policyId : OpaqueId := "policy-v00000001-191846c62e6acb64"

def policy (later : Bool) : Manifest :=
  ⟨"run", 1, baseModel, some ⟨contentDigest, files, 1, .finite 1, ["q"]⟩, .finite (if later then 4 else 3), policyId,
    policyId⟩

/-- What the two calls write as JSON. -/
def values : List Json := [config, content, identity.json, (policy false).json, (policy true).json]

def dumps (v : Json) : Option Bytes := (values.find? (same v)).map bytes

def loads (data : Bytes) : Option Json := values.find? fun v => decide (bytes v = data)

theorem bytes_distinct : (values.map bytes).Nodup := by decide +kernel

theorem loads_dumps {v : Json} {data : Bytes} (h : dumps v = some data) : loads data = some v := by
  obtain ⟨w, hw, rfl⟩ := Option.map_eq_some_iff.1 h
  obtain rfl := eq_of_same (List.find?_some hw)
  have hmem := List.mem_of_find?_eq_some hw
  cases hfind : loads (bytes v) with
  | none => exact absurd (decide_eq_true rfl) (List.find?_eq_none.1 hfind v hmem)
  | some u =>
    have hu := List.mem_of_find?_eq_some hfind
    have hfound := List.find?_some hfind
    have hbytes : bytes u = bytes v := of_decide_eq_true hfound
    exact congrArg some (List.inj_on_of_nodup_map bytes_distinct hu hmem hbytes)

def sha256 (data : Bytes) : Digest :=
  (([(bytes config, configDigest), (weights, weightsDigest), (bytes content, contentDigest),
    (bytes identity.json, identityDigest)] : List (Bytes × Digest)).lookup data).getD noDigest

def libraries : Libraries Bytes where
  dumps := dumps
  loads := loads
  loads_dumps _ _ _ := loads_dumps
  sha256 := sha256
  saveFile d := if d.entries = adapter.entries then some weights else none
  safeOpen data := if data = weights then some adapter else none
  validateJson data := [policy false, policy true].find? fun m => decide (bytes m.json = data)
  floatOf n := some n

/-- Both calls find no policy under the final name; the first renames, and the second takes what stands there. -/
def events : List (Event Bool) :=
  [.step false, .step true, .step false, .step true, .draw false ".policy-k3x9q1ab", .draw true ".policy-p07zt5wd"] ++
    List.replicate 5 (.step false) ++ List.replicate 5 (.step true) ++ List.replicate 3 (.step false) ++
    List.replicate 3 (.step true) ++
    [.unlink true adapterConfigName, .unlink true adapterWeightsName, .unlink true policyManifestName, .step true]

theorem events_fresh : FreshNames events := by
  unfold FreshNames
  decide

theorem ended : (reached libraries calls .directory events).phase false =
      .ended (some ".policy-k3x9q1ab") true (.returned (policy false)) ∧
    (reached libraries calls .directory events).phase true =
      .ended (some ".policy-p07zt5wd") false (.returned (policy false)) := by decide +kernel

end Sample

/-- Two calls race for one name: both return the policy that stands under it, and no temporary directory is left. -/
theorem published_policies_verify_sample :
    (∃ d, (reached Sample.libraries Sample.calls .directory Sample.events).directories (Sample.policy false).policyId =
        some d ∧
      verifyLoraPolicy Sample.libraries (Sample.policy false).policyId (some d) (some (Sample.policy false)) =
        .ok (Sample.policy false)) ∧
    (reached Sample.libraries Sample.calls .directory Sample.events).phase true =
      .ended (some ".policy-p07zt5wd") false (.returned (Sample.policy false)) ∧
    (reached Sample.libraries Sample.calls .directory Sample.events).directories ".policy-p07zt5wd" = none := by
  obtain ⟨-, hreturned, -, -, hcleaned, -⟩ :=
    published_policies_verify Sample.libraries Sample.calls .directory Sample.events Sample.events_fresh
  obtain ⟨hfirst, hsecond⟩ := Sample.ended
  exact ⟨(hreturned _ _ _ _ hfirst).1, hsecond, hcleaned _ _ _ _ hsecond⟩

end Publish
end Aether
