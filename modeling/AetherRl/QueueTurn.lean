import Mathlib.Data.List.Dedup
import AetherRl.QueueSelect
import AetherRl.RepoMembers
/-!
# QueueTurn — what one iteration of the emission loop does

`turn_spec` says it once: an iteration that ends the loop found nothing stale and no policy with enough pending, one that
discards takes waiting rollouts away, and one that emits records the batch it selected.  None of them trips a check of
the code's own, where the artifacts are stamped as `_process_group` stamps them.
-/
namespace Aether
namespace Queue

open Txn (Returns Wp Keeps wp_bind wp_pure wp_throw returns_bind returns_raiseIf)
open Repo

variable {F α : Type} {p : Processor F} {s s' : Store}

section
variable {Q : α → Store → Prop} {E : ProcessError → Store → Prop}

@[simp] theorem wp_onWorld (m : Method α) : Wp (onWorld m) Q E s ↔
    Wp m (fun a w => Q a { s with world := w }) (fun e w => E (.repository e) { s with world := w }) s.world := by
  unfold Wp onWorld
  rcases m s.world with ⟨_ | _, w⟩ <;> rfl

@[simp] theorem wp_orThrow (r : Except ProcessError α) : Wp (orThrow r) Q E s ↔
    (∀ a, r = .ok a → Q a s) ∧ ∀ e, r = .error e → E e s := by
  unfold Wp orThrow
  cases r <;> simp

@[simp] theorem wp_raiseUnless (c : Prop) [Decidable c] (e : ProcessError) {Q : Unit → Store → Prop} :
    Wp (raiseUnless c e) Q E s ↔ (c → Q () s) ∧ (¬ c → E e s) := by
  unfold raiseUnless
  by_cases hc : c <;> simp [hc]

theorem wp_readTables (f : Tables → α) :
    Wp (onWorld (select (f <$> tables))) Q E s ↔ Q (f s.world.db.toTables) s := Iff.rfl

end

/-! ## Publishing a batch -/

/-- The database and the group artifacts are as they were. -/
structure Undisturbed (s s' : Store) : Prop where
  db : s'.world.db = s.world.db
  groups : s'.queue.groups = s.queue.groups

theorem Undisturbed.refl (s : Store) : Undisturbed s s := ⟨rfl, rfl⟩

theorem Undisturbed.trans {s'' : Store} (h : Undisturbed s s') (h' : Undisturbed s' s'') : Undisturbed s s'' :=
  ⟨h'.db.trans h.db, h'.groups.trans h.groups⟩

theorem keeps_raiseUnless (c : Prop) [Decidable c] (e : ProcessError) : Keeps Undisturbed (raiseUnless c e) := by
  intro s
  unfold raiseUnless
  by_cases hc : c
  · rw [if_pos hc]
    exact .refl s
  · rw [if_neg hc]
    exact .refl s

theorem keeps_live : Keeps Undisturbed live := by
  intro s
  unfold live onWorld
  rcases durable_cases (fun w => (.ok (), w)) s.world with h | ⟨n, h⟩ <;> rw [h] <;> exact ⟨rfl, rfl⟩

/-- A step that leaves the groups alone. -/
theorem keeps_queueStep {f : QueueFiles → Nat → Except ProcessError QueueFiles}
    (hf : ∀ q n q', f q n = .ok q' → q'.groups = q.groups) : Keeps Undisturbed (queueStep f) := by
  refine Keeps.bind (fun _ _ _ => .trans) keeps_live fun _ s => ?_
  unfold updateQueue
  cases h : f s.queue s.world.torn with
  | error e => exact .refl s
  | ok q => exact ⟨rfl, hf _ _ _ h⟩

/-- **The cleanup runs after everything but a crash.** -/
theorem tryFinally_cases (body : Program α) (cleanup : Program Unit) (s : Store) :
    ((body s).1 = .error .crash ∧ tryFinally body cleanup s = body s) ∨
      ((body s).1 ≠ .error .crash ∧ tryFinally body cleanup s = match cleanup (body s).2 with
        | (.error e, s'') => (.error e, s'')
        | (.ok (), s'') => ((body s).1, s'')) := by
  unfold tryFinally
  rcases body s with ⟨r, s'⟩
  by_cases hr : r = .error .crash
  · subst hr
    exact Or.inl ⟨rfl, rfl⟩
  · refine Or.inr ⟨hr, ?_⟩
    split
    · rename_i heq
      cases heq
      exact absurd rfl hr
    · rename_i heq
      cases heq
      rfl

theorem keeps_tryFinally {body : Program α} {cleanup : Program Unit} (hb : Keeps Undisturbed body)
    (hc : Keeps Undisturbed cleanup) : Keeps Undisturbed (tryFinally body cleanup) := by
  intro s
  have hbody := hb s
  have hclean := hc (body s).2
  rcases tryFinally_cases body cleanup s with ⟨_, h⟩ | ⟨_, h⟩ <;> rw [h]
  · exact hbody
  · generalize cleanup (body s).2 = c at hclean ⊢
    rcases c with ⟨_ | _, s''⟩ <;> exact hbody.trans hclean

theorem keeps_drawName (uuid : Nat → String) : Keeps Undisturbed (drawName uuid) := fun _ => ⟨rfl, rfl⟩

theorem keeps_linkFinal (c : Codec) (temporary final : String) (digest : Digest) (size : Int) :
    Keeps Undisturbed (linkFinal c .batches temporary final digest size) := by
  refine keeps_queueStep fun q n q' h => ?_
  split at h
  · cases hv : verify c q final digest size with
    | error e =>
      rw [hv] at h
      cases h
    | ok data =>
      rw [hv] at h
      rw [← Except.ok.inj h]
  · rw [← Except.ok.inj h]
    rfl
  · cases h

/-- **Publishing a batch touches no table and no group**, however it ends. -/
theorem keeps_publishBatch (c : Codec) (uuid : Nat → String) (step : Int) (digest : Digest) (data : Bytes) :
    Keeps Undisturbed (publishBatch c uuid step digest data) := by
  have ht : ∀ a b c, Undisturbed a b → Undisturbed b c → Undisturbed a c := fun _ _ _ => .trans
  have hset : ∀ (name : String) (f : String × Bytes → String × Bytes), Keeps Undisturbed
      (queueStep fun q _ => .ok { q with incoming := Rows.set Prod.fst name f q.incoming }) := fun name f =>
    keeps_queueStep fun q n q' h => by rw [← Except.ok.inj h]
  refine .bind ht (keeps_raiseUnless _ _) fun _ => .bind ht (keeps_raiseUnless _ _) fun _ =>
    .bind ht (keeps_raiseUnless _ _) fun _ => .bind ht (keeps_drawName uuid) fun name => .bind ht ?_ fun _ =>
    .bind ht (keeps_tryFinally (.bind ht ?_ fun _ => .bind ht (hset name _) fun _ =>
      keeps_linkFinal c name _ digest _) ?_) fun _ => .pure .refl _
  · refine keeps_queueStep fun q n q' h => ?_
    split at h
    · cases h
    · rw [← Except.ok.inj h]
  · exact keeps_queueStep fun q n q' h => by rw [← Except.ok.inj h]
  · exact keeps_queueStep fun q n q' h => by rw [← Except.ok.inj h]

/-! ## The checks -/

/-- A check of the processor's own failed, or one of the repository on the membership it is handed. -/
inductive CheckFailed : ProcessError → Prop
  | assertion (m : String) : CheckFailed (.assertion m)
  | conflict (m : String) : CheckFailed (.repository (.conflict m))
  | notNext : CheckFailed (.repository (.invalidState "training batch step is not next in sequence"))
  | noBatch : CheckFailed (.repository (.value "training batch must contain members and samples"))
  | noDiscard : CheckFailed (.repository (.value "discarded rollout membership must not be empty"))

theorem checkFailed_ne {e : Error} (h : CheckFailed (.repository e)) :
    e ≠ .integrity ∧ e ≠ .crash ∧ e ≠ .operational := by
  cases h <;> simp

theorem checkFailed_invalidState {m : String} (h : CheckFailed (.repository (.invalidState m))) :
    m = "training batch step is not next in sequence" := by
  cases h
  rfl

theorem checkFailed_value {m : String} (h : CheckFailed (.repository (.value m))) :
    m = "training batch must contain members and samples" ∨
      m = "discarded rollout membership must not be empty" := by
  cases h
  · exact Or.inl rfl
  · exact Or.inr rfl

/-- **A discard of waiting rollouts, named once each**, takes them away, and no check refuses it. -/
theorem wp_discard {members : List (OpaqueId × Int)} (hne : members ≠ []) (hn : members.Nodup)
    (hin : ∀ m ∈ members, m ∈ s.world.db.pendingKeys) {Q : Unit → Store → Prop} {E : ProcessError → Store → Prop}
    (hq : ∀ s' : Store, s'.queue = s.queue →
      s'.world.db.toTables = Tables.setProcessedRollouts (discardRow members) s.world.db.toTables → Q () s')
    (he : ∀ e s', ¬ CheckFailed e → E e s') : Wp (onWorld (discardProcessedRollouts members)) Q E s := by
  simp only [wp_onWorld, discardProcessedRollouts, wp_bind, Aether.wp_raiseUnless]
  refine ⟨fun _ => ?_, fun h => absurd hne h⟩
  refine wp_transaction_cases (fun u d n h => hq _ rfl (returns_discardBody h).2.2) (fun e h => ?_) ?_
  · exact he _ _ fun hc => spares_discardBody hn hin h
  · exact he _ _ fun hc => (checkFailed_ne hc).2.1 rfl

/-- **The next batch of waiting rollouts, named once each**, is recorded, and no check refuses it. -/
theorem wp_record {env : Env} {b : TrainingBatchArgs} (hstep : b.step = nextTrainingBatchStep s.world.db.toTables)
    (hne : b.members ≠ []) (hsamples : 1 ≤ b.sampleCount) (hn : b.members.Nodup)
    (hin : ∀ m ∈ b.members, m ∈ s.world.db.pendingKeys) {Q : Unit → Store → Prop} {E : ProcessError → Store → Prop}
    (hq : ∀ s' : Store, s'.queue = s.queue → (∃ now, s'.world.db.toTables =
      Tables.setProcessedRollouts (placeRow b.step 0 b.members) (Tables.insertBatch (b.row now) s.world.db.toTables)) →
      Q () s')
    (he : ∀ e s', ¬ CheckFailed e → E e s') : Wp (onWorld (recordTrainingBatch env b)) Q E s := by
  simp only [wp_onWorld, recordTrainingBatch, wp_bind, Aether.wp_raiseUnless, wp_readClock]
  refine ⟨fun _ => ?_, fun h => absurd ⟨hne, hsamples⟩ h⟩
  refine wp_transaction_cases (fun u d n h => hq _ rfl ?_) (fun e h => ?_) ?_
  · rcases returns_recordTrainingBatchBody h with ⟨_, x, hx, _⟩ | ⟨_, _, _, _, ht⟩
    · rw [hstep] at hx
      exact absurd ((batch?_next s.world.db.toTables).symm.trans hx) (by simp)
    · exact ⟨_, ht⟩
  · exact he _ _ fun hc =>
      spares_recordTrainingBatchBody (fun h => absurd h (checkFailed_ne hc).1) hstep hn hin (fun ho => absurd ho (checkFailed_ne hc).2.2) h
  · exact he _ _ fun hc => (checkFailed_ne hc).2.1 rfl

/-- Reading the active policy finds it, or fails for the policy's sake. -/
theorem wp_activePolicy {env : Env} {artifacts : Artifacts} {Q : PolicyManifest → Store → Prop}
    {E : ProcessError → Store → Prop}
    (hq : ∀ row, s.world.db.activePolicy? = some row → row.manifest.policyVersion = row.policyVersion → Q row.manifest s)
    (he : ∀ e s', ¬ CheckFailed e → E e s') : Wp (onWorld (activePolicy env artifacts)) Q E s := by
  rw [wp_onWorld, activePolicy, wp_select]
  simp only [returns_bind, returns_tables, Txn.returns_orRaise, verifyPolicyRow, returns_raiseIf, Txn.returns_pure]
  constructor
  · rintro _ _ ⟨_, _, ⟨rfl, rfl⟩, row, _, ⟨hrow, rfl⟩, _, _, ⟨hv, rfl⟩, rfl, rfl⟩
    exact hq row hrow (by simpa using fun h => (not_or.1 (not_or.1 hv).2).1 h)
  · intro e hbody
    refine he _ _ fun hc => ?_
    revert hbody
    change Txn.Spares e _ _
    simp only [Txn.spares_bind, spares_tables, Txn.spares_orRaise, Txn.spares_raiseIf, Txn.spares_pure, true_and]
    refine fun _ _ _ => ⟨fun _ h => ?_, fun _ _ _ => ⟨fun _ h => ?_, fun _ _ _ => trivial⟩⟩
    · rw [← h] at hc
      exact absurd (checkFailed_invalidState hc) (by decide)
    · rw [← h] at hc
      cases hc

/-! ## The turn -/

/-- The payload and its samples carry the version and the digest of one policy. -/
def StampedWith (policy : PolicyRow) (payload : ProcessedGroupPayload F) : Prop :=
  payload.policyVersion = policy.policyVersion ∧ ∀ r ∈ payload.rollouts, ∀ x ∈ r.samples,
    x.behaviorPolicyVersion = some (policy.policyVersion : Int) ∧ x.behaviorPolicyDigest = some policy.manifestDigest

/-- The artifacts of the recorded groups carry a recorded policy each, as `_process_group` stamps them. -/
def Stamped (p : Processor F) (s : Store) : Prop :=
  ∀ g ∈ s.world.db.processedGroups, ∀ data payload, s.queue.read g.artifactPath = some data →
    p.decodeGroup data = some payload → ∃ policy ∈ s.world.db.policies, StampedWith policy payload

/-- No payload lags the active version by more than the lag there is. -/
theorem lag_of_fresh {payload : ProcessedGroupPayload F} {active : Int} {maxPolicyLag : Option Int}
    (h : isStale payload active maxPolicyLag = false) : ∀ lag ∈ maxPolicyLag, active - payload.policyVersion ≤ lag := by
  intro lag hlag
  obtain rfl := Option.mem_def.1 hlag
  simpa [isStale] using h

/-- Nothing is left for an iteration to do: nothing waits, or what waits is loaded, none of it lags the active version by
more than `max_policy_lag` and no policy has enough of it. -/
def Drained (p : Processor F) (s : Store) : Prop :=
  pendingProcessedRollouts s.world.db.toTables = [] ∨
    ∃ l active, loadPendingPayloads p s.queue (pendingProcessedRollouts s.world.db.toTables) = .ok l ∧
      s.world.db.activePolicy? = some active ∧
      (∀ x ∈ l, ∀ lag ∈ s.world.db.scheduler.maxPolicyLag, active.policyVersion - x.2.policyVersion ≤ lag) ∧
      ∀ k, ¬ Enough p (pendingOf l k)

/-- An iteration that emitted a batch: of what waited and was loaded as `l`, none stale for the active policy, it is the
selection of the policy `k`, recorded under the next step. -/
structure Emits (p : Processor F) (s s' : Store) (batch : TrainingBatchArgs) (l : List (Loaded F)) (active : PolicyRow)
    (k : PolicyKey) (selected : List (Loaded F)) : Prop where
  loaded : loadPendingPayloads p s.queue (pendingProcessedRollouts s.world.db.toTables) = .ok l
  policy : s.world.db.activePolicy? = some active
  fresh : ∀ x ∈ l, ∀ lag ∈ s.world.db.scheduler.maxPolicyLag, active.policyVersion - x.2.policyVersion ≤ lag
  selects : Selects p l k selected
  members : batch.members = selected.map member
  step : batch.step = nextTrainingBatchStep s.world.db.toTables
  groups : s'.queue.groups = s.queue.groups
  tables : ∃ now, s'.world.db.toTables = Tables.setProcessedRollouts (placeRow batch.step 0 batch.members)
    (Tables.insertBatch (batch.row now) s.world.db.toTables)

/-- What an iteration leaves. -/
def TurnSpec (p : Processor F) (s : Store) : Turn F → Store → Prop
  | .done, s' => s' = s ∧ Drained p s
  | .discarded, s' => s'.queue = s.queue ∧ ∃ members, members ≠ [] ∧ (∀ m ∈ members, m ∈ s.world.db.pendingKeys) ∧
      s'.world.db.toTables = Tables.setProcessedRollouts (discardRow members) s.world.db.toTables
  | .emitted batch selected, s' => ∃ l active k, Emits p s s' batch l active k selected

section
variable {l : List (Loaded F)}

/-- The loaded rollouts, or some of them, are waiting and named once each. -/
theorem members_pending (h : l.map Prod.fst = pendingProcessedRollouts s.world.db.toTables) {some : List (Loaded F)}
    (hs : some.Sublist l) :
    (some.map member).Nodup ∧ ∀ m ∈ some.map member, m ∈ s.world.db.pendingKeys := by
  have hperm := pending_keys_perm s.world.db.ok
  have hall : l.map member = (pendingProcessedRollouts s.world.db.toTables).map pendingKey := by
    rw [← h, List.map_map]
    rfl
  have hnodup : (l.map member).Nodup := hall ▸ hperm.nodup_iff.2 (Tables.pendingKeys_nodup s.world.db.ok)
  refine ⟨hnodup.sublist (hs.map member), fun m hm => hperm.mem_iff.1 ?_⟩
  rw [← hall]
  exact (hs.map member).subset hm

/-- A list with one value in it all over has no second one. -/
theorem dedup_length_one {β γ : Type} [DecidableEq γ] {f : β → γ} {v : γ} {xs : List β} (hne : xs ≠ [])
    (h : ∀ x ∈ xs, f x = v) : (xs.map f).dedup.length = 1 := by
  have hrep : xs.map f = List.replicate xs.length v := List.eq_replicate_iff.2 ⟨List.length_map f, fun y hy => by
    obtain ⟨x, hx, rfl⟩ := List.mem_map.1 hy
    exact h x hx⟩
  rw [hrep, List.replicate_dedup (fun h => hne (List.length_eq_zero_iff.1 h))]
  rfl

/-- **The payloads of a selection have one policy identity.** -/
theorem assertSinglePayload_ok {k : PolicyKey} {selected : List (Loaded F)} (h : Selects p l k selected) :
    assertSinglePayloadPolicyIdentity selected = .ok () := by
  have hv := dedup_length_one (f := fun x : Loaded F => x.2.policyVersion) (v := k.1) h.ne_nil fun x hx =>
    congrArg Prod.fst (h.identity hx)
  have hd := dedup_length_one (f := fun x : Loaded F => (payloadPolicyIdentity x.2).2) (v := k.2) h.ne_nil fun x hx =>
    congrArg Prod.snd (h.identity hx)
  rw [assertSinglePayloadPolicyIdentity, Checked.raiseUnless_of _ hv]
  exact Checked.raiseUnless_of _ hd

/-- **The samples of a selection were stamped with one policy**, where the artifacts are. -/
theorem assertSinglePolicy_ok {k : PolicyKey} {selected : List (Loaded F)}
    {samples : List (List (BehaviorSample F))} (h : Selects p l k selected)
    (hl : loadPendingPayloads p s.queue (pendingProcessedRollouts s.world.db.toTables) = .ok l)
    (hs : selected.mapM samplesOf = .ok samples) (hne : samples.flatten ≠ []) (hst : Stamped p s) :
    assertSinglePolicyIdentity samples.flatten = .ok () := by
  obtain ⟨hfst, hdec⟩ := loadPendingPayloads_ok hl
  have hpolicy : ∀ x ∈ selected, ∃ policy ∈ s.world.db.policies, k.1 = policy.policyVersion ∧
      ∀ r ∈ x.2.rollouts, ∀ b ∈ r.samples, b.behaviorPolicyVersion = some (policy.policyVersion : Int) ∧
        b.behaviorPolicyDigest = some policy.manifestDigest := by
    intro x hx
    have hxl := h.sublist.subset hx
    have hmem : x.1 ∈ pendingProcessedRollouts s.world.db.toTables := hfst ▸ List.mem_map_of_mem hxl
    obtain ⟨g, hg, _, hpath, _⟩ := mem_pending s.world.db.ok hmem
    obtain ⟨data, hread, hpay⟩ := hdec x hxl
    obtain ⟨policy, hpol, hver, hall⟩ := hst g hg data x.2 (hpath ▸ hread) hpay
    exact ⟨policy, hpol, (congrArg Prod.fst (h.identity hx)).symm.trans hver, hall⟩
  obtain ⟨x₀, hx₀⟩ := List.exists_mem_of_ne_nil _ h.ne_nil
  obtain ⟨policy, hpol, hver, _⟩ := hpolicy x₀ hx₀
  have hall : ∀ b ∈ samples.flatten, b.behaviorPolicyVersion = some (policy.policyVersion : Int) ∧
      b.behaviorPolicyDigest = some policy.manifestDigest := by
    intro b hb
    obtain ⟨bs, hbs, hb⟩ := List.mem_flatten.1 hb
    obtain ⟨x, hx, hxs⟩ := Checked.mapM_mem hs bs hbs
    unfold samplesOf at hxs
    split at hxs
    · cases hxs
    · rename_i r hr
      obtain ⟨policy', hpol', hver', hst'⟩ := hpolicy x hx
      have hsame : policy' = policy := Rows.eq_of_key _ s.world.db.ok.policies.version hpol' hpol
        (Int.ofNat_inj.1 (hver'.symm.trans hver))
      rw [← hsame]
      exact hst' r (List.mem_of_getElem? hr) b (Except.ok.inj hxs ▸ hb)
  rw [assertSinglePolicyIdentity, Checked.raiseUnless_of _ (dedup_length_one hne fun b hb => (hall b hb).1),
    Checked.ok_bind, Checked.raiseUnless_of _ (dedup_length_one hne fun b hb => (hall b hb).2), Checked.ok_bind]
  have hversion : none ∉ samples.flatten.map (·.behaviorPolicyVersion) := fun hm => by
    obtain ⟨b, hb, hn⟩ := List.mem_map.1 hm
    rw [(hall b hb).1] at hn
    cases hn
  have hdigest : none ∉ samples.flatten.map (·.behaviorPolicyDigest) := fun hm => by
    obtain ⟨b, hb, hn⟩ := List.mem_map.1 hm
    rw [(hall b hb).2] at hn
    cases hn
  rw [Checked.raiseUnless_of _ hversion]
  exact Checked.raiseUnless_of _ hdigest

theorem verify_error {c : Codec} {q : QueueFiles} {path : String} {digest : Digest} {size : Int} {e : ProcessError}
    (h : verify c q path digest size = .error e) : ¬ CheckFailed e := by
  unfold verify at h
  split at h
  · rw [← Except.error.inj h]
    exact fun hc => by cases hc
  · split at h
    · rw [← Except.error.inj h]
      exact fun hc => by cases hc
    · split at h
      · rw [← Except.error.inj h]
        exact fun hc => by cases hc
      · cases h

/-- **Loading fails for an artifact's sake.** -/
theorem loadFrom_error {q : QueueFiles} {e : ProcessError} : ∀ {rs : List PendingProcessedRollout}
    {payloads : List (String × ProcessedGroupPayload F)}, loadFrom p q payloads rs = .error e → ¬ CheckFailed e
  | [], payloads, h => by cases h
  | r :: rs, payloads, h => by
    unfold loadFrom at h
    split at h
    · cases hrest : loadFrom p q payloads rs with
      | ok rest =>
        rw [hrest] at h
        cases h
      | error e' =>
        rw [hrest] at h
        exact Except.error.inj h ▸ loadFrom_error hrest
    · cases hv : verify p.env.codec q r.artifactPath r.artifactDigest r.sizeBytes with
      | error e' =>
        rw [hv] at h
        exact Except.error.inj h ▸ verify_error hv
      | ok data =>
        rw [hv, Checked.ok_bind] at h
        split at h
        · rw [← Except.error.inj h]
          exact fun hc => by cases hc
        · rename_i payload _
          cases hrest : loadFrom p q (payloads ++ [(r.artifactPath, payload)]) rs with
          | ok rest =>
            rw [hrest] at h
            cases h
          | error e' =>
            rw [hrest] at h
            exact Except.error.inj h ▸ loadFrom_error hrest

/-! ## Emitting -/

/-- Whatever the program raises is not a failed check. -/
def Checkless (m : Program α) : Prop := ∀ s, Wp m (fun _ _ => True) (fun e _ => ¬ CheckFailed e) s

theorem Checkless.bind {β : Type} {m : Program α} {f : α → Program β} (hm : Checkless m) (hf : ∀ a, Checkless (f a)) :
    Checkless (m >>= f) := fun s => by
  rw [wp_bind]
  exact (hm s).imp (fun a s' _ => hf a s') fun _ _ h => h

/-- **A program that touches no table and raises no failed check** may go on with everything as it was. -/
theorem Checkless.wp {m : Program α} (hc : Checkless m) (hk : Keeps Undisturbed m) {Q : α → Store → Prop}
    {E : ProcessError → Store → Prop} (hq : ∀ a s', Undisturbed s s' → Q a s')
    (he : ∀ e s', ¬ CheckFailed e → E e s') : Wp m Q E s := by
  have hcheck := hc s
  have hkeep := hk s
  unfold Wp at *
  generalize m s = r at hcheck hkeep ⊢
  rcases r with ⟨_ | _, s'⟩
  · exact he _ _ hcheck
  · exact hq _ _ hkeep

theorem checkless_raiseUnless (c : Prop) [Decidable c] {e : ProcessError} (he : ¬ CheckFailed e) :
    Checkless (raiseUnless c e) := fun s => by
  rw [wp_raiseUnless]
  exact ⟨fun _ => trivial, fun _ => he⟩

theorem checkless_queueStep {f : QueueFiles → Nat → Except ProcessError QueueFiles}
    (hf : ∀ q n e, f q n = .error e → ¬ CheckFailed e) : Checkless (queueStep f) := by
  refine .bind (fun s => ?_) fun _ s => ?_
  · unfold live
    rw [wp_onWorld]
    unfold Wp
    rcases durable_cases (fun w => (.ok (), w)) s.world with h | ⟨n, h⟩ <;> rw [h]
    · exact fun hc => (checkFailed_ne hc).2.1 rfl
    · trivial
  · unfold Wp updateQueue
    dsimp only
    cases h : f s.queue s.world.torn with
    | error e => exact hf _ _ _ h
    | ok q => trivial

theorem checkless_tryFinally {body : Program α} {cleanup : Program Unit} (hb : Checkless body)
    (hc : Checkless cleanup) : Checkless (tryFinally body cleanup) := by
  intro s
  have hbody := hb s
  have hclean := hc (body s).2
  unfold Wp at *
  rcases tryFinally_cases body cleanup s with ⟨_, h⟩ | ⟨_, h⟩ <;> rw [h]
  · exact hbody
  · generalize cleanup (body s).2 = c at hclean ⊢
    rcases c with ⟨_ | _, s''⟩
    · exact hclean
    · generalize body s = r at hbody ⊢
      rcases r with ⟨_ | _, s'⟩
      · exact hbody
      · trivial

/-- **A publication fails for the file's sake.** -/
theorem checkless_publish {c : Codec} {uuid : Nat → String} {directory : QueueDirectory} {final : String}
    {digest : Digest} {data : Bytes} : Checkless (publish c uuid directory final digest data) := by
  have hset : ∀ (name : String) (f : Nat → String × Bytes → String × Bytes), Checkless
      (queueStep fun q n => .ok { q with incoming := Rows.set Prod.fst name (f n) q.incoming }) := fun name f =>
    checkless_queueStep fun q n e h => by cases h
  refine .bind (checkless_raiseUnless _ fun hc => absurd (checkFailed_value hc) (by decide)) fun _ =>
    .bind (fun _ => trivial) fun name =>
    .bind ?_ fun _ => .bind (checkless_tryFinally (.bind (hset name _) fun _ => .bind (hset name _) fun _ => ?_) ?_)
      fun _ _ => trivial
  · refine checkless_queueStep fun q n e h => ?_
    split at h
    · rw [← Except.error.inj h]
      exact fun hc => by cases hc
    · cases h
  · refine checkless_queueStep fun q n e h => ?_
    split at h
    · cases hv : verify c q final digest data.length with
      | error e' =>
        rw [hv] at h
        exact Except.error.inj h ▸ verify_error hv
      | ok data =>
        rw [hv] at h
        cases h
    · cases h
    · rw [← Except.error.inj h]
      exact fun hc => by cases hc
  · exact checkless_queueStep fun q n e h => by cases h

theorem checkless_publishBatch {c : Codec} {uuid : Nat → String} {step : Int} {digest : Digest} {data : Bytes} :
    Checkless (publishBatch c uuid step digest data) :=
  .bind (checkless_raiseUnless _ fun hc => absurd (checkFailed_value hc) (by decide)) fun _ =>
    .bind (checkless_raiseUnless _ fun hc => absurd (checkFailed_value hc) (by decide)) fun _ => checkless_publish

/-- **A selection of waiting rollouts with samples is published and recorded** under the next step. -/
theorem wp_emitBatch {selected : List (Loaded F)} {samples : List (BehaviorSample F)} (hne : selected ≠ [])
    (hsamples : samples ≠ []) (hn : (selected.map member).Nodup)
    (hin : ∀ m ∈ selected.map member, m ∈ s.world.db.pendingKeys) {Q : TrainingBatchArgs → Store → Prop}
    {E : ProcessError → Store → Prop}
    (hq : ∀ (b : TrainingBatchArgs) (s' : Store), b.members = selected.map member →
      b.step = nextTrainingBatchStep s.world.db.toTables → s'.queue.groups = s.queue.groups →
      (∃ now, s'.world.db.toTables = Tables.setProcessedRollouts (placeRow b.step 0 b.members)
        (Tables.insertBatch (b.row now) s.world.db.toTables)) → Q b s')
    (he : ∀ e s', ¬ CheckFailed e → E e s') : Wp (emitBatch p selected samples) Q E s := by
  unfold emitBatch
  rw [wp_bind, wp_readTables]
  dsimp only
  rw [wp_bind]
  refine checkless_publishBatch.wp (keeps_publishBatch _ _ _ _ _) (fun path s₁ h₁ => ?_) he
  rw [wp_bind]
  have hlen : (1 : Int) ≤ samples.length := by
    have hpos := List.length_pos_iff.2 hsamples
    omega
  refine wp_record (by rw [h₁.db]) (by simpa using hne) hlen hn (by rw [h₁.db]; exact hin) (fun s₂ hq₂ ht₂ => ?_) he
  rw [h₁.db] at ht₂
  exact hq _ s₂ rfl rfl ((congrArg QueueFiles.groups hq₂).trans h₁.groups) ht₂

/-- **An iteration with its rollouts loaded.** -/
theorem emitLoaded_spec {active : PolicyRow}
    (hl : loadPendingPayloads p s.queue (pendingProcessedRollouts s.world.db.toTables) = .ok l)
    (hact : s.world.db.activePolicy? = some active) :
    Wp (emitLoaded p l active.policyVersion s.world.db.scheduler.maxPolicyLag) (TurnSpec p s)
      (fun e _ => Stamped p s → ¬ CheckFailed e) s := by
  have hfst := (loadPendingPayloads_ok hl).1
  have hother : ∀ e (_ : Store), ¬ CheckFailed e → (Stamped p s → ¬ CheckFailed e) := fun _ _ h _ => h
  have hdiscard : ∀ some : List (Loaded F), some.Sublist l → some ≠ [] →
      Wp (do onWorld (discardProcessedRollouts (some.map member)); pure .discarded) (TurnSpec p s)
        (fun e _ => Stamped p s → ¬ CheckFailed e) s := by
    intro some hsub hne
    obtain ⟨hn, hin⟩ := members_pending hfst hsub
    have hmap : some.map member ≠ [] := by simpa using hne
    rw [wp_bind]
    exact wp_discard hmap hn hin (fun s' hq ht => ⟨hq, some.map member, hmap, hin, ht⟩) hother
  unfold emitLoaded
  dsimp only
  by_cases hstale : l.filter (fun x => isStale x.2 active.policyVersion s.world.db.scheduler.maxPolicyLag) = []
  · have hfresh : ∀ x ∈ l, ∀ lag ∈ s.world.db.scheduler.maxPolicyLag, active.policyVersion - x.2.policyVersion ≤ lag :=
      fun x hx => lag_of_fresh (by simpa using List.filter_eq_nil_iff.1 hstale x hx)
    rw [if_neg (fun h => h hstale)]
    rcases select_cases p l with ⟨hnil, hno⟩ | ⟨k, hk⟩
    · rw [if_pos hnil]
      exact ⟨rfl, Or.inr ⟨l, active, hl, hact, hfresh, hno⟩⟩
    · obtain ⟨hn, hin⟩ := members_pending hfst hk.sublist
      rw [if_neg hk.ne_nil, wp_bind, wp_orThrow]
      refine ⟨fun samples hs => ?_, fun e he => hother e s ?_⟩
      · by_cases hempty : samples.flatten = []
        · rw [if_pos hempty]
          exact hdiscard _ hk.sublist hk.ne_nil
        · rw [if_neg hempty, wp_bind, wp_orThrow, assertSinglePayload_ok hk]
          refine ⟨fun _ _ => ?_, fun e he => by cases he⟩
          rw [wp_bind, wp_orThrow]
          refine ⟨fun _ _ => ?_, fun e he hst => ?_⟩
          · rw [wp_bind]
            exact wp_emitBatch hk.ne_nil hempty hn hin
              (fun b s' hm hstep hg ht => ⟨l, active, k, hl, hact, hfresh, hk, hm, hstep, hg, ht⟩) hother
          · rw [assertSinglePolicy_ok hk hl hs hempty hst] at he
            cases he
      · obtain ⟨x, _, hx⟩ := Txn.mapM_error he
        unfold samplesOf at hx
        split at hx
        · rw [← Except.error.inj hx]
          exact fun hc => by cases hc
        · cases hx
  · rw [if_pos hstale]
    exact hdiscard _ List.filter_sublist hstale

end

/-- **One iteration**: it ends the loop with nothing left to do, discards waiting rollouts, or emits a batch; and no check
fails in it where the artifacts are stamped. -/
theorem turn_spec (p : Processor F) (artifacts : Artifacts) (s : Store) :
    Wp (emitTurn p artifacts) (TurnSpec p s) (fun e _ => Stamped p s → ¬ CheckFailed e) s := by
  have hother : ∀ e (_ : Store), ¬ CheckFailed e → (Stamped p s → ¬ CheckFailed e) := fun _ _ h _ => h
  unfold emitTurn
  rw [wp_bind, wp_readTables]
  by_cases hnil : pendingProcessedRollouts s.world.db.toTables = []
  · rw [if_pos hnil]
    exact ⟨rfl, Or.inl hnil⟩
  · rw [if_neg hnil, wp_bind]
    refine wp_activePolicy (fun active hact hver => ?_) hother
    rw [wp_bind, wp_readTables, wp_bind]
    change Wp (orThrow (loadPendingPayloads p s.queue _) >>= _) _ _ s
    rw [wp_bind, wp_orThrow, hver]
    exact ⟨fun l hl => emitLoaded_spec hl hact, fun e he => hother e s (loadFrom_error he)⟩

end Queue
end Aether
