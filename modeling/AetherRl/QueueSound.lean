import AetherRl.QueueTurn
import AetherRl.RepoPolicies
/-!
# QueueSound — what the emission loop emits, and where it ends

An emitted batch is one policy's: the oldest of what waits for it that makes a batch, none of it stale; `_process_group`
stamps what it publishes with its group's policy, and then no check of the loop's own fails.  Every other iteration
leaves fewer rollouts waiting, so the loop ends, and it ends with nothing left to do.
-/
namespace Aether
namespace Queue

open Txn (Wp wp_bind wp_pure)
open Repo

variable {F : Type}

/-! ## What `_process_group` stamps -/

/-- **The outcomes of a group carry the version and digest of the group's policy.** -/
theorem outcome_policy {c : Codec} {t : Tables} (hk : SchemaOk t) (hf : Filed c t)
    (hv : ∀ a ∈ t.assignments, a.assignment.policy.Valid c) {g : GroupRow} (hg : g ∈ t.groups) :
    ∃ policy ∈ t.policies, ∀ o ∈ groupOutcomes t g.groupId, o.assignment.policy.policyVersion = policy.policyVersion ∧
      c.policyManifestDigest o.assignment.policy = policy.manifestDigest := by
  obtain ⟨policy, hpol, hid⟩ := hk.groups.policy g hg
  refine ⟨policy, hpol, fun o ho => ?_⟩
  rw [groupOutcomes, List.mem_filterMap] at ho
  obtain ⟨a, ha, ho⟩ := ho
  obtain ⟨row, _, rfl⟩ := Option.map_eq_some_iff.1 ho
  rw [Rows.mem_orderBy, List.mem_filter, decide_eq_true_eq] at ha
  obtain ⟨ham, hag⟩ := ha
  obtain ⟨g', hg', hgid, hgpol⟩ := hk.assignments.group a ham
  obtain rfl := Rows.eq_of_key _ hk.groups.key hg' hg (hgid.trans hag)
  obtain ⟨policy', hpol', hid', hdig⟩ := hk.assignments.policy a ham
  obtain rfl := Rows.eq_of_key _ hk.policies.key hpol' hpol (hid'.trans (hgpol.symm.trans hid.symm))
  obtain ⟨hstamp, hdigest⟩ := hf.assignments a ham
  have hfiled := hf.policies policy' hpol
  refine ⟨?_, hdigest.trans hdig.symm⟩
  rw [hfiled.version]
  exact (hv a ham).version_eq hfiled.valid (hstamp.trans (hid'.symm.trans hfiled.id))

/-- **What `_process_group` publishes is stamped with the group's policy**, whatever finalizing and filtering leave. -/
theorem groupPayload_stamped {c : Codec} {t : Tables} (hk : SchemaOk t) (hf : Filed c t)
    (hv : ∀ a ∈ t.assignments, a.assignment.policy.Valid c) {g : GroupRow} (hg : g ∈ t.groups) {group : ReadyGroup}
    (hr : readyGroup t g = .ok group) {first : GroupOutcome} (hfirst : first ∈ group.outcomes)
    {survivors : List (Survivor F)} (hs : ∀ r ∈ survivors, r.outcome ∈ group.outcomes) (sourceId : OpaqueId)
    (inputDigest : Digest) (records : List JsonText) :
    ∃ policy ∈ t.policies, StampedWith policy (groupPayload c group sourceId inputDigest first survivors records) := by
  obtain ⟨policy, hpol, hall⟩ := outcome_policy hk hf hv hg
  have hout : group.outcomes = groupOutcomes t g.groupId := by
    unfold readyGroup at hr
    split at hr
    · cases hr
    · rw [← Except.ok.inj hr]
  rw [hout] at hfirst hs
  refine ⟨policy, hpol, congrArg Nat.cast (hall first hfirst).1, fun r hrm x hx => ?_⟩
  obtain ⟨sv, hsv, rfl⟩ := List.mem_map.1 hrm
  obtain ⟨hver, hdig⟩ := hall _ (hs sv (List.mem_filter.1 hsv).1)
  dsimp only at hx
  split at hx
  · exact absurd hx List.not_mem_nil
  · obtain ⟨sample, _, rfl⟩ := List.mem_map.1 hx
    exact ⟨congrArg (fun n : Nat => some (n : Int)) hver, congrArg some hdig⟩

/-! ## Soundness -/

/-- **An emitted batch is sound**: it is recorded with the rollouts selected, which carry one policy identity and lag the
active version by no more than the lag; they are the first `batch_size` that wait with that identity, or the shortest
prefix of them with the tokens asked for, in group sequence and ordinal order; of the identities with enough waiting it
is the one first met; and where the artifacts are stamped, as `_process_group` stamps them, no check of the loop's own
fails. -/
theorem emission_sound (p : Processor F) (artifacts : Artifacts) (s : Store) :
    Wp (emitTurn p artifacts) (fun turn s' => ∀ batch selected, turn = .emitted batch selected →
      ∃ (l : List (Loaded F)) (active : PolicyRow) (k : PolicyKey),
        (l.map Prod.fst = pendingProcessedRollouts s.world.db.toTables ∧ ∀ x ∈ l, Decodes p s.queue x) ∧
        (pendingProcessedRollouts s.world.db.toTables).Pairwise
          (fun r r' => placeOf s.world.db.toTables r ≤ placeOf s.world.db.toTables r') ∧
        s.world.db.activePolicy? = some active ∧
        (∀ x ∈ selected, payloadPolicyIdentity x.2 = k ∧
          ∀ lag ∈ s.world.db.scheduler.maxPolicyLag, (active.policyVersion : Int) - x.2.policyVersion ≤ lag) ∧
        (∀ n, p.batchSize = some n → n ≤ (pendingOf l k).length ∧ selected = (pendingOf l k).take n) ∧
        (∀ n, p.tokenBatchSize = some n → selected <+: pendingOf l k ∧ (n : Int) ≤ tokensOf selected ∧
          ∀ b, b <+: pendingOf l k → (n : Int) ≤ tokensOf b → selected <+: b) ∧
        (∀ k', Enough p (pendingOf l k') → l.findIdx (fun x => decide (payloadPolicyIdentity x.2 = k)) ≤
          l.findIdx (fun x => decide (payloadPolicyIdentity x.2 = k'))) ∧
        s'.world.db.batchMembers batch.step = selected.map member)
      (fun e _ => Stamped p s → ¬ CheckFailed e) s ∧
    ∀ t : Tables, SchemaOk t → Filed p.env.codec t → (∀ a ∈ t.assignments, a.assignment.policy.Valid p.env.codec) →
      ∀ g ∈ t.groups, ∀ group, readyGroup t g = .ok group → ∀ first ∈ group.outcomes,
      ∀ survivors : List (Survivor F), (∀ r ∈ survivors, r.outcome ∈ group.outcomes) → ∀ sourceId inputDigest records,
      ∃ policy ∈ t.policies,
        StampedWith policy (groupPayload p.env.codec group sourceId inputDigest first survivors records) := by
  refine ⟨(turn_spec p artifacts s).imp (fun turn s' h batch selected hturn => ?_) fun _ _ h => h,
    fun t hk hf hv g hg group hr first hfirst survivors hs sourceId inputDigest records =>
      groupPayload_stamped hk hf hv hg hr hfirst hs sourceId inputDigest records⟩
  subst hturn
  obtain ⟨l, active, k, h⟩ := h
  obtain ⟨hfst, hdec⟩ := loadPendingPayloads_ok h.loaded
  refine ⟨l, active, k, ⟨hfst, hdec⟩, pending_sorted, h.policy, fun x hx => ?_, fun n hn => ?_, fun n hn => ?_,
    h.selects.oldest, ?_⟩
  · exact ⟨h.selects.identity hx, h.fresh x (h.selects.sublist.subset hx)⟩
  · have htake := h.selects.take hn
    refine ⟨?_, htake⟩
    exact (h.selects.enough.1 n hn).trans h.selects.pending.length_le
  · refine ⟨h.selects.pending, h.selects.enough.2 n hn, fun b hb he => h.selects.shortest b hb ⟨fun m hm => ?_, ?_⟩⟩
    · rcases size_cases p with ⟨j, _, _, ht⟩ | ⟨j, _, hb', _⟩
      · rw [hn] at ht
        cases ht
      · rw [hb'] at hm
        cases hm
    · intro m hm
      rw [hn, Option.mem_some] at hm
      exact hm ▸ he
  · obtain ⟨now, ht⟩ := h.tables
    obtain ⟨hn, hin⟩ := members_pending hfst h.selects.sublist
    rw [← h.members] at hn hin
    have hfree : ∀ b ∈ s.world.db.batches, b.step ≠ batch.step := fun b hb => by
      rw [h.step]
      exact (lt_nextTrainingBatchStep hb).ne
    rw [ht, ← h.members]
    exact batchMembers_place s.world.db.ok hfree hn hin

/-! ## The end of the loop -/

/-- **An iteration that does not end the loop leaves fewer rollouts waiting.** -/
theorem TurnSpec.decreases {p : Processor F} {s s' : Store} {turn : Turn F} (h : TurnSpec p s turn s') :
    turn = .done ∨ pendingCount s'.world.db.toTables < pendingCount s.world.db.toTables := by
  rw [pendingCount_eq s.world.db.ok, pendingCount_eq s'.world.db.ok]
  cases turn with
  | done => exact Or.inl rfl
  | discarded =>
    obtain ⟨_, members, hne, hin, ht⟩ := h
    rw [ht, pendingKeys_discard]
    exact Or.inr (length_pendingKeys_lt hne hin)
  | emitted batch selected =>
    obtain ⟨l, active, k, h⟩ := h
    obtain ⟨now, ht⟩ := h.tables
    have hin := (members_pending (loadPendingPayloads_ok h.loaded).1 h.selects.sublist).2
    rw [← h.members] at hin
    have hne : batch.members ≠ [] := by
      rw [h.members]
      exact fun hnil => h.selects.ne_nil (List.map_eq_nil_iff.1 hnil)
    rw [ht, pendingKeys_place]
    exact Or.inr (length_pendingKeys_lt hne hin)

/-- **The emission loop ends, and ends drained**: an iteration ends it or leaves fewer rollouts waiting, so as many
iterations as wait, and one more, are enough whatever is left over; where it returns no waiting rollout is stale and no
policy identity has enough of them for a batch. -/
theorem emission_drains (p : Processor F) (artifacts : Artifacts) (s : Store) :
    Wp (emitTurn p artifacts) (fun turn s' => turn = .done ∨
      pendingCount s'.world.db.toTables < pendingCount s.world.db.toTables) (fun _ _ => True) s ∧
    ∀ fuel, pendingCount s.world.db.toTables < fuel → ∀ emitted,
      Wp (emitReadyBatches p artifacts fuel emitted)
        (fun answer s' => (∃ n, answer = some n ∧ emitted ≤ n) ∧ Drained p s') (fun _ _ => True) s := by
  have hturn : ∀ s, Wp (emitTurn p artifacts) (TurnSpec p s) (fun _ _ => True) s :=
    fun s => (turn_spec p artifacts s).imp (fun _ _ h => h) fun _ _ _ => trivial
  refine ⟨(hturn s).imp (fun _ _ h => h.decreases) fun _ _ _ => trivial, fun fuel => ?_⟩
  induction fuel generalizing s with
  | zero => exact fun h => absurd h (Nat.not_lt_zero _)
  | succ fuel ih =>
    intro hfuel emitted
    rw [emitReadyBatches, wp_bind]
    refine (hturn s).imp (fun turn s' h => ?_) fun _ _ _ => trivial
    have hdec := h.decreases
    cases turn with
    | done =>
      obtain ⟨rfl, hdrained⟩ := h
      exact ⟨⟨emitted, rfl, le_rfl⟩, hdrained⟩
    | discarded =>
      have hlt := hdec.resolve_left (by simp)
      exact ih s' (by omega) emitted
    | emitted batch selected =>
      have hlt := hdec.resolve_left (by simp)
      refine (ih s' (by omega) (emitted + 1)).imp (fun answer s'' h => ?_) fun _ _ _ => trivial
      obtain ⟨⟨n, hn, hle⟩, hd⟩ := h
      exact ⟨⟨n, hn, by omega⟩, hd⟩

end Queue
end Aether
