import AetherRl.QueueGroup
/-!
# QueueBatch — an iteration of the emission loop, wherever it is cut short

What waits is loaded, since every artifact verifies and decodes; stale rollouts are discarded; and a batch is published
under the path of the next step, which is free, and recorded.
-/
namespace Aether
namespace Queue

open Txn (Wp Spares wp_bind wp_pure Returns returns_bind returns_raiseIf)
open Repo
open Tables

variable {F : Type} {p : Processor F} {known : List (ProcessedGroupPayload F)} {alive : Bool} {s : Store}

/-! ## Loading -/

/-- **Loading fails for no artifact** that verifies and decodes. -/
theorem loadFrom_isOk {q : QueueFiles} : ∀ {rs : List PendingProcessedRollout}
    {payloads : List (String × ProcessedGroupPayload F)},
    (∀ r ∈ rs, ∃ data, verify p.env.codec q r.artifactPath r.artifactDigest r.sizeBytes = .ok data ∧
      (p.decodeGroup data).isSome) → ∃ l, loadFrom p q payloads rs = .ok l
  | [], payloads, _ => ⟨[], rfl⟩
  | r :: rs, payloads, h => by
    obtain ⟨data, hv, hd⟩ := h r List.mem_cons_self
    have hrest := fun r' hr => h r' (List.mem_cons_of_mem _ hr)
    unfold loadFrom
    cases hget : Rows.get Prod.fst r.artifactPath payloads with
    | some x =>
      obtain ⟨l, hl⟩ : ∃ l, loadFrom p q payloads rs = .ok l := loadFrom_isOk hrest
      exact ⟨(r, x.2) :: l, by simp [hl]⟩
    | none =>
      obtain ⟨payload, hp⟩ := Option.isSome_iff_exists.1 hd
      obtain ⟨l, hl⟩ : ∃ l, loadFrom p q (payloads ++ [(r.artifactPath, payload)]) rs = .ok l := loadFrom_isOk hrest
      refine ⟨(r, payload) :: l, ?_⟩
      simp only [hv, Checked.ok_bind, hp, hl]
      rfl

/-- The row a pending rollout was read from. -/
theorem row_of_pending {t : Tables} (hk : SchemaOk t) {r : PendingProcessedRollout}
    (hr : r ∈ pendingProcessedRollouts t) : ∃ row ∈ t.processedRollouts, row.key = (r.groupId, r.ordinal) := by
  have hkey := (pending_keys_perm hk).mem_iff.1 (List.mem_map_of_mem hr)
  obtain ⟨row, hrow, _, hk'⟩ := mem_pendingKeys.1 hkey
  exact ⟨row, hrow, hk'⟩

section
variable (hf : Faithful p known) (h : Consistent p known alive s)
include hf h

/-- **What waits is loaded.** -/
theorem load_isOk :
    ∃ l, loadPendingPayloads p s.queue (pendingProcessedRollouts s.world.db.toTables) = .ok l := by
  refine loadFrom_isOk fun r hr => ?_
  obtain ⟨g, hg, _, hpath, hdigest, hsize⟩ := mem_pending s.world.db.ok hr
  obtain ⟨x, hx, ha⟩ := h.groups g hg
  rw [← hpath, ← hdigest, ← hsize]
  refine ⟨p.encodeGroup x, verify_ok.2 ⟨ha.read, ha.size.symm, ha.digest.symm⟩, ?_⟩
  rw [hf.decode x hx]
  rfl

/-- **A loaded rollout is one of its payload's.** -/
theorem samplesOf_isOk {l : List (Loaded F)}
    (hl : loadPendingPayloads p s.queue (pendingProcessedRollouts s.world.db.toTables) = .ok l) :
    ∀ x ∈ l, ∃ samples, samplesOf x = .ok samples := by
  intro x hxl
  obtain ⟨hfst, hdec⟩ := loadPendingPayloads_ok hl
  have hmem : x.1 ∈ pendingProcessedRollouts s.world.db.toTables := hfst ▸ List.mem_map_of_mem hxl
  obtain ⟨g, hg, hid, hpath, _⟩ := mem_pending s.world.db.ok hmem
  obtain ⟨y, hy, ha⟩ := h.groups g hg
  obtain ⟨data, hread, hdata⟩ := hdec x hxl
  rw [← hpath, ha.read] at hread
  cases hread
  rw [hf.decode y hy] at hdata
  cases hdata
  obtain ⟨row, hrow, hkey⟩ := row_of_pending s.world.db.ok hmem
  have hgroup : row.groupId = g.groupId := (congrArg Prod.fst hkey).trans hid.symm
  have hord : row.ordinal = x.1.ordinal := congrArg Prod.snd hkey
  have hlt := h.regular.counted.lt hg hrow hgroup
  rw [hord, ha.count] at hlt
  exact ⟨x.2.rollouts[x.1.ordinal.toNat].samples, by rw [samplesOf, List.getElem?_eq_getElem hlt]⟩

end

/-! ## Discarding and recording -/

/-- **Waiting rollouts are discarded.** -/
theorem discard_ends (h : Consistent p known true s) {members : List (OpaqueId × Int)} (hne : members ≠ [])
    (hn : members.Nodup) (hin : ∀ m ∈ members, m ∈ s.world.db.pendingKeys) :
    Wp (onWorld (discardProcessedRollouts members)) (fun _ => Ends p known true s)
      (fun e s' => Ends p known false s s' ∧ Stopped admissible e) s := by
  refine wp_training (c := .discardProcessedRollouts members) rfl h ?_ fun now w hr hreg hpol => ?_
  · change Wp (discardProcessedRollouts members) _ _ _
    unfold discardProcessedRollouts
    rw [wp_bind, Aether.wp_raiseUnless]
    refine ⟨fun _ => ?_, fun hno => absurd hne hno⟩
    exact (wp_transaction_excused stopped_crash fun e _ => spares_discardBody hn hin).imp (fun _ _ hr => ⟨0, hr⟩)
      fun _ _ h => h
  · obtain ⟨_, _, ht⟩ := returns_discardBody hr
    refine h.tables rfl rfl hreg hpol.subset (fun g hg => Or.inl ?_) (fun b hb => Or.inl ?_) ?_
    · change g ∈ w.db.processedGroups at hg
      rw [ht] at hg
      exact hg
    · change b ∈ w.db.batches at hb
      rw [ht] at hb
      exact hb
    · intro _ f hf
      change f.1 ∈ w.db.batches.map (·.artifactPath)
      rw [ht]
      exact h.live rfl f hf

/-- **The next batch of waiting rollouts is recorded**, once its file is there; no other file of the batches goes without
a record then. -/
theorem record_ends (h : Consistent p known false s) {b : TrainingBatchArgs}
    (hstep : b.step = nextTrainingBatchStep s.world.db.toTables) (hne : b.members ≠ []) (hsamples : 1 ≤ b.sampleCount)
    (hn : b.members.Nodup) (hin : ∀ m ∈ b.members, m ∈ s.world.db.pendingKeys) (hpath : b.artifactPath = batchPath b.step)
    (hfile : ∃ samples, Spool.read s.queue.batches b.artifactPath = some (p.encodeBatch samples b.step) ∧
      ((p.encodeBatch samples b.step).length : Int) = b.sizeBytes ∧
      p.env.codec.sha256 (p.encodeBatch samples b.step) = b.artifactDigest)
    (hothers : ∀ f ∈ s.queue.batches, f.1 ∈ s.world.db.batches.map (·.artifactPath) ∨ f.1 = b.artifactPath)
    (hadmitted : admissible → b.Admitted s.world.db.toTables) :
    Wp (onWorld (recordTrainingBatch p.env b)) (fun _ => Ends p known true s)
      (fun e s' => Ends p known false s s' ∧ (Stopped admissible e ∨ TooMany b.members.length e)) s := by
  refine wp_training (c := .recordTrainingBatch b) rfl h ?_ fun now w hr hreg hpol => ?_
  · change Wp (recordTrainingBatch p.env b) _ _ _
    unfold recordTrainingBatch
    rw [wp_bind, Aether.wp_raiseUnless]
    refine ⟨fun _ => ?_, fun hno => absurd ⟨hne, hsamples⟩ hno⟩
    rw [wp_bind, wp_readClock]
    have hspares : ∀ now e, ¬ (Stopped admissible (.repository e) ∨ TooMany b.members.length (.repository e)) →
        Spares e (recordTrainingBatchBody b now) s.world.db := fun _ _ he =>
      spares_recordTrainingBatchBody (fun hi => hadmitted (admissible_of_not_stopped (not_or.1 he).1 hi)) hstep hn hin
        fun ho => not_lt.1 fun hmany => he (Or.inr ⟨congrArg _ ho, hmany⟩)
    exact (wp_transaction_excused (X := fun e => Stopped admissible e ∨ TooMany b.members.length e)
      (w := { s.world with reads := s.world.reads + 1 }) (Or.inl stopped_crash) (hspares _)).imp (fun _ _ hr => ⟨_, hr⟩)
      fun _ _ h => h
  rcases returns_recordTrainingBatchBody hr with ⟨_, x, hx, _⟩ | ⟨_, _, _, _, ht⟩
  · rw [hstep] at hx
    exact absurd ((batch?_next s.world.db.toTables).symm.trans hx) (by simp)
  have hbatches : w.db.batches = s.world.db.batches ++ [b.row now] := by rw [ht]; rfl
  refine h.tables rfl rfl hreg hpol.subset (fun g hg => Or.inl ?_) (fun x hx => ?_) ?_
  · change g ∈ w.db.processedGroups at hg
    rw [ht] at hg
    exact hg
  · change x ∈ w.db.batches at hx
    rw [hbatches, List.mem_append, List.mem_singleton] at hx
    refine hx.imp_right ?_
    rintro rfl
    exact ⟨hpath, hfile⟩
  · intro _ f hf
    change f.1 ∈ w.db.batches.map (·.artifactPath)
    rw [hbatches, List.map_append, List.mem_append]
    exact (hothers f hf).imp_right fun he => List.mem_singleton.2 he

/-! ## Emitting -/

/-- **The next batch is no other**, where its bytes name its step and do not collide. -/
theorem batch_admitted (hf : Faithful p known) (h : Consistent p known true s) (ha : Admissible p s)
    {samples : List (BehaviorSample F)} {data : Bytes}
    (hdata : data = p.encodeBatch samples (nextTrainingBatchStep s.world.db.toTables))
    (hemits : emission p s = some data) {count : Int} (hcount : 0 < count) (members : List (OpaqueId × Int)) :
    TrainingBatchArgs.Admitted ⟨nextTrainingBatchStep s.world.db.toTables, p.env.codec.sha256 data,
      batchPath (nextTrainingBatchStep s.world.db.toTables), data.length, count, members⟩ s.world.db.toTables := by
  have hpos := nextTrainingBatchStep_pos s.world.db.ok
  have hfile : ∀ b ∈ s.world.db.batches, ∃ samples,
      (b.artifactPath, p.encodeBatch samples b.step) ∈ s.queue.batches ∧
        p.env.codec.sha256 (p.encodeBatch samples b.step) = b.artifactDigest := fun b hb => by
    obtain ⟨samples, hread, _, hsha⟩ := (h.batches b hb).file
    obtain ⟨f, hget, hbytes⟩ := Option.map_eq_some_iff.1 hread
    refine ⟨samples, ?_, hsha⟩
    rw [← hbytes, ← Rows.key_of_get _ hget]
    exact Rows.mem_of_get _ hget
  refine ⟨hpos, ?_, hcount, hf.shape _, fun b hb he => ?_, fun b hb he => ?_⟩
  · rw [hdata]
    exact Int.natCast_pos.2 (List.length_pos_iff.2 (ha.batch _ _))
  · obtain ⟨others, hmem, hsha⟩ := hfile b hb
    have hbytes := ha.collision data (Option.mem_def.2 hemits) _ hmem (hsha.trans he)
    rw [hdata] at hbytes
    exact (lt_nextTrainingBatchStep hb).ne (ha.step _ _ _ _ (s.world.db.ok.batches.step b hb) hpos hbytes)
  · obtain ⟨data, hread, _⟩ := h.read_batch hb
    rw [he, h.next_free] at hread
    cases hread

/-- **A batch is published under a free path** and recorded. -/
theorem emitBatch_ends (hf : Faithful p known) (h : Consistent p known true s) (ha : admissible → Admissible p s)
    {selected : List (Loaded F)} {samples : List (BehaviorSample F)} (hne : selected ≠ []) (hsamples : samples ≠ [])
    (hn : (selected.map member).Nodup) (hin : ∀ m ∈ selected.map member, m ∈ s.world.db.pendingKeys)
    (hemits : emission p s = some (p.encodeBatch samples (nextTrainingBatchStep s.world.db.toTables))) :
    Wp (emitBatch p selected samples) (fun _ => Ends p known true s)
      (fun e s' => Ends p known false s s' ∧ (Stopped admissible e ∨ TooMany selected.length e)) s := by
  have hfree := h.next_free
  have hadmitted : ∀ (count : Int) members, 0 < count → admissible → TrainingBatchArgs.Admitted _ _ :=
    fun count members hcount hadm => batch_admitted hf h (ha hadm) rfl hemits hcount members
  have hlen : (1 : Int) ≤ samples.length := by
    have hpos := List.length_pos_iff.2 hsamples
    omega
  unfold emitBatch
  rw [wp_bind, wp_readTables]
  dsimp only
  set step := nextTrainingBatchStep s.world.db.toTables with hstep
  set data := p.encodeBatch samples step with hdata
  rw [wp_bind]
  unfold publishBatch
  rw [wp_bind, wp_raiseUnless]
  refine ⟨fun _ => ?_, fun hno => absurd (nextTrainingBatchStep_pos s.world.db.ok) hno⟩
  rw [wp_bind, wp_raiseUnless]
  refine ⟨fun _ => ?_, fun hno => absurd (hf.digest _) hno⟩
  refine wp_publish rfl (h.fresh hf) (fun _ s₁ hl hfiles => ?_) (fun _ s₁ hl hfiles => ?_)
    (fun found hv _ _ => ?_) (fun s₁ hw => ?_) (fun e hread _ _ _ => absurd hfree hread)
  · have h₁ := h.adds_batch hl hfiles
    have hm₁ := h.adds_moves hfree hl hfiles
    have hbatches : s₁.queue.batches = s.queue.batches ++ [(batchPath step, data)] := hfiles.batches
    have hnone : Spool.read s.queue.batches (batchPath step) = none := by
      rw [QueueFiles.read, Option.or_eq_none_iff] at hfree
      exact hfree.2
    rw [wp_bind, ← List.length_map member]
    refine wp_ends hm₁ ?_
    refine record_ends h₁ ?_ ?_ hlen hn ?_ rfl ⟨samples, ?_, rfl, rfl⟩ (fun f hf' => ?_) ?_
    · rw [hl.db]
    · simpa using hne
    · rw [hl.db]
      exact hin
    · rw [hbatches, Spool.read_append]
      simp [hnone, ← hdata]
    · rw [hbatches, List.mem_append, List.mem_singleton] at hf'
      rw [hl.db]
      exact hf'.imp (h.live rfl f) fun he => by rw [he]
    · rw [hl.db]
      exact hadmitted _ _ hlen
  · exact ⟨⟨h.adds_batch hl hfiles, h.adds_moves hfree hl hfiles⟩, Or.inl stopped_crash⟩
  · rw [read_of_verify hv] at hfree
    cases hfree
  · exact ⟨⟨(h.writing hw).dead, hw.moves⟩, Or.inl stopped_crash⟩

/-- **An iteration of the emission loop** leaves everything consistent wherever it is cut short, and nothing stops it but
its process, a constraint of the schema, the active policy, or a batch of more members than one statement counts. -/
theorem emitTurn_ends (hf : Faithful p known) (h : Consistent p known true s) (ha : admissible → Admissible p s)
    (artifacts : Artifacts) :
    Wp (emitTurn p artifacts) (fun _ => Ends p known true s) (fun e s' => Ends p known false s s' ∧
      (Stopped admissible e ∨ TooMany (pendingProcessedRollouts s.world.db.toTables).length e)) s := by
  have hstays : Ends p known true s s := ⟨h, .refl s⟩
  have hstopped : ∀ {e s'}, Ends p known false s s' ∧ Stopped admissible e → Ends p known false s s' ∧
      (Stopped admissible e ∨ TooMany (pendingProcessedRollouts s.world.db.toTables).length e) :=
    fun he => ⟨he.1, Or.inl he.2⟩
  unfold emitTurn
  rw [wp_bind, wp_readTables]
  by_cases hnil : pendingProcessedRollouts s.world.db.toTables = []
  · rw [if_pos hnil]
    exact hstays
  rw [if_neg hnil, wp_bind]
  refine wp_activePolicy_stopped (fun active => ?_) fun e he => hstopped ⟨⟨h.dead, .refl s⟩, he⟩
  rw [wp_bind, wp_readTables, wp_bind]
  change Wp (orThrow (loadPendingPayloads p s.queue _) >>= _) _ _ s
  obtain ⟨l, hl⟩ := load_isOk hf h
  have hfst := (loadPendingPayloads_ok hl).1
  rw [wp_bind, wp_orThrow, hl]
  refine ⟨fun l' hl' => ?_, fun e he => by cases he⟩
  cases hl'
  have hdiscard : ∀ part : List (Loaded F), part.Sublist l → part ≠ [] →
      Wp (do onWorld (discardProcessedRollouts (part.map member)); pure (Turn.discarded : Turn F))
        (fun _ => Ends p known true s) (fun e s' => Ends p known false s s' ∧
          (Stopped admissible e ∨ TooMany (pendingProcessedRollouts s.world.db.toTables).length e)) s := by
    intro part hsub hne
    obtain ⟨hn, hin⟩ := members_pending hfst hsub
    rw [wp_bind]
    exact (discard_ends h (by simpa using hne) hn hin).imp (fun _ _ h => h) fun _ _ => hstopped
  unfold emitLoaded
  dsimp only
  by_cases hstale : l.filter (fun x => isStale x.2 active.policyVersion s.world.db.scheduler.maxPolicyLag) = []
  · rw [if_neg fun hne => hne hstale]
    rcases select_cases p l with ⟨hnone, _⟩ | ⟨k, hk⟩
    · rw [if_pos hnone]
      exact hstays
    · obtain ⟨hn, hin⟩ := members_pending hfst hk.sublist
      obtain ⟨samples, hsamples⟩ : ∃ samples, (selectPolicyHomogeneousBatch p l).mapM samplesOf = .ok samples :=
        Checked.mapM_isOk fun x hx => samplesOf_isOk hf h hl x (hk.sublist.subset hx)
      rw [if_neg hk.ne_nil, wp_bind, wp_orThrow, hsamples]
      refine ⟨fun samples' he => ?_, fun e he => by cases he⟩
      cases he
      by_cases hempty : samples.flatten = []
      · rw [if_pos hempty]
        exact hdiscard _ hk.sublist hk.ne_nil
      · rw [if_neg hempty, wp_bind, wp_orThrow, assertSinglePayload_ok hk]
        refine ⟨fun _ _ => ?_, fun e he => by cases he⟩
        rw [wp_bind, wp_orThrow, assertSinglePolicy_ok hk hl hsamples hempty (h.stamps hf)]
        refine ⟨fun _ _ => ?_, fun e he => by cases he⟩
        rw [wp_bind]
        have hcount : (selectPolicyHomogeneousBatch p l).length ≤
            (pendingProcessedRollouts s.world.db.toTables).length := by
          rw [← hfst, List.length_map]
          exact hk.sublist.length_le
        have hemits : emission p s =
            some (p.encodeBatch samples.flatten (nextTrainingBatchStep s.world.db.toTables)) := by
          rw [emission, hl]
          dsimp only
          rw [hsamples]
          rfl
        exact (emitBatch_ends hf h ha hk.ne_nil hempty hn hin hemits).imp (fun _ _ h => h)
          fun _ _ h => ⟨h.1, h.2.imp_right (TooMany.mono hcount)⟩
  · rw [if_pos hstale]
    exact hdiscard _ List.filter_sublist hstale

end Queue
end Aether
