import AetherRl.RepoErrors
import AetherRl.RepoTrainingAdmits
/-!
# RepoMembers — the memberships the training operations do not refuse

The members of a discard or of a batch are refused when one is repeated or does not wait, and only then: waiting
rollouts named once each are discarded or placed, and afterwards they wait no more.  The next step is always free; what
the schema asks of its batch beyond that is `Admitted`.
-/
namespace Aether

open Txn
open Tables Repo

/-- **A placed member does not wait any more**; the others wait as before. -/
theorem placeRow_pending (step : Int) (k : Nat) (members : List (OpaqueId × Int)) (r : ProcessedRolloutRow) :
    (placeRow step k members r).pending = (r.pending && decide (r.key ∉ members)) := by
  unfold placeRow
  split
  · rename_i h
    simp [ProcessedRolloutRow.pending, h.1]
  · rename_i h
    by_cases hm : r.key ∈ members
    · have hb : r.batchStep ≠ none := fun hb => h ⟨hm, hb⟩
      simp [ProcessedRolloutRow.pending, hm, hb]
    · simp [hm]

theorem pendingKeys_place (step : Int) (k : Nat) (members : List (OpaqueId × Int)) (t : Tables) :
    (setProcessedRollouts (placeRow step k members) t).pendingKeys =
      t.pendingKeys.filter (fun k => decide (k ∉ members)) := by
  simp only [pendingKeys, setProcessedRollouts_processedRollouts]
  induction t.processedRollouts with
  | nil => rfl
  | cons r l ih =>
    simp only [List.map_cons, List.filter_cons, placeRow_pending]
    by_cases hp : r.pending = true <;> by_cases hm : r.key ∈ members <;> simp [hp, hm, ih]

/-- **Fewer wait** once a waiting rollout is named among the members. -/
theorem length_pendingKeys_lt {t : Tables} {members : List (OpaqueId × Int)} (hne : members ≠ [])
    (hin : ∀ m ∈ members, m ∈ t.pendingKeys) :
    (t.pendingKeys.filter (fun k => decide (k ∉ members))).length < t.pendingKeys.length := by
  obtain ⟨m, hm⟩ := List.exists_mem_of_ne_nil _ hne
  exact List.length_filter_lt_length_iff_exists.2 ⟨m, hin m hm, by simpa using hm⟩

section
variable {d d' : Db} {e : Error}

/-! ## Discarding -/

/-- **Waiting members, named once each, are all touched.** -/
theorem returns_discardEach_all : ∀ {members : List (OpaqueId × Int)} {d d' : Db} {n : Nat},
    Returns (discardEach members) d n d' → members.Nodup → (∀ m ∈ members, m ∈ d.pendingKeys) → n = members.length
  | [], d, d', n, h, _, _ => by
    rw [discardEach, returns_pure] at h
    exact h.1
  | m :: ms, d, d', n, h, hn, hin => by
    simp only [discardEach, returns_bind, returns_pure] at h
    obtain ⟨hit, d₁, h₁, rest, d₂, h₂, rfl, rfl⟩ := h
    obtain ⟨hm, hms⟩ := List.nodup_cons.1 hn
    obtain ⟨hhit, ht₁⟩ := returns_discardOne h₁
    have hone : hit = 1 :=
      hhit.trans (List.count_eq_one_of_mem (pendingKeys_nodup d.ok) (hin m List.mem_cons_self))
    have hrest := returns_discardEach_all h₂ hms fun k hk => by
      rw [ht₁, pendingKeys_discard, List.mem_filter]
      refine ⟨hin k (List.mem_cons_of_mem _ hk), ?_⟩
      have hne : k ≠ m := fun h => hm (h ▸ hk)
      simpa using hne
    rw [List.length_cons, hone, hrest, Nat.add_comm]

/-- **A statement raises for the schema alone.** -/
theorem spares_exec_admitted {f : Tables → Tables} (h : e = .integrity → SchemaOk (f d.toTables)) :
    Spares e (exec f) d := by
  unfold Spares exec
  split
  · simp
  · rename_i hno
    exact fun he => hno (h (Except.error.inj he).symm)

theorem spares_discardEach : ∀ (members : List (OpaqueId × Int)) (d : Db), Spares e (discardEach members) d
  | [], d => spares_pure _
  | m :: ms, d => by
    have hrow : (fun r : ProcessedRolloutRow => if r.key = m ∧ r.pending = true then { r with discarded := true } else r) =
        discardRow [m] := by
      funext r
      simp only [discardRow, List.mem_singleton]
    simp only [discardEach, discardOne, spares_bind, spares_pure, spares_tables, true_and, returns_tables, hrow]
    refine ⟨?_, fun _ d₁ _ => ⟨spares_discardEach ms d₁, fun _ _ _ => trivial⟩⟩
    rintro _ d₀ ⟨rfl, rfl⟩
    exact ⟨spares_exec_admitted fun _ => schema_discard d₀.ok, fun _ _ _ => trivial⟩

/-- **A discard of waiting members, named once each, is not refused.** -/
theorem spares_discardBody {members : List (OpaqueId × Int)} (hn : members.Nodup)
    (hin : ∀ m ∈ members, m ∈ d.pendingKeys) : Spares e (discardBody members) d := by
  simp only [discardBody, spares_bind, spares_raiseIf]
  exact ⟨spares_discardEach members d, fun n d' h hne => absurd (returns_discardEach_all h hn hin) hne⟩

/-! ## Recording a batch -/

/-- **The next step is above every step there is.** -/
theorem lt_nextTrainingBatchStep {t : Tables} {b : BatchRow} (hb : b ∈ t.batches) :
    b.step < nextTrainingBatchStep t := by
  unfold nextTrainingBatchStep
  cases hm : (t.batches.map (·.step)).max? with
  | none =>
    rw [List.max?_eq_none_iff, List.map_eq_nil_iff] at hm
    rw [hm] at hb
    exact absurd hb List.not_mem_nil
  | some m =>
    have hle := (List.max?_eq_some_iff.1 hm).2 b.step (List.mem_map_of_mem hb)
    exact Int.lt_add_one_of_le hle

theorem batch?_next (t : Tables) : t.batch? (nextTrainingBatchStep t) = none :=
  (Rows.get_eq_none _).2 fun _ hb => (lt_nextTrainingBatchStep hb).ne

theorem nextTrainingBatchStep_pos {t : Tables} (hk : SchemaOk t) : 1 ≤ nextTrainingBatchStep t := by
  cases hb : t.batches with
  | nil => rw [nextTrainingBatchStep, hb]; rfl
  | cons b l =>
    have hmem : b ∈ t.batches := by rw [hb]; exact List.mem_cons_self
    have hpos := hk.batches.step b hmem
    have hlt := lt_nextTrainingBatchStep hmem
    omega

/-- The batch `step` is there, nothing is placed in it from the ordinal `k` on, and the members wait. -/
structure Tables.Placing (t : Tables) (step : Int) (k : Nat) (members : List (OpaqueId × Int)) : Prop where
  batch : ∃ b ∈ t.batches, b.step = step
  nodup : members.Nodup
  waiting : ∀ m ∈ members, m ∈ t.pendingKeys
  free : ∀ r ∈ t.processedRollouts, ∀ o : Nat, k ≤ o → r.place? ≠ some (step, (o : Int))

theorem Tables.Placing.next {t : Tables} {step : Int} {k : Nat} {m : OpaqueId × Int} {ms : List (OpaqueId × Int)}
    (h : t.Placing step k (m :: ms)) : (setProcessedRollouts (placeRow step k [m]) t).Placing step (k + 1) ms := by
  obtain ⟨hm, hms⟩ := List.nodup_cons.1 h.nodup
  refine ⟨h.batch, hms, fun m' hm' => ?_, fun r hr o ho => ?_⟩
  · rw [pendingKeys_place, List.mem_filter, decide_eq_true_eq, List.mem_singleton]
    exact ⟨h.waiting m' (List.mem_cons_of_mem _ hm'), fun he => hm (he ▸ hm')⟩
  · obtain ⟨r₀, hr₀, rfl⟩ := List.mem_map.1 hr
    obtain hsame | ⟨_, hplaced⟩ := placeRow_singleton step k m r₀
    · rw [hsame]
      exact h.free r₀ hr₀ o (Nat.le_of_succ_le ho)
    · rw [hplaced]
      intro he
      have hko : (k : Int) = o := congrArg Prod.snd (Option.some.inj he)
      omega

/-- **The placing loop is admitted** where its members wait and its places are free. -/
theorem spares_placeMembers {step : Int} : ∀ {members : List (OpaqueId × Int)} {k : Nat} {d : Db},
    (e = .integrity → d.Placing step k members) → Spares e (forEach (members.zipIdx k) (placeMember step)) d
  | [], k, d, _ => by simp
  | m :: ms, k, d, h => by
    have hrow : (fun r : ProcessedRolloutRow => if r.key = m ∧ r.batchStep = none then
        { r with batchStep := some step, batchOrdinal := some (k : Int) } else r) = placeRow step k [m] := by
      funext r
      by_cases hr : r.key = m <;> simp [placeRow, hr]
    rw [List.zipIdx_cons, forEach_cons, spares_bind, placeMember, hrow]
    refine ⟨spares_exec_admitted fun he => ?_, fun _ d' hd' => spares_placeMembers fun he => ?_⟩
    · have hp := h he
      exact schema_place d.ok hp.batch (hp.waiting m List.mem_cons_self) fun r hr => hp.free r hr k le_rfl
    · rw [returns_exec] at hd'
      rw [hd']
      exact (h he).next

/-- **A batch of waiting members, named once each, under the next step is not refused.** -/
theorem spares_recordTrainingBatchBody {b : TrainingBatchArgs} {now : Time}
    (hadmitted : e = .integrity → b.Admitted d.toTables)
    (hstep : b.step = nextTrainingBatchStep d.toTables) (hn : b.members.Nodup)
    (hin : ∀ m ∈ b.members, m ∈ d.pendingKeys)
    (hbound : e = .operational → 2 * b.members.length ≤ maxVariableNumber) :
    Spares e (recordTrainingBatchBody b now) d := by
  have hnone : d.batches.find? (fun x => decide (x.step = b.step)) = none := by
    rw [hstep]
    exact batch?_next d.toTables
  have hcount : (d.processedRollouts.filter fun r => r.pending && decide (r.key ∈ b.members)).length =
      b.members.length := by
    have hperm : (d.pendingKeys.filter fun k => decide (k ∈ b.members)).Perm b.members :=
      (List.perm_ext_iff_of_nodup ((pendingKeys_nodup d.ok).filter _) hn).2 fun k => by
        rw [List.mem_filter, decide_eq_true_eq]
        exact ⟨fun h => h.2, fun h => ⟨hin k h, h⟩⟩
    rw [← hperm.length_eq, pendingKeys, List.filter_map, List.length_map, List.filter_filter]
    congr 2
    funext r
    simp [Bool.and_comm]
  simp only [recordTrainingBatchBody, spares_bind, spares_tables, true_and, returns_tables]
  rintro _ _ ⟨rfl, rfl⟩
  rw [hnone]
  simp only [spares_bind, spares_tables, spares_raiseIf, true_and, returns_tables, returns_raiseIf]
  rintro _ _ ⟨rfl, rfl⟩
  refine ⟨fun h => absurd hstep h, ?_⟩
  rintro _ d₀ ⟨_, rfl⟩
  refine ⟨fun hmany he => absurd (hbound he.symm) (not_le.2 hmany), ?_⟩
  rintro _ d₀ ⟨_, rfl⟩ _ d₀ ⟨rfl, rfl⟩
  refine ⟨fun h => absurd hcount h, ?_⟩
  rintro _ d₀ ⟨_, rfl⟩
  refine ⟨spares_exec_admitted fun he => schema_insertBatch d₀.ok (hadmitted he) hnone, fun _ d₁ hd₁ =>
    spares_placeMembers fun he => ?_⟩
  rw [returns_exec] at hd₁
  rw [hd₁]
  refine ⟨⟨b.row now, List.mem_append_right _ (List.mem_singleton_self _), rfl⟩, hn, hin, fun r hr o _ hplace => ?_⟩
  obtain ⟨n, hbatch, hordinal⟩ := Option.bind_eq_some_iff.1 hplace
  obtain ⟨x, hx, hxn⟩ := d₀.ok.processed.batch r hr n hbatch
  obtain ⟨_, _, he'⟩ := Option.map_eq_some_iff.1 hordinal
  have hn' : n = b.step := congrArg Prod.fst he'
  exact (Rows.get_eq_none _).1 hnone x hx (hxn.trans hn')

end

end Aether
