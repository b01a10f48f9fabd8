import AetherRl.RepoSlots
import AetherRl.RepoStaleness
/-!
# RepoSweep — what a sweep leaves, and what it leaves alone

Before it looks for a candidate, `lease_next_compatible` expires leases and cancels stale work.  The sweep leaves alone
every life that is neither past its times nor stale, and takes no slot from a lease that has one.  What it leaves is
`Swept`: a second sweep at the same time finds nothing to do and writes nothing.
-/
namespace Aether

open Txn
open Tables Repo
open Life (Moves Move)

variable {now later : Time} {d d' d₁ : Db} {env : Env} {lag : Int} {i : OpaqueId}

/-! ## What a sweep leaves alone -/

/-- Neither the assignment nor a lease of it is past its time. -/
structure InTime (now : Time) (t : Tables) (i : OpaqueId) : Prop where
  leases : ∀ l ∈ t.leases, l.assignmentId = i → l.state = .active → now < l.expiresAt
  deadline : ∀ a ∈ t.assignment? i, due a.deadlineAt now = false

theorem not_due {x : Option Time} : due x now = false ↔ ∀ t ∈ x, now < t := by
  cases x <;> simp [due]

theorem mem_expired {x : ExpiredLease} (hx : x ∈ expiredLeases d.toTables now) :
    ∃ l ∈ d.leases, ∃ a, d.assignment? l.assignmentId = some a ∧ l.state = .active ∧
      (l.expiresAt ≤ now ∨ due a.deadlineAt now = true) ∧ x.assignment = a ∧ x.leaseId = l.leaseId := by
  rw [expiredLeases, Rows.mem_orderBy, List.mem_filterMap] at hx
  obtain ⟨l, hl, hx⟩ := hx
  obtain ⟨a, ha, hx⟩ := Option.bind_eq_some_iff.1 hx
  split at hx
  · rename_i hc
    rw [← Option.some.inj hx]
    exact ⟨l, hl, a, ha, hc.1, hc.2, rfl, rfl⟩
  · cases hx

/-- **Expiry leaves alone what is in time.** -/
theorem expireLeasesBody_frame {n : Nat} (hs : Sound now d.toTables) (h : Returns (expireLeasesBody env now) d n d')
    (hi : InTime now d.toTables i) : d'.life? i = d.life? i := by
  simp only [expireLeasesBody, returns_bind, returns_tables, returns_pure] at h
  obtain ⟨_, d₀, ⟨rfl, rfl⟩, _, d₁, h₁, _, d₁', ⟨rfl, rfl⟩, _, d₂, h₂, _, d₃, h₃, rfl, rfl⟩ := h
  obtain ⟨hout, hin⟩ := forEach_keyed (fun (d : Db) => d.life?) (fun x : ExpiredLease => x.assignment.assignmentId)
    (Expiring now) (fun _ o o' => ∃ x y, o = some x ∧ o' = some y ∧ Moves now x y)
    (fun _ _ _ _ hx hr => expireOne_moves hx hr) _ _ _ _ (expiredLeases_nodup hs.wf) (expiredLeases_expiring hs.wf) h₁
  have a₁ : Advances now (fun _ => True) d₀.toTables d₁'.toTables :=
    advances_of_keyed hout hin (fun _ _ _ _ => trivial)
  have hsame₁ : d₁'.life? i = d₀.life? i := by
    refine hout i fun hm => ?_
    obtain ⟨x, hx, hid⟩ := List.mem_map.1 hm
    obtain ⟨l, hl, a, ha, hact, hc, rfl, _⟩ := mem_expired hx
    have hal : x.assignment.assignmentId = l.assignmentId := Rows.key_of_get _ ha
    have hli : l.assignmentId = i := hal.symm.trans hid
    rcases hc with he | hd
    · exact absurd (hi.leases l hl hli hact) (not_lt.2 he)
    · rw [hi.deadline x.assignment (hli ▸ ha)] at hd
      cases hd
  obtain ⟨hout₂, _⟩ := forEach_keyed (fun (d : Db) => d.life?) (fun a : AssignmentRow => a.assignmentId)
    (Overdue now) (fun _ o o' => ∃ x y, o = some x ∧ o' = some y ∧ Moves now x y)
    (fun _ _ _ _ hx hr => terminalizeWithoutEnvelope_moves (by simp) hx hr) _ _ _ _
    (overdueAssignments_nodup d₁' now) (overdueAssignments_overdue (a₁.wf hs.wf)) h₂
  have hsame₂ : d₂.life? i = d₁'.life? i := by
    refine hout₂ i fun hm => ?_
    obtain ⟨a, ha, hid⟩ := List.mem_map.1 hm
    rw [overdueAssignments, Rows.mem_orderBy, List.mem_filter, Bool.and_eq_true] at ha
    obtain ⟨ha, _, hdue⟩ := ha
    have hlife := life?_of_mem d₁'.ok ha
    rw [hid, hsame₁] at hlife
    have hrow : d₀.assignment? i = some a := (life_row hlife).1
    rw [hi.deadline a hrow] at hdue
    cases hdue
  obtain ⟨_, hsame₃⟩ := synced_recomputeGroups h₃
  rw [hsame₃, hsame₂, hsame₁]

/-- **Cancelling stale work changes lives of stale groups only.** -/
theorem cancelStaleTrainGroups_advances {u : Unit} (hs : Sound now d.toTables)
    (h : Returns (cancelStaleTrainGroups lag now) d u d') :
    Advances now (fun k => ∃ g ∈ d.groups, k = g.groupId ∧ StaleGroup d.toTables lag g) d.toTables d'.toTables := by
  simp only [cancelStaleTrainGroups, returns_bind, returns_tables, returns_orRaise] at h
  obtain ⟨_, d₀, ⟨rfl, rfl⟩, active, d₁, ⟨hact, rfl⟩, _, d₂, ⟨rfl, rfl⟩, h⟩ := h
  refine (forEach_cancelStaleGroup _ _ _ _ hs h).2.1.mono fun k hstale => ?_
  obtain ⟨g, hg, hk⟩ := hstale
  rw [staleGroups, Rows.mem_orderBy, List.mem_filter, Bool.and_eq_true, decide_eq_true_eq, Option.any_eq_true] at hg
  obtain ⟨hg, hkind, p, hp, hlag⟩ := hg
  exact ⟨g, hg, hk, hkind, active, hact, p, hp, of_decide_eq_true hlag⟩

/-- **Cancelling stale work leaves alone what is not stale.** -/
theorem cancelStaleTrainGroups_frame {u : Unit} (hs : Sound now d.toTables)
    (h : Returns (cancelStaleTrainGroups lag now) d u d') {a : AssignmentRow} (ha : a ∈ d.assignments)
    (hf : ¬ StaleAssignment d.toTables lag a) : d'.life? a.assignmentId = d.life? a.assignmentId := by
  have hx := life?_of_mem d.ok ha
  obtain ⟨y, hy, _, hg | rfl⟩ := (cancelStaleTrainGroups_advances hs h).moved _ _ hx
  · obtain ⟨g, hg, hid, hkind, active, hact, p, hp, hlag⟩ := hg
    obtain ⟨g', hg', hid', hpol⟩ := d.ok.assignments.group a ha
    have hsame : g' = g := Rows.eq_of_key _ d.ok.groups.key hg' hg (hid'.trans hid)
    subst hsame
    have hget : d.group? a.groupId = some g' := hid' ▸ Rows.get_of_mem _ d.ok.groups.key hg'
    exact absurd ⟨⟨g', hget, hkind⟩, active, hact, p, hpol ▸ hp, hlag⟩ hf
  · rw [hx, hy]

/-- A life that is left alone leaves its assignment leasable. -/
theorem leasable_of_life {a : AssignmentRow} (ha : a ∈ d.assignments) (hl : leasable d.toTables now a = true)
    (h : d'.life? a.assignmentId = d.life? a.assignmentId) : a ∈ d'.assignments ∧ leasable d'.toTables now a = true := by
  have hx := life?_of_mem d.ok ha
  have hy := h.trans hx
  refine ⟨Rows.mem_of_get _ (life_row hy).1, ?_⟩
  have hcan : d'.cancellation? a.assignmentId = none := by
    simp only [leasable, Bool.and_eq_true, Option.isNone_iff_eq_none] at hl
    rw [Tables.cancellation?, Rows.get_eq_none]
    intro c hc hid
    obtain ⟨hcm, hci⟩ := (mem_life_cancellations hx).1 ((mem_life_cancellations hy).2 ⟨hc, hid⟩)
    exact (Rows.get_eq_none _).1 hl.2 c hcm hci
  simp only [leasable, Bool.and_eq_true, Option.isNone_iff_eq_none] at hl ⊢
  exact ⟨hl.1, hcan⟩

/-- **A sweep leaves alone what may be leased**, unless it is stale. -/
theorem leasable_swept {n : Nat} {u : Unit} (hs : Sound now d.toTables)
    (h₁ : Returns (expireLeasesBody env now) d n d₁) (h₂ : Returns (cancelStaleTrainGroups lag now) d₁ u d')
    {a : AssignmentRow} (ha : a ∈ d.assignments) (hl : leasable d.toTables now a = true)
    (hf : ¬ StaleAssignment d.toTables lag a) : a ∈ d'.assignments ∧ leasable d'.toTables now a = true := by
  obtain ⟨hwait, _, hdl⟩ := leasable_iff hl
  have hx := life?_of_mem d.ok ha
  have hin : InTime now d.toTables a.assignmentId := by
    constructor
    · intro l hm hid hact
      have hclosed := ((hs.wf _ _ hx).waiting hwait).closed
      exact absurd hact (hclosed l ((mem_life_leases hx).2 ⟨hm, hid⟩))
    · intro b hb
      have hget : d.assignment? a.assignmentId = some a := Rows.get_of_mem _ d.ok.assignments.key ha
      rw [hget, Option.mem_some] at hb
      exact not_due.2 (hb ▸ hdl)
  obtain ⟨hs₁, _⟩ := steady_expireLeasesBody env now _ _ _ hs h₁
  obtain ⟨ha₁, hl₁⟩ := leasable_of_life ha hl (expireLeasesBody_frame hs h₁ hin)
  refine leasable_of_life ha₁ hl₁ (cancelStaleTrainGroups_frame hs₁ h₂ ha₁ fun hst => hf ?_)
  have hw := writes_expireLeasesBody (S := reapTables) env now (List.Subset.refl _) _ _ _ h₁
  have hext := GrantsFresh.of_rows fun k hk => hw k (by revert k; decide)
  exact hst.before hext.toExtends ha rfl

/-- What waits and is available waited before, as it was. -/
def Waited (now : Time) (d d' : Db) : Prop :=
  ∀ a ∈ d'.assignments, a.state.waiting = true → a.availableAt ≤ now → a ∈ d.assignments

theorem Waited.refl (d : Db) : Waited now d d := fun _ ha _ _ => ha

theorem Waited.trans {d'' : Db} (h₁ : Waited now d d') (h₂ : Waited now d' d'') : Waited now d d'' :=
  fun a ha hw hn => h₁ a (h₂ a ha hw hn) hw hn

/-- A body that makes no assignment available at once. -/
abbrev Defers (now : Time) {α : Type} (m : Body α) : Prop := Evolves (fun _ : Db => True) (Waited now) m

theorem defers_of_writes {α : Type} {m : Body α} {S : List Table} (hw : Writes Db.rows S m) (hS : .assignments ∉ S) :
    Defers now m := fun d a d' _ hm b hb _ _ => by
  have ha : d'.assignments = d.assignments := hw d a d' hm .assignments hS
  exact ha ▸ hb

theorem Defers.bind {α β : Type} {x : Body α} {f : α → Body β} (hx : Defers now x) (hf : ∀ a, Defers now (f a)) :
    Defers now (x >>= f) :=
  Evolves.bind (fun _ _ _ _ => trivial) (fun _ _ _ h₁ h₂ => h₁.trans h₂) hx hf

theorem Defers.forEach {α : Type} {f : α → Body Unit} (l : List α) (hf : ∀ a, Defers now (f a)) :
    Defers now (Txn.forEach l f) :=
  Evolves.forEach (fun _ _ => .refl _) (fun _ _ _ _ => trivial) (fun _ _ _ h₁ h₂ => h₁.trans h₂) l fun a _ => hf a

theorem defers_setAssignment {f : AssignmentRow → AssignmentRow} (i : OpaqueId)
    (hf : ∀ a, (f a).state.waiting = true → now < (f a).availableAt) : Defers now (exec (setAssignment i f)) := by
  intro d u d' _ h a ha hw hn
  rw [returns_exec] at h
  rw [h, setAssignment_assignments, Rows.mem_set] at ha
  rcases ha with ⟨b, _, _, rfl⟩ | ha
  · exact absurd hn (not_le.2 (hf b hw))
  · exact ha.1

theorem defers_markFailed (i : OpaqueId) : Defers now (exec (setAssignment i markFailed)) :=
  defers_setAssignment i fun _ hw => by cases hw

/-- A delay is one. -/
theorem retryDelay_pos (env : Env) {n : Nat} {delay : Time} (h : retryDelay env n = .ok delay) : 0 < delay := by
  unfold retryDelay at h
  cases n with
  | zero =>
    rw [← Except.ok.inj h]
    exact lt_min env.max_pos (mul_pos env.base_pos (by norm_num))
  | succ n =>
    dsimp only at h
    split at h
    · cases h
    · rw [← Except.ok.inj h]
      exact lt_min env.max_pos (mul_pos env.base_pos (Nat.cast_pos.2 (Nat.two_pow_pos n)))

/-- **A retry waits for its delay.** -/
theorem defers_retryOrTerminal (env : Env) (a : AssignmentRow) (f : Option FailureEnvelope) (digest : Option Digest)
    (i : OpaqueId) : Defers now (retryOrTerminal env a now f digest i) := by
  unfold retryOrTerminal
  intro d b d' _ h
  simp only [returns_bind, returns_orThrow] at h
  obtain ⟨delay, _, ⟨hdelay, rfl⟩, h⟩ := h
  have hpos := retryDelay_pos env hdelay
  split at h
  · refine (Defers.bind (defers_setAssignment _ fun _ _ => ?_) fun _ => ?_) _ b d' trivial h
    · exact lt_add_of_pos_right now hpos
    · exact Evolves.pure (fun _ _ => .refl _) _
  · refine (Defers.bind (defers_markFailed _) fun _ => .bind ?_ fun _ => ?_) _ b d' trivial h
    · exact defers_of_writes (writes_insertOutcome (S := [.outcomes]) _ (by decide)) (by decide)
    · exact Evolves.pure (fun _ _ => .refl _) _

theorem defers_expireLeasesBody (env : Env) : Defers now (expireLeasesBody env now) := by
  unfold expireLeasesBody
  refine .bind (defers_of_writes (S := []) writes_tables (by decide)) fun t => .bind (.forEach _ fun x => ?_) fun _ =>
    .bind (defers_of_writes (S := []) writes_tables (by decide)) fun t => .bind (.forEach _ fun a => ?_) fun _ =>
    .bind ?_ fun _ => Evolves.pure (fun _ _ => .refl _) _
  · unfold expireOne
    refine .bind (defers_of_writes (writes_setLease (S := [.leases]) _ _ (by decide) fun _ => rfl) (by decide)) fun _ => ?_
    split
    · refine .bind (defers_markFailed _) fun _ => .bind ?_ fun _ => ?_
      · exact defers_of_writes (writes_setCancellation (S := [.cancellations]) _ _ (by decide)) (by decide)
      · exact defers_of_writes (writes_insertOutcomeOrIgnore (S := [.outcomes]) _ (by decide)) (by decide)
    · exact .bind (defers_retryOrTerminal env _ _ _ _) fun _ => Evolves.pure (fun _ _ => .refl _) _
  · unfold terminalizeWithoutEnvelope
    refine .bind (defers_markFailed _) fun _ => .bind ?_ fun _ => ?_
    · exact defers_of_writes (writes_insertOutcome (S := [.outcomes]) _ (by decide)) (by decide)
    · exact defers_of_writes (writes_recomputeGroup (S := [.groups]) _ (by decide)) (by decide)
  · exact defers_of_writes (writes_recomputeGroups (S := [.groups]) (by decide)) (by decide)

theorem defers_cancelStaleTrainGroups (lag : Int) : Defers now (cancelStaleTrainGroups lag now) := by
  unfold cancelStaleTrainGroups
  refine .bind (defers_of_writes (S := []) writes_tables (by decide)) fun t => .bind
    (defers_of_writes (S := []) (Writes.orRaise _ _) (by decide)) fun active => .bind
    (defers_of_writes (S := []) writes_tables (by decide)) fun t => .forEach _ fun g => ?_
  unfold cancelStaleGroup
  refine .bind (defers_of_writes (S := []) writes_tables (by decide)) fun t => .bind (.forEach _ fun a => ?_) fun _ =>
    defers_of_writes (writes_recomputeGroup (S := [.groups]) _ (by decide)) (by decide)
  unfold cancelStaleAssignment
  refine .bind (defers_of_writes (writes_insertCancellationOrIgnore (S := [.cancellations]) _ (by decide)) (by decide))
    fun _ => ?_
  split
  · refine .bind (defers_markFailed _) fun _ => .bind ?_ fun _ => ?_
    · exact defers_of_writes (writes_setCancellation (S := [.cancellations]) _ _ (by decide)) (by decide)
    · exact defers_of_writes (writes_insertOutcomeOrIgnore (S := [.outcomes]) _ (by decide)) (by decide)
  · split
    · exact defers_of_writes (writes_insertLeaseCancellationOrIgnore (S := [.leaseCancellations]) _ (by decide)) (by decide)
    · exact Evolves.pure (fun _ _ => .refl _) ()

/-- **What may be leased after a sweep** is what could be before, unless it is stale. -/
theorem leasable_swept_iff {n : Nat} {u : Unit} (hs : Sound now d.toTables)
    (h₁ : Returns (expireLeasesBody env now) d n d₁) (h₂ : Returns (cancelStaleTrainGroups lag now) d₁ u d')
    {a : AssignmentRow} : (a ∈ d'.assignments ∧ leasable d'.toTables now a = true) ↔
      a ∈ d.assignments ∧ leasable d.toTables now a = true ∧ ¬ StaleAssignment d.toTables lag a := by
  constructor
  · rintro ⟨ha, hl⟩
    obtain ⟨hwait, havail, hdl⟩ := leasable_iff hl
    obtain ⟨hs₁, _⟩ := steady_expireLeasesBody env now _ _ _ hs h₁
    have ha₁ := defers_cancelStaleTrainGroups lag _ _ _ trivial h₂ a ha hwait havail
    have ha₀ := defers_expireLeasesBody env _ _ _ trivial h₁ a ha₁ hwait havail
    have hx := life?_of_mem d.ok ha₀
    refine ⟨ha₀, ?_, fun hst => ?_⟩
    · simp only [leasable, Bool.and_eq_true, Option.isNone_iff_eq_none] at hl ⊢
      refine ⟨hl.1, ?_⟩
      rw [Tables.cancellation?, Rows.get_eq_none]
      intro c hc hid
      have hnil : (d.lifeOf a).cancellations = [] := ((hs.wf _ _ hx).waiting hwait).cancellations
      have hcx := (mem_life_cancellations hx).2 ⟨hc, hid⟩
      rw [hnil] at hcx
      exact absurd hcx List.not_mem_nil
    · have hw₁ := writes_expireLeasesBody (S := reapTables) env now (List.Subset.refl _) _ _ _ h₁
      have hw₂ := writes_cancelStaleTrainGroups (S := reapTables) lag now (List.Subset.refl _) _ _ _ h₂
      have hback := @GrantsFresh.of_rows d' d fun k hk =>
        ((hw₁ k (by revert k; decide)).symm.trans (hw₂ k (by revert k; decide)).symm)
      exact (cancelStaleTrainGroups_sound hs₁ h₂).2.fresh ha hwait (hst.before hback.toExtends ha rfl)
  · rintro ⟨ha, hl, hf⟩
    exact leasable_swept hs h₁ h₂ ha hl hf

/-- The workers have not been told of the cancellations that are new. -/
def Undelivered (d d' : Db) : Prop := ∀ c ∈ d'.leaseCancellations, c ∈ d.leaseCancellations ∨ c.deliveredAt = none

theorem Undelivered.refl (d : Db) : Undelivered d d := fun _ hc => Or.inl hc

theorem Undelivered.trans {d'' : Db} (h₁ : Undelivered d d') (h₂ : Undelivered d' d'') : Undelivered d d'' :=
  fun c hc => (h₂ c hc).elim (h₁ c) Or.inr

/-- A body that cancels leases, if it does, without telling their workers. -/
abbrev Quiet {α : Type} (m : Body α) : Prop := Evolves (fun _ : Db => True) Undelivered m

theorem quiet_of_writes {α : Type} {m : Body α} {S : List Table} (hw : Writes Db.rows S m) (hS : .leaseCancellations ∉ S) :
    Quiet m := fun d a d' _ hm c hc => by
  have hl : d'.leaseCancellations = d.leaseCancellations := hw d a d' hm .leaseCancellations hS
  exact Or.inl (hl ▸ hc)

theorem Quiet.bind {α β : Type} {x : Body α} {f : α → Body β} (hx : Quiet x) (hf : ∀ a, Quiet (f a)) : Quiet (x >>= f) :=
  Evolves.bind (fun _ _ _ _ => trivial) (fun _ _ _ h₁ h₂ => h₁.trans h₂) hx hf

theorem Quiet.forEach {α : Type} {f : α → Body Unit} (l : List α) (hf : ∀ a, Quiet (f a)) : Quiet (Txn.forEach l f) :=
  Evolves.forEach (fun _ _ => .refl _) (fun _ _ _ _ => trivial) (fun _ _ _ h₁ h₂ => h₁.trans h₂) l fun a _ => hf a

theorem quiet_cancelStaleAssignment (a : AssignmentRow) : Quiet (cancelStaleAssignment now a) := by
  unfold cancelStaleAssignment
  refine .bind (quiet_of_writes (writes_insertCancellationOrIgnore (S := [.cancellations]) _ (by decide)) (by decide))
    fun _ => ?_
  split
  · refine .bind ?_ fun _ => .bind ?_ fun _ => ?_
    · exact quiet_of_writes (writes_setAssignment (S := [.assignments]) _ _ (by decide) fun _ => rfl) (by decide)
    · exact quiet_of_writes (writes_setCancellation (S := [.cancellations]) _ _ (by decide)) (by decide)
    · exact quiet_of_writes (writes_insertOutcomeOrIgnore (S := [.outcomes]) _ (by decide)) (by decide)
  · split
    · intro d u d' _ hm c hc
      rw [returns_exec] at hm
      rw [hm, insertLeaseCancellationOrIgnore_leaseCancellations] at hc
      split at hc
      · exact Or.inl hc
      · rw [List.mem_append, List.mem_singleton] at hc
        exact hc.imp_right fun hc => by rw [hc]
    · exact Evolves.pure (fun _ _ => .refl _) ()

/-- **Cancelling stale work tells no worker.** -/
theorem quiet_cancelStaleTrainGroups (lag : Int) : Quiet (cancelStaleTrainGroups lag now) := by
  unfold cancelStaleTrainGroups
  refine .bind (quiet_of_writes (S := []) writes_tables (by decide)) fun t => ?_
  refine .bind (quiet_of_writes (S := []) (Writes.orRaise _ _) (by decide)) fun active => ?_
  refine .bind (quiet_of_writes (S := []) writes_tables (by decide)) fun t => ?_
  refine .forEach _ fun g => ?_
  unfold cancelStaleGroup
  refine .bind (quiet_of_writes (S := []) writes_tables (by decide)) fun t => ?_
  refine .bind (.forEach _ fun a => quiet_cancelStaleAssignment a) fun _ => ?_
  exact quiet_of_writes (writes_recomputeGroup (S := [.groups]) _ (by decide)) (by decide)

/-! ## What a sweep leaves of the slots -/

/-- What settling an assignment may write: no lease. -/
def settleTables : List Table := [.assignments, .outcomes, .cancellations, .leaseCancellations, .groups]

theorem writes_terminalize_settle (a : AssignmentRow) (o : Outcome) :
    Writes Db.rows settleTables (terminalizeWithoutEnvelope a o now) := by
  unfold terminalizeWithoutEnvelope
  refine .bind (writes_setAssignment _ _ (by decide) fun _ => rfl) fun _ => ?_
  exact .bind (writes_insertOutcome _ (by decide)) fun _ => writes_recomputeGroup _ (by decide)

theorem writes_cancelStale_settle (lag : Int) : Writes Db.rows settleTables (cancelStaleTrainGroups lag now) := by
  unfold cancelStaleTrainGroups
  refine .bind writes_tables fun t => .bind (Writes.orRaise _ _) fun active => .bind writes_tables fun t => ?_
  refine .forEach _ fun g => ?_
  unfold cancelStaleGroup
  refine .bind writes_tables fun t => .bind (.forEach _ fun a => ?_) fun _ => writes_recomputeGroup _ (by decide)
  exact writes_cancelStaleAssignment now a (by decide) (by decide) (by decide) (by decide)

/-- A lease that holds its slot is in time, and so is its assignment. -/
theorem inTime_of_holdsSlot (hs : Sound now d.toTables) {l : LeaseRow} (hl : l ∈ d.leases)
    (h : holdsSlot d.toTables now l = true) : InTime now d.toTables l.assignmentId := by
  obtain ⟨x, hx, hlx⟩ := life?_of_lease d.ok hl
  obtain ⟨hact, hexp, hdl, _⟩ := (holdsSlot_iff hl hx).1 h
  obtain ⟨i, hh⟩ := (hs.wf _ _ hx).held_of_active hlx hact
  constructor
  · intro m hm hid hma
    have hi := hh.only m ((mem_life_leases hx).2 ⟨hm, hid⟩) hma
    rw [Rows.eq_of_key _ d.ok.leases.key hm hl (hi.trans (hh.only l hlx hact).symm)]
    exact hexp
  · intro a ha
    rw [(life_row hx).1, Option.mem_some] at ha
    rw [← ha, not_due]
    exact hdl

/-- **A sweep takes no slot from a lease that has one.** -/
theorem sweep_keeps_slots {n : Nat} {u : Unit} (hs : Sound now d.toTables)
    (h₁ : Returns (expireLeasesBody env now) d n d₁) (h₂ : Returns (cancelStaleTrainGroups lag now) d₁ u d') :
    Holding now [] d' d := by
  obtain ⟨hs₁, _⟩ := steady_expireLeasesBody env now _ _ _ hs h₁
  have hw₂ := writes_cancelStale_settle lag _ _ _ h₂
  have hl₂ : d'.leases = d₁.leases := hw₂ .leases (by decide)
  have ha₂ : d'.assignments.map AssignmentRow.fixed = d₁.assignments.map AssignmentRow.fixed :=
    hw₂ .fixedAssignments (by decide)
  have hm₂ := quiet_cancelStaleTrainGroups lag _ _ _ trivial h₂
  intro l hl hslot
  left
  obtain ⟨x, hx, hlx⟩ := life?_of_lease d.ok hl
  have hx₁ : d₁.life? l.assignmentId = some x := by
    rw [expireLeasesBody_frame hs h₁ (inTime_of_holdsSlot hs hl hslot), hx]
  have hl₁ : l ∈ d₁.leases := ((mem_life_leases hx₁).1 hlx).1
  have hslot₁ : holdsSlot d₁.toTables now l = true := (holdsSlot_iff hl₁ hx₁).2 ((holdsSlot_iff hl hx).1 hslot)
  obtain ⟨hact, hexp, hdl, hmark⟩ := (holdsSlot_iff hl₁ hx₁).1 hslot₁
  refine ⟨l, hl₂ ▸ hl₁, ?_, rfl⟩
  obtain ⟨y, hy, hly⟩ := life?_of_lease d'.ok (hl₂ ▸ hl₁ : l ∈ d'.leases)
  refine (holdsSlot_iff (hl₂ ▸ hl₁) hy).2 ⟨hact, hexp, ?_, fun c hc hci => ?_⟩
  · obtain ⟨b, hb, hf⟩ := Life.mem_of_map_eq ha₂ (Rows.mem_of_get _ (life_row hy).1)
    have hid : b.assignmentId = y.row.assignmentId := congrArg (·.assignmentId) hf
    have hbx : b = x.row := Rows.eq_of_key _ d₁.ok.assignments.key hb (Rows.mem_of_get _ (life_row hx₁).1)
      (hid.trans ((life_row hy).2.trans (life_row hx₁).2.symm))
    have hdeadline : y.row.deadlineAt = x.row.deadlineAt := hbx ▸ (congrArg (·.deadlineAt) hf).symm
    exact hdeadline ▸ hdl
  · obtain ⟨hc, hca⟩ := (mem_life_marks hy).1 hc
    rcases hm₂ c hc with hc | hc
    · exact hmark c ((mem_life_marks hx₁).2 ⟨hc, hca⟩) hci
    · exact hc

/-! ## Swept -/

/-- No lease and no waiting assignment is past its time. -/
structure Swept (now : Time) (t : Tables) : Prop where
  leases : ∀ l ∈ t.leases, l.state = .active → now < l.expiresAt ∧
    ∀ a, t.assignment? l.assignmentId = some a → due a.deadlineAt now = false
  waiting : ∀ a ∈ t.assignments, a.state.waiting = true → due a.deadlineAt now = false

theorem Swept.expired (h : Swept now d.toTables) : expiredLeases d.toTables now = [] := by
  rw [List.eq_nil_iff_forall_not_mem]
  intro x hx
  obtain ⟨l, hl, a, ha, hact, hc, _⟩ := mem_expired hx
  obtain ⟨he, hd⟩ := h.leases l hl hact
  rcases hc with hc | hc
  · exact absurd he (not_lt.2 hc)
  · rw [hd a ha] at hc
    cases hc

theorem Swept.overdue (h : Swept now d.toTables) : overdueAssignments d.toTables now = [] := by
  rw [List.eq_nil_iff_forall_not_mem]
  intro a ha
  rw [overdueAssignments, Rows.mem_orderBy, List.mem_filter, Bool.and_eq_true] at ha
  rw [h.waiting a ha.1 ha.2.1] at ha
  cases ha.2.2

/-- An assignment that is read back was there, with the deadline it has. -/
theorem before_of_fixed (hf : d'.assignments.map AssignmentRow.fixed = d.assignments.map AssignmentRow.fixed)
    {a : AssignmentRow} (ha : d'.assignment? i = some a) : ∃ b, d.assignment? i = some b ∧ b.fixed = a.fixed := by
  obtain ⟨b, hb, he⟩ := Life.mem_of_map_eq hf (Rows.mem_of_get _ ha)
  have hid : b.assignmentId = a.assignmentId := congrArg (·.assignmentId) he
  refine ⟨b, ?_, he⟩
  rw [← Rows.key_of_get _ ha, ← hid]
  exact Rows.get_of_mem _ d.ok.assignments.key hb

theorem due_of_fixed {a b : AssignmentRow} (h : b.fixed = a.fixed) : due a.deadlineAt now = due b.deadlineAt now := by
  rw [show b.deadlineAt = a.deadlineAt from congrArg (·.deadlineAt) h]

/-- An expired lease is closed, and no lease becomes active. -/
theorem expireOne_closes {x : ExpiredLease} {u : Unit} (h : Returns (expireOne env now x) d u d') :
    ∀ l ∈ d'.leases, l.state = .active → l ∈ d.leases ∧ l.leaseId ≠ x.leaseId := by
  simp only [expireOne, returns_bind, returns_exec] at h
  obtain ⟨_, d₁, h₁, h⟩ := h
  have hl : d'.leases = d₁.leases := by
    split at h
    · simp only [returns_bind, returns_exec] at h
      obtain ⟨_, d₂, h₂, _, d₃, h₃, h₄⟩ := h
      rw [h₄, insertOutcomeOrIgnore_leases, h₃, setCancellation_leases, h₂, setAssignment_leases]
    · simp only [returns_bind, returns_pure] at h
      obtain ⟨_, _, h, _, rfl⟩ := h
      exact writes_retryOrTerminal (S := [.assignments, .outcomes]) env _ now none none _ (by decide) (by decide) _ _ _ h
        .leases (by decide)
  intro l hm hact
  rw [hl, h₁, setLease_leases, Rows.mem_set] at hm
  rcases hm with ⟨l₀, _, _, rfl⟩ | hm
  · cases hact
  · exact hm

/-- A terminalized assignment does not wait, and none begins to. -/
theorem terminalize_closes {a : AssignmentRow} {k : Outcome} {u : Unit}
    (h : Returns (terminalizeWithoutEnvelope a k now) d u d') :
    ∀ b ∈ d'.assignments, b.state.waiting = true → b ∈ d.assignments ∧ b.assignmentId ≠ a.assignmentId := by
  simp only [terminalizeWithoutEnvelope, returns_bind, returns_exec] at h
  obtain ⟨_, d₁, h₁, _, d₂, h₂, h₃⟩ := h
  intro b hb hw
  rw [returns_recomputeGroup h₃, setGroup_assignments, h₂, insertOutcome_assignments, h₁, setAssignment_assignments,
    Rows.mem_set] at hb
  rcases hb with ⟨b₀, _, _, rfl⟩ | hb
  · cases hw
  · exact hb

/-- **Expiry leaves nothing past its time.** -/
theorem expireLeasesBody_swept {n : Nat} (h : Returns (expireLeasesBody env now) d n d') : Swept now d'.toTables := by
  have hfixed := writes_expireLeasesBody (S := reapTables) env now (List.Subset.refl _) _ _ _ h .fixedAssignments (by decide)
  simp only [expireLeasesBody, returns_bind, returns_tables, returns_pure] at h
  obtain ⟨_, d₀, ⟨rfl, rfl⟩, _, d₁, h₁, _, d₁', ⟨rfl, rfl⟩, _, d₂, h₂, _, d₃, h₃, rfl, rfl⟩ := h
  have hl := forEach_closes (fun d : Db => d.leases) (fun l => l.state = .active) (·.leaseId) (·.leaseId)
    (fun _ _ _ _ hr => expireOne_closes hr) _ _ _ _ h₁
  have ha := forEach_closes (fun d : Db => d.assignments) (fun a => a.state.waiting = true) (·.assignmentId)
    (·.assignmentId) (fun _ _ _ _ hr => terminalize_closes hr) _ _ _ _ h₂
  have hw₂ : Writes Db.rows settleTables (Txn.forEach (overdueAssignments d₁'.toTables now)
      fun a => terminalizeWithoutEnvelope a .deadlineExceeded now) :=
    Writes.forEach _ fun a => writes_terminalize_settle a _
  have hw₃ := writes_recomputeGroups (S := [.groups]) (by decide) _ _ _ h₃
  have hl₂ : d₂.leases = d₁'.leases := hw₂ _ _ _ h₂ .leases (by decide)
  have hl₃ : d'.leases = d₂.leases := hw₃ .leases (by decide)
  have ha₃ : d'.assignments = d₂.assignments := hw₃ .assignments (by decide)
  constructor
  · intro l hm hact
    obtain ⟨hm₀, hne⟩ := hl l (hl₂ ▸ hl₃ ▸ hm) hact
    -- a lease past its time would have been on the list
    have hlive : ∀ a, d₀.assignment? l.assignmentId = some a → ¬ (l.expiresAt ≤ now ∨ due a.deadlineAt now = true) := by
      intro a hget hc
      refine hne ⟨a, l.leaseId, l.expiresAt, (d₀.leaseCancellation? l.leaseId).isSome⟩ ?_ rfl
      rw [expiredLeases, Rows.mem_orderBy, List.mem_filterMap]
      exact ⟨l, hm₀, by rw [hget, Option.bind_some, if_pos ⟨hact, hc⟩]⟩
    obtain ⟨b, hb, hid⟩ := d₀.ok.leases.assignment l hm₀
    have hget : d₀.assignment? l.assignmentId = some b := hid ▸ Rows.get_of_mem _ d₀.ok.assignments.key hb
    refine ⟨not_le.1 fun he => hlive b hget (Or.inl he), fun a hga => ?_⟩
    obtain ⟨c, hc, hf⟩ := before_of_fixed hfixed hga
    rw [due_of_fixed hf, ← Bool.not_eq_true]
    exact fun hdue => hlive c hc (Or.inr hdue)
  · intro a hm hwait
    obtain ⟨hm₁, hne⟩ := ha a (ha₃ ▸ hm) hwait
    rw [← Bool.not_eq_true]
    intro hdue
    refine hne a ?_ rfl
    rw [overdueAssignments, Rows.mem_orderBy, List.mem_filter]
    exact ⟨hm₁, by rw [hwait, hdue]; rfl⟩

/-- **Cancelling stale work leaves a swept database swept.** -/
theorem Swept.cancelStale {u : Unit} (h : Swept now d.toTables) (hs : Sound now d.toTables)
    (hc : Returns (cancelStaleTrainGroups lag now) d u d') : Swept now d'.toTables := by
  have hw := writes_cancelStale_settle lag _ _ _ hc
  have hl : d'.leases = d.leases := hw .leases (by decide)
  have hf : d'.assignments.map AssignmentRow.fixed = d.assignments.map AssignmentRow.fixed :=
    hw .fixedAssignments (by decide)
  constructor
  · intro l hm hact
    obtain ⟨he, hd⟩ := h.leases l (hl ▸ hm) hact
    refine ⟨he, fun a ha => ?_⟩
    obtain ⟨b, hb, hba⟩ := before_of_fixed hf ha
    rw [due_of_fixed hba]
    exact hd b hb
  · intro a ha hwait
    have hno := (cancelStaleTrainGroups_sound hs hc).2
    obtain ⟨b, hb, hba⟩ := before_of_fixed hf (Rows.get_of_mem _ d'.ok.assignments.key ha)
    have hback := GrantsFresh.of_rows fun k hk => (hw k (by revert k; decide)).symm
    -- what still waits was not stale, so it is the row it was
    have hfresh : ¬ StaleAssignment d.toTables lag b := fun hst => hno.fresh ha hwait (hst.before hback.toExtends ha hba)
    have hsame := cancelStaleTrainGroups_frame hs hc (Rows.mem_of_get _ hb) hfresh
    rw [Rows.key_of_get _ hb, life?_of_mem d'.ok ha, life?_of_assignment hb, Option.some.injEq] at hsame
    have hrow : a = b := congrArg Life.row hsame
    exact hrow ▸ h.waiting b (Rows.mem_of_get _ hb) (hrow ▸ hwait)

/-- **A new group leaves a swept database swept**, when its deadlines lie ahead. -/
theorem Swept.created {g : GroupRow} {rows : List AssignmentRow} (h : Swept now d.toTables)
    (hc : Created d.toTables d'.toTables g rows) (hrows : ∀ a ∈ rows, due a.deadlineAt now = false) :
    Swept now d'.toTables := by
  have hl : d'.leases = d.leases := hc.others .leases (by decide) (by decide)
  constructor
  · intro l hm hact
    obtain ⟨he, hd⟩ := h.leases l (hl ▸ hm) hact
    refine ⟨he, fun a ha => ?_⟩
    obtain ⟨b, hb, hid⟩ := d.ok.leases.assignment l (hl ▸ hm)
    have hget : d.assignment? l.assignmentId = some b := hid ▸ Rows.get_of_mem _ d.ok.assignments.key hb
    have hget' := (life_row (hc.old (life?_of_assignment hget))).1
    have hab : a = b := Option.some.inj (ha.symm.trans hget')
    exact hab ▸ hd b hget
  · intro a ha hw
    rw [hc.assignments, List.mem_append] at ha
    exact ha.elim (fun ha => h.waiting a ha hw) (hrows a)

/-! ## A sweep with nothing to do -/

theorem recomputeGroup_idle (hs : Synced d.toTables) (g : OpaqueId) : Returns (recomputeGroup g) d () d := by
  simp only [recomputeGroup, returns_bind, returns_tables, returns_exec]
  refine ⟨_, _, ⟨rfl, rfl⟩, ?_⟩
  have hsame : ∀ r ∈ d.groups, r.groupId = g →
      { r with state := if (openAssignments d.toTables g).length = 0 then GroupState.ready else .collecting } = r := by
    rintro r hr rfl
    have hiff := hs r hr not_false
    rw [← openAssignments_length] at hiff
    by_cases h : (openAssignments d.toTables r.groupId).length = 0
    · rw [if_pos h, ← hiff.2 h]
    · rw [if_neg h]
      cases hst : r.state with
      | collecting => rw [← hst]
      | ready => exact absurd (hiff.1 hst) h
  rw [setGroup, Rows.set_of_same _ hsame]

/-- **Expiry of a swept database writes nothing.** -/
theorem expireLeasesBody_idle (env : Env) (h : Swept now d.toTables) (hs : Sound now d.toTables) :
    Returns (expireLeasesBody env now) d 0 d := by
  simp only [expireLeasesBody, returns_bind, returns_tables, returns_pure]
  refine ⟨_, _, ⟨rfl, rfl⟩, (), d, ?_, _, _, ⟨rfl, rfl⟩, (), d, ?_, (), d, ?_, ?_, rfl⟩
  · rw [h.expired, forEach_nil, returns_pure]
    exact ⟨rfl, rfl⟩
  · rw [h.overdue, forEach_nil, returns_pure]
    exact ⟨rfl, rfl⟩
  · simp only [recomputeGroups, returns_bind, returns_tables]
    exact ⟨_, _, ⟨rfl, rfl⟩, returns_forEach_checks fun g _ => recomputeGroup_idle hs.synced g⟩
  · rw [h.expired]
    rfl

/-- A settled assignment that still lives is held under a lease whose cancellation is recorded. -/
theorem cancelStaleAssignment_idle (hs : Sound now d.toTables) {a : AssignmentRow} (ha : a ∈ d.assignments)
    (hlive : a.state.waiting = true ∨ a.state = .leased) (hset : (d.lifeOf a).Settled) :
    Returns (cancelStaleAssignment now a) d () d := by
  have hx := life?_of_mem d.ok ha
  have hleased : a.state = .leased := hlive.resolve_left fun hw => by
    rw [show a.state.waiting = false from hset.idle] at hw
    cases hw
  obtain ⟨k, hh⟩ := (hs.wf _ _ hx).held hleased
  have hcur : a.currentLeaseId = some k := hh.current
  have hcan := hset.cancelled hleased
  have hmarked : ∃ m ∈ (d.lifeOf a).leaseCancellations, m.leaseId = k := by
    rcases hh.marked with ⟨hnil, _⟩ | ⟨_, _, _, hm⟩
    · exact absurd hnil hcan
    · exact hm
  obtain ⟨c, hc⟩ := List.exists_mem_of_ne_nil _ hcan
  obtain ⟨hcm, hca⟩ := (mem_life_cancellations hx).1 hc
  have hcsome : (d.cancellation? a.assignmentId).isSome = true := by
    rw [Tables.cancellation?, ← hca, Rows.get_of_mem _ d.ok.cancellations.key hcm]
    rfl
  obtain ⟨m, hm, hmk⟩ := hmarked
  have hmsome : (d.leaseCancellation? k).isSome = true := by
    rw [Tables.leaseCancellation?, ← hmk, Rows.get_of_mem _ d.ok.cancellations.leaseKey ((mem_life_marks hx).1 hm).1]
    rfl
  simp only [cancelStaleAssignment, returns_bind, returns_exec, hcur]
  refine ⟨(), d, ?_, ?_⟩
  · rw [insertCancellationOrIgnore, if_pos hcsome]
  · rw [if_neg (by simpa using hleased), returns_exec, insertLeaseCancellationOrIgnore, if_pos hmsome]

/-- **Where no stale work is left, cancelling it writes nothing.** -/
theorem cancelStaleTrainGroups_idle (hs : Sound now d.toTables) (hno : NoStaleWork d.toTables lag) {active : PolicyRow}
    (hact : d.activePolicy? = some active) : Returns (cancelStaleTrainGroups lag now) d () d := by
  simp only [cancelStaleTrainGroups, returns_bind, returns_tables, returns_orRaise]
  refine ⟨_, _, ⟨rfl, rfl⟩, active, d, ⟨hact, rfl⟩, _, _, ⟨rfl, rfl⟩, returns_forEach_checks fun g hg => ?_⟩
  rw [staleGroups, Rows.mem_orderBy, List.mem_filter, Bool.and_eq_true, decide_eq_true_eq, Option.any_eq_true] at hg
  obtain ⟨hg, hkind, p, hp, hlag⟩ := hg
  simp only [cancelStaleGroup, returns_bind, returns_tables]
  refine ⟨_, _, ⟨rfl, rfl⟩, (), d, returns_forEach_checks fun a ha => ?_, recomputeGroup_idle hs.synced _⟩
  rw [liveAssignments, Rows.mem_orderBy, List.mem_filter, Bool.and_eq_true, Bool.or_eq_true, decide_eq_true_eq,
    decide_eq_true_eq] at ha
  obtain ⟨ha, hid, hlive⟩ := ha
  exact cancelStaleAssignment_idle hs ha hlive
    (hno g hg ⟨hkind, active, hact, p, hp, of_decide_eq_true hlag⟩ _ _ (life?_of_mem d.ok ha) hid)

end Aether
