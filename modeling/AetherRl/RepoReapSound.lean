import AetherRl.RepoAdvance
/-!
# RepoReapSound — retries, expiry and cancellation keep the invariant

What `_retry_or_terminal` does to the life it is called on; then one turn of each loop of `_expire_leases` and
`_cancel_stale_train_groups`, the loops by their keys, and the bodies.  `Steady` is the statement for a body: from a
sound state it leads to a sound state and only advances.
-/
namespace Aether

open Txn (Returns Writes Evolves forEach_keyed returns_bind returns_pure returns_map returns_orThrow returns_orRaise
  returns_raiseIf returns_throw forEach_cons forEach_nil)
open Tables Repo
open Life (Moves Move)

/-- **From a sound state the body leads to a sound state**, each life moving on the way. -/
def Steady {α : Type} (now : Time) (m : Body α) : Prop :=
  Evolves (fun d : Db => Sound now d.toTables)
    (fun d d' : Db => Sound now d'.toTables ∧ Advances now (fun _ => True) d.toTables d'.toTables) m

section
variable {α β : Type} {now : Time}

theorem Steady.bind {x : Body α} {f : α → Body β} (hx : Steady now x) (hf : ∀ a, Steady now (f a)) :
    Steady now (x >>= f) :=
  Evolves.bind (fun _ _ _ h => h.1) (fun _ _ _ h₁ h₂ => ⟨h₂.1, h₁.2.trans h₂.2⟩) hx hf

theorem Steady.pure (a : α) : Steady now (pure a : Body α) :=
  Evolves.pure (fun _ h => ⟨h, .refl _⟩) a

theorem Steady.forEach {f : α → Body Unit} (l : List α) (h : ∀ a ∈ l, Steady now (f a)) :
    Steady now (Txn.forEach l f) :=
  Evolves.forEach (fun _ h => ⟨h, .refl _⟩) (fun _ _ _ h => h.1) (fun _ _ _ h₁ h₂ => ⟨h₂.1, h₁.2.trans h₂.2⟩) l h

/-- **Where no life and no group changed the invariant holds.** -/
theorem Sound.of_rows {d d' : Db} (hs : Sound now d.toTables)
    (hsame : ∀ k ∈ Table.groups :: lifeTables, d'.rows k = d.rows k) :
    Sound now d'.toTables ∧ Advances now (fun _ => True) d.toTables d'.toTables := by
  have hl : d'.life? = d.life? := life?_congr (fun k hk => hsame k (List.mem_cons_of_mem _ hk))
  have hg : d'.groups = d.groups := hsame .groups List.mem_cons_self
  have ha : Advances now (fun _ => False) d.toTables d'.toTables := .of_same hl
  refine ⟨hs.advance ha (by rw [hg]) ?_, ha.mono (fun _ => False.elim)⟩
  intro r hr hd
  exact (hs.synced.advance ha hg) r hr (by simp)

/-- **A body that writes no life and no group is steady.** -/
theorem Steady.of_writes {S : List Table} {m : Body α} (h : Writes Db.rows S m)
    (hS : ∀ k ∈ Table.groups :: lifeTables, k ∉ S) : Steady now m :=
  fun d a d' hs hm => hs.of_rows fun k hk => h d a d' hm k (hS k hk)

end

/-! ## Retry or terminal -/

theorem retryDelay_nonneg {env : Env} {n : Nat} {delay : Time} (h : retryDelay env n = .ok delay) : 0 ≤ delay := by
  have hb := env.base_pos.le
  have hm := env.max_pos.le
  cases n with
  | zero =>
    simp only [retryDelay, Except.ok.injEq] at h
    rw [← h]
    exact le_min hm (mul_nonneg hb (by norm_num))
  | succ n =>
    simp only [retryDelay] at h
    split at h
    · cases h
    · rw [Except.ok.injEq] at h
      rw [← h]
      exact le_min hm (mul_nonneg hb (Nat.cast_nonneg _))

/-- **What `_retry_or_terminal` leaves**: the assignment waiting again, or failed with one outcome that is no result. -/
theorem returns_retryOrTerminal {env : Env} {a : AssignmentRow} {now : Time} {e : Option FailureEnvelope}
    {digest : Option Digest} {i : OpaqueId} {d d' : Db} {b : Bool}
    (h : Returns (retryOrTerminal env a now e digest i) d b d') :
    (b = false ∧ a.attemptCount < a.maxAttempts ∧ ∃ at_, now ≤ at_ ∧
      d'.toTables = setAssignment a.assignmentId
        (fun a => { a with state := .retryWait, availableAt := at_, currentLeaseId := none }) d.toTables) ∨
    (b = true ∧ ∃ o : OutcomeRow, o.assignmentId = a.assignmentId ∧ o.outcome ≠ .result ∧
      d'.toTables = insertOutcome o (setAssignment a.assignmentId markFailed d.toTables)) := by
  simp only [retryOrTerminal, returns_bind, returns_orThrow] at h
  obtain ⟨delay, d₁, ⟨hd, rfl⟩, h⟩ := h
  by_cases hc : canRetry a now delay e = true
  · rw [if_pos hc] at h
    simp only [returns_bind, returns_exec, returns_pure] at h
    obtain ⟨_, d₂, h₂, rfl, rfl⟩ := h
    simp only [canRetry, Bool.and_eq_true, decide_eq_true_eq] at hc
    exact Or.inl ⟨rfl, hc.1.2, now + delay, le_add_of_nonneg_right (retryDelay_nonneg hd), h₂⟩
  · rw [if_neg hc] at h
    simp only [returns_bind, returns_exec, returns_pure] at h
    obtain ⟨_, d₂, h₂, _, d₃, h₃, rfl, rfl⟩ := h
    refine Or.inr ⟨rfl, _, rfl, ?_, by rw [h₃, h₂]⟩
    unfold terminalOutcome
    split
    · simp
    · split
      · simp
      · split <;> simp

/-- **A close followed by `_retry_or_terminal` moves the life once**: a retry, or a failure. -/
theorem retryOrTerminal_moves {env : Env} {a : AssignmentRow} {now : Time} {e : Option FailureEnvelope}
    {digest : Option Digest} {i : OpaqueId} {s : LeaseState} {d d₁ d' : Db} {b : Bool} {x : Life}
    (hx : d.life? a.assignmentId = some x) (hrow : x.row = a) (hw : x.Wf now) (hcur : a.currentLeaseId = some i)
    (hs : s ≠ .active) (hc : x.cancellations = [])
    (h₁ : d₁.toTables = setLease i (fun l => { l with state := s }) d.toTables)
    (h : Returns (retryOrTerminal env a now e digest i) d₁ b d') :
    Moved now a.assignmentId d.toTables d'.toTables := by
  subst hrow
  obtain ⟨_, hh⟩ := hw.held_of_current hcur
  have hown := lease_owner d.ok hx (hh.lease.imp fun _ h => ⟨h.1, h.2.1⟩)
  have hclose : Changes x.row.assignmentId (Life.close i s) d.toTables d₁.toTables :=
    h₁ ▸ changes_setLease hown (fun _ => rfl)
  rcases returns_retryOrTerminal h with ⟨_, hn, at_, ha, hd⟩ | ⟨_, o, ho, hk, hd⟩
  · have hset : Changes x.row.assignmentId (Life.retry at_) d₁.toTables d'.toTables :=
      hd ▸ changes_setAssignment _ _ _ (fun _ => rfl)
    exact (hclose.trans hset).moved hx (.single (.retry i s at_ hcur hs hc hn ha))
  · have hset : Changes x.row.assignmentId (Life.fail o) d₁.toTables d'.toTables := by
      have h₂ := changes_setAssignment x.row.assignmentId markFailed d₁.toTables (fun _ => rfl)
      have h₃ := changes_insertOutcome o (setAssignment x.row.assignmentId markFailed d₁.toTables)
      rw [ho, ← hd] at h₃
      exact h₂.trans h₃
    refine (hclose.trans hset).moved hx (.single ?_)
    have hm : Move now x _ := .fail i s o hcur hs hk
    have he : ((x.close i s).fail o).endCancellations = (x.close i s).fail o := Life.endCancellations_of_nil hc
    rw [he] at hm
    exact hm

/-- **A close of a cancelled lease fails its assignment.** -/
theorem cancelled_moves {now : Time} {a : AssignmentRow} {i : OpaqueId} {s : LeaseState} {o : OutcomeRow}
    {t t₁ t₂ t₃ t' : Tables} (hk : SchemaOk t) {x : Life} (hx : t.life? a.assignmentId = some x) (hrow : x.row = a)
    (hw : x.Wf now) (hcur : a.currentLeaseId = some i) (hs : s ≠ .active)
    (h₁ : t₁ = setLease i (fun l => { l with state := s }) t) (h₂ : t₂ = setAssignment a.assignmentId markFailed t₁)
    (h₃ : t₃ = setCancellation a.assignmentId (fun c => { c with terminal := true }) t₂)
    (ho : o.assignmentId = a.assignmentId) (hkind : o.outcome ≠ .result)
    (h₄ : t' = insertOutcome o t₃ ∨ t' = insertOutcomeOrIgnore o t₃) : Moved now a.assignmentId t t' := by
  subst hrow
  obtain ⟨_, hh⟩ := hw.held_of_current hcur
  have hown := lease_owner hk hx (hh.lease.imp fun _ h => ⟨h.1, h.2.1⟩)
  have c₁ : Changes x.row.assignmentId (Life.close i s) t t₁ := h₁ ▸ changes_setLease hown (fun _ => rfl)
  have c₂ := c₁.trans (h₂ ▸ changes_setAssignment x.row.assignmentId markFailed t₁ (fun _ => rfl))
  have c₃ := c₂.trans (h₃ ▸ changes_setCancellation x.row.assignmentId (fun c => { c with terminal := true }) t₂
    (fun _ => rfl))
  have hm : Move now x _ := .fail i s o hcur hs hkind
  rcases h₄ with h₄ | h₄
  · have c₄ := changes_insertOutcome o t₃
    rw [ho, ← h₄] at c₄
    exact (c₃.trans c₄).moved hx (.single hm)
  · have c₄ := changes_insertOutcomeOrIgnore o t₃
    rw [ho, ← h₄] at c₄
    refine (c₃.trans c₄).moved hx (.single ?_)
    -- a held assignment has no outcome, so the insert that may be ignored is not
    have hnil : x.outcomes = [] := hh.outcomes
    simpa [Function.comp_apply, Life.close, Life.setLease, hnil, Life.fail, Life.endCancellations] using hm

/-! ## Expiry -/

/-- What the rows of an expired lease read before the loop say of its assignment's life. -/
def Expiring (now : Time) (x : ExpiredLease) (o : Option Life) : Prop :=
  ∃ y, o = some y ∧ y.Wf now ∧ y.row = x.assignment ∧ y.row.currentLeaseId = some x.leaseId ∧
    (x.cancelled = true ↔ y.cancellations ≠ [])

theorem Life.Held.marked_iff {i : OpaqueId} {x : Life} (h : x.Held i) :
    (∃ c ∈ x.leaseCancellations, c.leaseId = i) ↔ x.cancellations ≠ [] := by
  rcases h.marked with ⟨hc, hm⟩ | ⟨c, hc, _, m, hm, hi⟩
  · rw [hc]
    simp only [ne_eq, not_true, iff_false, not_exists, not_and]
    exact hm
  · rw [hc]
    simp only [ne_eq, List.cons_ne_nil, not_false_eq_true, iff_true]
    exact ⟨m, hm, hi⟩

theorem expireOne_moves {env : Env} {now : Time} {x : ExpiredLease} {d d' : Db} {u : Unit}
    (hx : Expiring now x (d.life? x.assignment.assignmentId)) (h : Returns (expireOne env now x) d u d') :
    Moved now x.assignment.assignmentId d.toTables d'.toTables := by
  obtain ⟨y, hy, hw, hrow, hcur, hcan⟩ := hx
  have hcur' : x.assignment.currentLeaseId = some x.leaseId := hrow ▸ hcur
  simp only [expireOne, returns_bind, returns_exec] at h
  obtain ⟨_, d₁, h₁, h⟩ := h
  by_cases hc : x.cancelled = true
  · rw [if_pos hc] at h
    simp only [returns_bind, returns_exec] at h
    obtain ⟨_, d₂, h₂, _, d₃, h₃, h₄⟩ := h
    exact cancelled_moves d.ok hy hrow hw hcur' (by decide) h₁ h₂ h₃ rfl (by simp) (Or.inr h₄)
  · rw [if_neg hc] at h
    simp only [returns_bind, returns_pure] at h
    obtain ⟨b, d₂, h₂, _, rfl⟩ := h
    exact retryOrTerminal_moves hy hrow hw hcur' (by decide) (not_not.1 (fun hne => hc (hcan.2 hne))) h₁ h₂

section
variable {now : Time} {d : Db} (hw : ∀ i x, d.life? i = some x → x.Wf now)
include hw

theorem expiredLeases_expiring : ∀ x ∈ expiredLeases d.toTables now, Expiring now x (d.life? x.assignment.assignmentId) := by
  intro x hx
  rw [expiredLeases, Rows.mem_orderBy, List.mem_filterMap] at hx
  obtain ⟨l, hl, hx⟩ := hx
  rw [Option.bind_eq_some_iff] at hx
  obtain ⟨a, ha, hx⟩ := hx
  split at hx
  case isFalse => cases hx
  case isTrue hcond =>
    rw [Option.some.injEq] at hx
    subst hx
    have hid : a.assignmentId = l.assignmentId := Rows.key_of_get _ ha
    have hlife : d.life? a.assignmentId = some (d.lifeOf a) := by
      rw [hid]
      exact life?_of_assignment ha
    have hm : l ∈ (d.lifeOf a).leases := (mem_life_leases hlife).2 ⟨hl, hid.symm⟩
    have hwf := hw _ _ hlife
    obtain ⟨_, hh⟩ := hwf.held_of_active hm hcond.1
    exact ⟨d.lifeOf a, hlife, hwf, rfl, hh.current, (leaseCancellation_isSome d.ok hlife hm).trans hh.marked_iff⟩

/-- **Two leases that expire together are of different assignments.** -/
theorem expiredLeases_nodup : ((expiredLeases d.toTables now).map (·.assignment.assignmentId)).Nodup := by
  rw [expiredLeases, ((Rows.orderBy_perm _ _).map _).nodup_iff, List.Nodup, List.pairwise_map, List.pairwise_filterMap]
  have hk : d.leases.Pairwise (fun l m => l.leaseId ≠ m.leaseId) := List.pairwise_map.1 d.ok.leases.key
  refine hk.imp_of_mem (fun {l m} hl hm hne x hx y hy he => hne ?_)
  rw [Option.bind_eq_some_iff] at hx hy
  obtain ⟨a, ha, hx⟩ := hx
  obtain ⟨b, hb, hy⟩ := hy
  split at hx <;> [skip; cases hx]
  split at hy <;> [skip; cases hy]
  rename_i hcl hcm
  cases hx
  cases hy
  have hal : a.assignmentId = l.assignmentId := Rows.key_of_get _ ha
  have hbm : b.assignmentId = m.assignmentId := Rows.key_of_get _ hb
  have hlm : l.assignmentId = m.assignmentId := hal.symm.trans (he.trans hbm)
  have hlife : d.life? l.assignmentId = some (d.lifeOf a) := life?_of_assignment ha
  have hml := (mem_life_leases hlife).2 ⟨hl, rfl⟩
  have hmm := (mem_life_leases hlife).2 ⟨hm, hlm.symm⟩
  obtain ⟨_, hh⟩ := (hw _ _ hlife).held_of_active hmm hcm.1
  exact hh.only l hml hcl.1

end

/-- A loop of moves of different assignments is an advance. -/
theorem advances_of_keyed {ι : Type} {now : Time} {t t' : Tables} {l : List ι} {key : ι → OpaqueId}
    (hout : ∀ j, j ∉ l.map key → t'.life? j = t.life? j)
    (hin : ∀ a ∈ l, ∃ x y, t.life? (key a) = some x ∧ t'.life? (key a) = some y ∧ Moves now x y)
    {G : OpaqueId → Prop} (hg : ∀ a ∈ l, ∀ x, t.life? (key a) = some x → G x.row.groupId) : Advances now G t t' := by
  refine ⟨fun i hi => ?_, fun i x hx => ?_⟩
  · by_cases hm : i ∈ l.map key
    · obtain ⟨a, ha, rfl⟩ := List.mem_map.1 hm
      obtain ⟨x, y, hx, _⟩ := hin a ha
      rw [hi] at hx
      cases hx
    · rw [hout i hm]
      exact hi
  · by_cases hm : i ∈ l.map key
    · obtain ⟨a, ha, rfl⟩ := List.mem_map.1 hm
      obtain ⟨x', y, hx', hy, hmv⟩ := hin a ha
      rw [hx, Option.some.injEq] at hx'
      subst hx'
      exact ⟨y, hy, hmv, Or.inl (hg a ha x hx)⟩
    · exact ⟨x, by rw [hout i hm]; exact hx, .refl, Or.inr rfl⟩

/-- What the row of an overdue assignment says of its life. -/
def Overdue (now : Time) (a : AssignmentRow) (o : Option Life) : Prop :=
  ∃ x, o = some x ∧ x.Wf now ∧ x.row = a ∧ a.state.waiting = true

theorem terminalizeWithoutEnvelope_moves {a : AssignmentRow} {k : Outcome} (hk : k ≠ .result) {now : Time} {d d' : Db}
    {u : Unit} (hx : Overdue now a (d.life? a.assignmentId)) (h : Returns (terminalizeWithoutEnvelope a k now) d u d') :
    Moved now a.assignmentId d.toTables d'.toTables := by
  obtain ⟨x, hx, hw, rfl, hst⟩ := hx
  simp only [terminalizeWithoutEnvelope, returns_bind, returns_exec] at h
  obtain ⟨_, d₁, h₁, _, d₂, h₂, h₃⟩ := h
  have c₁ : Changes x.row.assignmentId (fun x => { x with row := markFailed x.row }) d.toTables d₁.toTables :=
    h₁ ▸ changes_setAssignment _ _ _ (fun _ => rfl)
  have c₂ := changes_insertOutcome ⟨x.row.assignmentId, k, none, none, now⟩ d₁.toTables
  rw [← h₂] at c₂
  have c₃ : Changes x.row.assignmentId id d₂.toTables d'.toTables := .id (life?_recomputeGroup h₃)
  exact ((c₁.trans c₂).trans c₃).moved hx (.single (.drop ⟨x.row.assignmentId, k, none, none, now⟩ hst hk))

theorem overdueAssignments_overdue {now : Time} {d : Db} (hw : ∀ i x, d.life? i = some x → x.Wf now) :
    ∀ a ∈ overdueAssignments d.toTables now, Overdue now a (d.life? a.assignmentId) := by
  intro a ha
  rw [overdueAssignments, Rows.mem_orderBy, List.mem_filter, Bool.and_eq_true] at ha
  have hx := life?_of_mem d.ok ha.1
  exact ⟨_, hx, hw _ _ hx, rfl, ha.2.1⟩

theorem overdueAssignments_nodup (d : Db) (now : Time) :
    ((overdueAssignments d.toTables now).map (·.assignmentId)).Nodup := by
  rw [overdueAssignments, ((Rows.orderBy_perm _ _).map _).nodup_iff]
  exact d.ok.assignments.key.sublist (List.filter_sublist.map _)

/-- **`_expire_leases` keeps the invariant.** -/
theorem steady_expireLeasesBody (env : Env) (now : Time) : Steady now (expireLeasesBody env now) := by
  intro d n d' hs h
  have hfix := writes_expireLeasesBody (S := reapTables) env now (List.Subset.refl _) d n d' h .fixedGroups (by decide)
  simp only [expireLeasesBody, returns_bind, returns_tables, returns_pure] at h
  obtain ⟨_, d₀, ⟨rfl, rfl⟩, _, d₁, h₁, _, d₁', ⟨rfl, rfl⟩, _, d₂, h₂, _, d₃, h₃, rfl, rfl⟩ := h
  -- every expired lease is closed, and its assignment waits again or is over
  obtain ⟨hout, hin⟩ := forEach_keyed (fun (d : Db) => d.life?) (fun x : ExpiredLease => x.assignment.assignmentId)
    (Expiring now) (fun _ o o' => ∃ x y, o = some x ∧ o' = some y ∧ Moves now x y)
    (fun _ _ _ _ hx hr => expireOne_moves hx hr) _ _ _ _ (expiredLeases_nodup hs.wf) (expiredLeases_expiring hs.wf) h₁
  have a₁ : Advances now (fun _ => True) d₀.toTables d₁'.toTables :=
    advances_of_keyed hout hin (fun _ _ _ _ => trivial)
  -- then what waits past its deadline is over
  obtain ⟨hout₂, hin₂⟩ := forEach_keyed (fun (d : Db) => d.life?) (fun a : AssignmentRow => a.assignmentId)
    (Overdue now) (fun _ o o' => ∃ x y, o = some x ∧ o' = some y ∧ Moves now x y)
    (fun _ _ _ _ hx hr => terminalizeWithoutEnvelope_moves (by simp) hx hr) _ _ _ _
    (overdueAssignments_nodup d₁' now) (overdueAssignments_overdue (a₁.wf hs.wf)) h₂
  have a₂ : Advances now (fun _ => True) d₁'.toTables d₂.toTables :=
    advances_of_keyed hout₂ hin₂ (fun _ _ _ _ => trivial)
  obtain ⟨hsync, hl⟩ := synced_recomputeGroups h₃
  have ha := (a₁.trans a₂).trans (.of_same hl)
  exact ⟨hs.advance ha hfix hsync, ha⟩

/-! ## Stale work -/

/-- What the row of a live assignment says of its life. -/
def Live (now : Time) (a : AssignmentRow) (o : Option Life) : Prop :=
  ∃ x, o = some x ∧ x.Wf now ∧ x.row = a ∧ (a.state.waiting = true ∨ a.state = .leased)

/-- **A stale assignment is settled**: failed if it waited, its lease marked if it is held. -/
theorem cancelStaleAssignment_moves {now : Time} {a : AssignmentRow} {d d' : Db} {u : Unit}
    (hx : Live now a (d.life? a.assignmentId)) (h : Returns (cancelStaleAssignment now a) d u d') :
    (∀ j, j ≠ a.assignmentId → d'.life? j = d.life? j) ∧
      ∃ x y, d.life? a.assignmentId = some x ∧ d'.life? a.assignmentId = some y ∧ Moves now x y ∧ y.Settled := by
  obtain ⟨x, hx, hw, rfl, hst⟩ := hx
  simp only [cancelStaleAssignment, returns_bind, returns_exec] at h
  obtain ⟨_, d₁, h₁, h⟩ := h
  have c₁ := changes_insertCancellationOrIgnore
    ⟨x.row.assignmentId, .policyStale, now, decide (x.row.state ≠ .leased)⟩ d.toTables
  rw [← h₁] at c₁
  by_cases hl : x.row.state = .leased
  · rw [if_neg (by simpa using hl)] at h
    obtain ⟨i, hi⟩ := hw.held hl
    rw [hi.current] at h
    simp only [returns_exec] at h
    have hm₁ := c₁.at hx
    have hlease : ∀ y, d₁.life? x.row.assignmentId = some y → ∃ l ∈ y.leases, l.leaseId = i := by
      intro y hy
      rw [hm₁, Option.some.injEq] at hy
      obtain ⟨l, hlm, hli, _⟩ := hi.lease
      refine ⟨l, ?_, hli⟩
      rw [← hy]
      split <;> exact hlm
    have c₂ := changes_insertLeaseCancellationOrIgnore ⟨i, x.row.assignmentId, .policyStale, now, none⟩ d₁.ok hlease
    rw [← h] at c₂
    have hc := c₁.trans c₂
    refine ⟨fun j hj => hc.other hj, x, _, hx, hc.at hx, ?_⟩
    simp only [Function.comp_apply]
    rcases hi.marked with ⟨hnil, hno⟩ | ⟨c, hcs, _, m, hm, hmi⟩
    · have hno' : ¬ ∃ m ∈ (x.cancel ⟨x.row.assignmentId, .policyStale, now, decide (x.row.state ≠ .leased)⟩).leaseCancellations,
          m.leaseId = i := by
        rintro ⟨m, hm, hmi⟩
        exact hno m hm hmi
      rw [if_pos hnil, if_neg hno']
      refine ⟨.single (.mark i _ _ hi.current hnil (by simpa using hl) rfl), ?_, fun _ => ?_⟩
      · show x.row.state.waiting = false
        rw [hl]
        rfl
      · exact List.append_ne_nil_of_right_ne_nil _ (List.cons_ne_nil _ _)
    · have hne : x.cancellations ≠ [] := by
        rw [hcs]
        exact List.cons_ne_nil _ _
      rw [if_neg hne, if_pos ⟨m, hm, hmi⟩]
      exact ⟨.refl, by rw [hl]; rfl, fun _ => hne⟩
  · have hwt : x.row.state.waiting = true := hst.resolve_right hl
    have hx' := hw.waiting hwt
    rw [if_pos (by simpa using hl)] at h
    simp only [returns_bind, returns_exec] at h
    obtain ⟨_, d₂, h₂, _, d₃, h₃, h₄⟩ := h
    have c₂ := c₁.trans (h₂ ▸ changes_setAssignment x.row.assignmentId markFailed d₁.toTables (fun _ => rfl))
    have c₃ := c₂.trans (h₃ ▸ changes_setCancellation x.row.assignmentId (fun c => { c with terminal := true })
      d₂.toTables (fun _ => rfl))
    have c₄ := changes_insertOutcomeOrIgnore ⟨x.row.assignmentId, .failure, none, none, now⟩ d₃.toTables
    rw [← h₄] at c₄
    have hc := c₃.trans c₄
    have hm : Move now x _ := .dropStale
      ⟨x.row.assignmentId, .policyStale, now, decide (x.row.state ≠ .leased)⟩
      ⟨x.row.assignmentId, .failure, none, none, now⟩ hwt (by simpa using hl) (by simp)
    refine ⟨fun j hj => hc.other hj, x, _, hx, ?_, .single hm, .of_over rfl⟩
    rw [hc.at hx]
    simp [hx'.cancellations, hx'.outcomes, Life.cancel, Life.fail, hl]

theorem liveAssignments_live {now : Time} {d : Db} (hw : ∀ i x, d.life? i = some x → x.Wf now) (g : OpaqueId) :
    ∀ a ∈ liveAssignments d.toTables g, Live now a (d.life? a.assignmentId) := by
  intro a ha
  rw [liveAssignments, Rows.mem_orderBy, List.mem_filter, Bool.and_eq_true, Bool.or_eq_true, decide_eq_true_eq,
    decide_eq_true_eq] at ha
  have hx := life?_of_mem d.ok ha.1
  exact ⟨_, hx, hw _ _ hx, rfl, ha.2.2⟩

theorem liveAssignments_nodup (d : Db) (g : OpaqueId) :
    ((liveAssignments d.toTables g).map (·.assignmentId)).Nodup := by
  rw [liveAssignments, ((Rows.orderBy_perm _ _).map _).nodup_iff]
  exact d.ok.assignments.key.sublist (List.filter_sublist.map _)

/-- **A stale group's assignments are settled, and it alone changes.** -/
theorem cancelStaleGroup_sound {now : Time} {g : GroupRow} {d d' : Db} {u : Unit} (hs : Sound now d.toTables)
    (h : Returns (cancelStaleGroup now g) d u d') :
    Sound now d'.toTables ∧ Advances now (fun k => k = g.groupId) d.toTables d'.toTables ∧
      ∀ i x, d'.life? i = some x → x.row.groupId = g.groupId → x.Settled := by
  have hfix := writes_cancelStaleGroup (S := reapTables) now g (List.Subset.refl _) d u d' h .fixedGroups (by decide)
  simp only [cancelStaleGroup, returns_bind, returns_tables] at h
  obtain ⟨_, d₀, ⟨rfl, rfl⟩, _, d₁, h₁, h₂⟩ := h
  obtain ⟨hout, hin⟩ := forEach_keyed (fun (d : Db) => d.life?) (fun a : AssignmentRow => a.assignmentId) (Live now)
    (fun _ o o' => ∃ x y, o = some x ∧ o' = some y ∧ Moves now x y ∧ y.Settled)
    (fun _ _ _ _ hx hr => cancelStaleAssignment_moves hx hr) _ _ _ _
    (liveAssignments_nodup d₀ g.groupId) (liveAssignments_live hs.wf g.groupId) h₁
  have hin' : ∀ a ∈ liveAssignments d₀.toTables g.groupId, ∃ x y, d₀.life? a.assignmentId = some x ∧
      d₁.life? a.assignmentId = some y ∧ Moves now x y := fun a ha => by
    obtain ⟨x, y, hx, hy, hm, _⟩ := hin a ha
    exact ⟨x, y, hx, hy, hm⟩
  have a₁ : Advances now (fun k => k = g.groupId) d₀.toTables d₁.toTables := by
    refine advances_of_keyed hout hin' (fun a ha x hx => ?_)
    obtain ⟨_, hx', _, hrow, _⟩ := liveAssignments_live hs.wf g.groupId a ha
    rw [hx, Option.some.injEq] at hx'
    rw [hx', hrow]
    rw [liveAssignments, Rows.mem_orderBy, List.mem_filter, Bool.and_eq_true, decide_eq_true_eq] at ha
    exact ha.2.1
  have hg : d₁.groups = d₀.groups := by
    have hw : Writes Db.rows [.assignments, .outcomes, .cancellations, .leaseCancellations]
        (Txn.forEach (liveAssignments d₀.toTables g.groupId) (cancelStaleAssignment now)) :=
      Writes.forEach _ (fun a => writes_cancelStaleAssignment now a (by decide) (by decide) (by decide) (by decide))
    exact hw _ _ _ h₁ .groups (by decide)
  have hl := life?_recomputeGroup h₂
  have hsync : Synced d'.toTables := by
    intro r hr hd
    exact (hs.synced.advance a₁ hg).recompute h₂ r hr (by simp)
  have ha : Advances now (fun k => k = g.groupId) d₀.toTables d'.toTables := a₁.trans (.of_same hl)
  refine ⟨hs.advance ha hfix hsync, ha, fun i x hx hxg => ?_⟩
  rw [hl] at hx
  by_cases hm : i ∈ (liveAssignments d₀.toTables g.groupId).map (·.assignmentId)
  · obtain ⟨a, ha, rfl⟩ := List.mem_map.1 hm
    obtain ⟨_, y, _, hy, _, hset⟩ := hin a ha
    rw [hx, Option.some.injEq] at hy
    exact hy ▸ hset
  · -- what is not live is over
    rw [hout i hm] at hx
    obtain ⟨hr, hi⟩ := life_row hx
    refine .of_over ?_
    by_contra hnot
    refine hm (List.mem_map.2 ⟨x.row, ?_, hi⟩)
    rw [liveAssignments, Rows.mem_orderBy, List.mem_filter]
    refine ⟨Rows.mem_of_get _ hr, ?_⟩
    rw [hxg]
    cases hst : x.row.state <;> simp_all [AssignmentState.waiting, AssignmentState.terminal]

/-- Once a group of the list is settled it stays so, and every group of the list gets its turn. -/
theorem forEach_cancelStaleGroup {now : Time} : ∀ (gs : List GroupRow) (d : Db) (u : Unit) (d' : Db),
    Sound now d.toTables → Returns (Txn.forEach gs (cancelStaleGroup now)) d u d' →
    Sound now d'.toTables ∧ Advances now (fun k => ∃ g ∈ gs, k = g.groupId) d.toTables d'.toTables ∧
      ∀ g ∈ gs, ∀ i x, d'.life? i = some x → x.row.groupId = g.groupId → x.Settled
  | [], d, u, d', hs, h => by
    rw [forEach_nil, returns_pure] at h
    rw [h.2]
    exact ⟨hs, .refl _, fun g hg => absurd hg List.not_mem_nil⟩
  | g :: gs, d, u, d', hs, h => by
    rw [forEach_cons, returns_bind] at h
    obtain ⟨_, d₁, h₁, h₂⟩ := h
    obtain ⟨hs₁, ha₁, hg₁⟩ := cancelStaleGroup_sound hs h₁
    obtain ⟨hs₂, ha₂, hg₂⟩ := forEach_cancelStaleGroup gs d₁ u d' hs₁ h₂
    have hfirst : Advances now (fun k => ∃ g' ∈ g :: gs, k = g'.groupId) d.toTables d₁.toTables :=
      ha₁.mono fun k hk => ⟨g, List.mem_cons_self, hk⟩
    have hrest : Advances now (fun k => ∃ g' ∈ g :: gs, k = g'.groupId) d₁.toTables d'.toTables :=
      ha₂.mono fun k ⟨g', hg', hk⟩ => ⟨g', List.mem_cons_of_mem _ hg', hk⟩
    refine ⟨hs₂, hfirst.trans hrest, fun k hk i y hy hyg => ?_⟩
    rcases List.mem_cons.1 hk with rfl | hk
    · obtain ⟨x, hx, hm, _⟩ := ha₂.before hy
      exact (hg₁ i x hx ((fixed_groupId hm.fixed).symm.trans hyg)).moves (hs₁.wf i x hx) hm
    · exact hg₂ k hk i y hy hyg

/-- A train group whose policy lags the active version by more than `lag`. -/
def StaleGroup (t : Tables) (lag : Int) (r : GroupRow) : Prop :=
  r.kind = .train ∧ ∃ active ∈ t.activePolicy?, ∃ p ∈ t.policy? r.policyId,
    lag < (active.policyVersion : Int) - p.policyVersion

/-- No assignment of a stale train group waits or may wait again. -/
def NoStaleWork (t : Tables) (lag : Int) : Prop :=
  ∀ r ∈ t.groups, StaleGroup t lag r → ∀ i x, t.life? i = some x → x.row.groupId = r.groupId → x.Settled

theorem StaleGroup.congr {t t' : Tables} {lag : Int} {r r' : GroupRow} (h : StaleGroup t lag r)
    (hr : r'.fixed = r.fixed) (hrun : t'.run = t.run) (hp : t'.policies = t.policies) : StaleGroup t' lag r' := by
  have hk : r'.kind = r.kind := congrArg (·.kind) hr
  have hi : r'.policyId = r.policyId := congrArg (·.policyId) hr
  unfold StaleGroup Tables.activePolicy? Tables.policy? at *
  rw [hk, hi, hrun, hp]
  exact h

theorem NoStaleWork.advance {now : Time} {t t' : Tables} {lag : Int} {G : OpaqueId → Prop} (h : NoStaleWork t lag)
    (hw : ∀ i x, t.life? i = some x → x.Wf now) (ha : Advances now G t t')
    (hg : t'.groups.map GroupRow.fixed = t.groups.map GroupRow.fixed) (hrun : t'.run = t.run)
    (hp : t'.policies = t.policies) : NoStaleWork t' lag := by
  intro r hr hst i y hy hyg
  obtain ⟨r₀, h₀, hf⟩ := Life.mem_of_map_eq hg hr
  obtain ⟨x, hx, hm, _⟩ := ha.before hy
  have hid : r₀.groupId = r.groupId := congrArg (·.groupId) hf
  exact (h r₀ h₀ (hst.congr hf hrun.symm hp.symm) i x hx
    ((fixed_groupId hm.fixed).symm.trans (hyg.trans hid.symm))).moves (hw i x hx) hm

theorem reap_frame {α : Type} {m : Body α} (h : Writes Db.rows reapTables m) {d d' : Db} {a : α}
    (hm : Returns m d a d') : d'.groups.map GroupRow.fixed = d.groups.map GroupRow.fixed ∧ d'.run = d.run ∧
      d'.policies = d.policies ∧ d'.scheduler = d.scheduler :=
  ⟨h d a d' hm .fixedGroups (by decide), h d a d' hm .run (by decide), h d a d' hm .policies (by decide),
    h d a d' hm .scheduler (by decide)⟩

/-- **`_cancel_stale_train_groups` keeps the invariant and leaves no stale work.** -/
theorem cancelStaleTrainGroups_sound {lag : Int} {now : Time} {d d' : Db} {u : Unit} (hs : Sound now d.toTables)
    (h : Returns (cancelStaleTrainGroups lag now) d u d') :
    (Sound now d'.toTables ∧ Advances now (fun _ => True) d.toTables d'.toTables) ∧ NoStaleWork d'.toTables lag := by
  obtain ⟨hfix, hrun, hpol, _⟩ :=
    reap_frame (writes_cancelStaleTrainGroups (S := reapTables) lag now (List.Subset.refl _)) h
  simp only [cancelStaleTrainGroups, returns_bind, returns_tables, returns_orRaise] at h
  obtain ⟨_, d₀, ⟨rfl, rfl⟩, active, d₁, ⟨hact, rfl⟩, _, d₂, ⟨rfl, rfl⟩, h⟩ := h
  obtain ⟨hs', ha, hset⟩ := forEach_cancelStaleGroup _ _ _ _ hs h
  refine ⟨⟨hs', ha.mono fun _ _ => trivial⟩, fun r hr hst i y hy hyg => ?_⟩
  obtain ⟨r₀, h₀, hf⟩ := Life.mem_of_map_eq hfix hr
  have hid : r₀.groupId = r.groupId := congrArg (·.groupId) hf
  refine hset r₀ ?_ i y hy (hyg.trans hid.symm)
  obtain ⟨hk, active', hact', p, hp, hlag⟩ := hst.congr hf hrun.symm hpol.symm
  rw [hact, Option.mem_some] at hact'
  subst hact'
  rw [staleGroups, Rows.mem_orderBy, List.mem_filter, hp]
  exact ⟨h₀, by simp [hk, hlag]⟩

/-- **`_reconcile_stale_work` keeps the invariant**, and once a lag is configured leaves no stale work. -/
theorem reconcileStaleWork_sound {now : Time} {d d' : Db} {u : Unit} (hs : Sound now d.toTables)
    (h : Returns (reconcileStaleWork now) d u d') :
    (Sound now d'.toTables ∧ Advances now (fun _ => True) d.toTables d'.toTables) ∧
      ∀ lag ∈ d'.scheduler.maxPolicyLag, NoStaleWork d'.toTables lag := by
  obtain ⟨_, _, _, hsch⟩ := reap_frame (writes_reconcileStaleWork (S := reapTables) now (List.Subset.refl _)) h
  simp only [reconcileStaleWork, returns_bind, returns_tables] at h
  obtain ⟨_, d₀, ⟨rfl, rfl⟩, h⟩ := h
  rw [hsch]
  cases hl : d₀.scheduler.maxPolicyLag with
  | none =>
    rw [hl, returns_pure] at h
    rw [h.2]
    exact ⟨⟨hs, .refl _⟩, fun lag hlag => absurd hlag (Option.not_mem_none _)⟩
  | some lag =>
    rw [hl] at h
    obtain ⟨hsound, hno⟩ := cancelStaleTrainGroups_sound hs h
    refine ⟨hsound, fun lag' hlag' => ?_⟩
    rw [Option.mem_some] at hlag'
    exact hlag' ▸ hno

end Aether
