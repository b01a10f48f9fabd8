import AetherRl.Life
/-!
# RepoLife — the lives the tables hold, statement by statement

`Tables.life? i` collects what the tables hold of the assignment `i`.  `Changes i f t t'` says that between `t` and `t'`
only the life of `i` changed, by `f`: it composes, and each statement of the repository is one such change.
-/
namespace Aether

open Tables

def Tables.lifeOf (t : Tables) (a : AssignmentRow) : Life where
  row := a
  leases := t.leases.filter (fun l => decide (l.assignmentId = a.assignmentId))
  outcomes := t.outcomes.filter (fun o => decide (o.assignmentId = a.assignmentId))
  results := t.results.filter (fun r => decide (r.assignmentId = a.assignmentId))
  cancellations := t.cancellations.filter (fun c => decide (c.assignmentId = a.assignmentId))
  leaseCancellations := t.leaseCancellations.filter (fun c => decide (c.assignmentId = a.assignmentId))

def Tables.life? (t : Tables) (i : OpaqueId) : Option Life := (t.assignment? i).map t.lifeOf

theorem life?_eq_some {t : Tables} {i : OpaqueId} {x : Life} :
    t.life? i = some x ↔ ∃ a, t.assignment? i = some a ∧ x = t.lifeOf a := by
  rw [Tables.life?, Option.map_eq_some_iff]
  exact ⟨fun ⟨a, h, hx⟩ => ⟨a, h, hx.symm⟩, fun ⟨a, h, hx⟩ => ⟨a, h, hx.symm⟩⟩

theorem life_row {t : Tables} {i : OpaqueId} {x : Life} (h : t.life? i = some x) :
    t.assignment? i = some x.row ∧ x.row.assignmentId = i := by
  obtain ⟨a, ha, rfl⟩ := life?_eq_some.1 h
  exact ⟨ha, Rows.key_of_get _ ha⟩

theorem life?_of_assignment {t : Tables} {i : OpaqueId} {a : AssignmentRow} (h : t.assignment? i = some a) :
    t.life? i = some (t.lifeOf a) := by
  rw [Tables.life?, h]
  rfl

/-- **The life of an assignment is the life of its row**, under the table's primary key. -/
theorem life?_of_mem {t : Tables} (hk : SchemaOk t) {a : AssignmentRow} (h : a ∈ t.assignments) :
    t.life? a.assignmentId = some (t.lifeOf a) :=
  life?_of_assignment (Rows.get_of_mem _ hk.assignments.key h)

section
variable {t : Tables} {i : OpaqueId} {x : Life} (h : t.life? i = some x)
include h

theorem mem_life_leases {l : LeaseRow} : l ∈ x.leases ↔ l ∈ t.leases ∧ l.assignmentId = i := by
  obtain ⟨a, ha, rfl⟩ := life?_eq_some.1 h
  rw [← Rows.key_of_get _ ha]
  simp [Tables.lifeOf]

theorem mem_life_outcomes {o : OutcomeRow} : o ∈ x.outcomes ↔ o ∈ t.outcomes ∧ o.assignmentId = i := by
  obtain ⟨a, ha, rfl⟩ := life?_eq_some.1 h
  rw [← Rows.key_of_get _ ha]
  simp [Tables.lifeOf]

theorem mem_life_results {r : ResultRow} : r ∈ x.results ↔ r ∈ t.results ∧ r.assignmentId = i := by
  obtain ⟨a, ha, rfl⟩ := life?_eq_some.1 h
  rw [← Rows.key_of_get _ ha]
  simp [Tables.lifeOf]

theorem mem_life_cancellations {c : CancellationRow} : c ∈ x.cancellations ↔ c ∈ t.cancellations ∧ c.assignmentId = i := by
  obtain ⟨a, ha, rfl⟩ := life?_eq_some.1 h
  rw [← Rows.key_of_get _ ha]
  simp [Tables.lifeOf]

theorem mem_life_marks {c : LeaseCancellationRow} :
    c ∈ x.leaseCancellations ↔ c ∈ t.leaseCancellations ∧ c.assignmentId = i := by
  obtain ⟨a, ha, rfl⟩ := life?_eq_some.1 h
  rw [← Rows.key_of_get _ ha]
  simp [Tables.lifeOf]

end

/-! ## One life changes -/

/-- **Only the life of `i` changed**, by `f`. -/
def Changes (i : OpaqueId) (f : Life → Life) (t t' : Tables) : Prop :=
  ∀ j, t'.life? j = if j = i then (t.life? j).map f else t.life? j

theorem Changes.trans {i : OpaqueId} {f g : Life → Life} {t t' t'' : Tables} (h₁ : Changes i f t t')
    (h₂ : Changes i g t' t'') : Changes i (g ∘ f) t t'' := by
  intro j
  rw [h₂ j, h₁ j]
  by_cases hj : j = i
  · simp only [hj, if_true, Option.map_map]
  · simp only [hj, if_false]

theorem Changes.id {i : OpaqueId} {t t' : Tables} (h : t'.life? = t.life?) : Changes i id t t' := by
  intro j
  rw [h]
  simp

theorem Changes.at {i : OpaqueId} {f : Life → Life} {t t' : Tables} (h : Changes i f t t') {x : Life}
    (hx : t.life? i = some x) : t'.life? i = some (f x) := by
  rw [h i, if_pos rfl, hx]
  rfl

theorem Changes.other {i j : OpaqueId} {f : Life → Life} {t t' : Tables} (h : Changes i f t t') (hj : j ≠ i) :
    t'.life? j = t.life? j := by
  rw [h j, if_neg hj]

theorem Changes.congr {i : OpaqueId} {f g : Life → Life} {t t' : Tables} (h : Changes i f t t')
    (hg : ∀ x, t.life? i = some x → f x = g x) : Changes i g t t' := by
  intro j
  rw [h j]
  by_cases hj : j = i
  · rw [if_pos hj, if_pos hj, hj]
    exact Option.map_congr hg
  · rw [if_neg hj, if_neg hj]

/-- The tables a life is read from. -/
def lifeTables : List Table := [.assignments, .leases, .outcomes, .results, .cancellations, .leaseCancellations]

theorem life?_congr {t t' : Tables} (h : ∀ k ∈ lifeTables, t'.rows k = t.rows k) : t'.life? = t.life? := by
  have ha : t'.assignments = t.assignments := h .assignments (by decide)
  have hl : t'.leases = t.leases := h .leases (by decide)
  have ho : t'.outcomes = t.outcomes := h .outcomes (by decide)
  have hr : t'.results = t.results := h .results (by decide)
  have hc : t'.cancellations = t.cancellations := h .cancellations (by decide)
  have hm : t'.leaseCancellations = t.leaseCancellations := h .leaseCancellations (by decide)
  have hof : t'.lifeOf = t.lifeOf := by
    funext a
    rw [Tables.lifeOf, hl, ho, hr, hc, hm]
    rfl
  funext i
  rw [Tables.life?, Tables.assignment?, ha, hof]
  rfl

/-- A statement that leaves the assignment rows alone and changes what the lives hold of one assignment. -/
theorem Changes.of_lifeOf {i : OpaqueId} {f : Life → Life} {t t' : Tables} (ha : t'.assignments = t.assignments)
    (h : ∀ a, t'.lifeOf a = if a.assignmentId = i then f (t.lifeOf a) else t.lifeOf a) : Changes i f t t' := by
  intro j
  have hj : t'.assignment? j = t.assignment? j := by rw [Tables.assignment?, ha]; rfl
  rw [Tables.life?, hj, Tables.life?]
  cases hg : t.assignment? j with
  | none => simp
  | some a =>
    have hk : a.assignmentId = j := Rows.key_of_get _ hg
    simp only [Option.map_some, h a, hk]
    split <;> rfl

theorem changes_setAssignment (i : OpaqueId) (f : AssignmentRow → AssignmentRow) (t : Tables)
    (hf : ∀ a, (f a).assignmentId = a.assignmentId) :
    Changes i (fun x => { x with row := f x.row }) t (setAssignment i f t) := by
  intro j
  have hj : (setAssignment i f t).assignment? j = if j = i then (t.assignment? j).map f else t.assignment? j :=
    Rows.get_set _ (fun r _ _ => hf r)
  rw [Tables.life?, hj, Tables.life?]
  by_cases hji : j = i
  · rw [if_pos hji, if_pos hji, Option.map_map, Option.map_map]
    congr 1
    funext a
    simp only [Function.comp_apply, Tables.lifeOf, hf]
    rfl
  · rw [if_neg hji, if_neg hji]
    rfl

section
variable {ρ : Type} (key owner : ρ → OpaqueId) {k i j : OpaqueId} {f : ρ → ρ} {l : List ρ}

/-- The rows of one owner under an update of a row that is another's. -/
theorem filter_set_other (hi : ∀ r ∈ l, key r = k → owner r = i) (hf : ∀ r, owner (f r) = owner r) (hj : j ≠ i) :
    (Rows.set key k f l).filter (fun r => decide (owner r = j)) = l.filter (fun r => decide (owner r = j)) := by
  rw [Rows.filter_set _ _ k f l (fun r _ _ => by rw [hf])]
  refine Rows.set_of_not_mem _ (fun r hr hk => hj ?_)
  simp only [List.mem_filter, decide_eq_true_eq] at hr
  exact hr.2.symm.trans (hi r hr.1 hk)

end

/-- **An update of a lease of `i`.** -/
theorem changes_setLease {i k : OpaqueId} {f : LeaseRow → LeaseRow} {t : Tables}
    (hi : ∀ l ∈ t.leases, l.leaseId = k → l.assignmentId = i) (hf : ∀ l, (f l).assignmentId = l.assignmentId) :
    Changes i (Life.setLease k f) t (setLease k f t) := by
  refine Changes.of_lifeOf rfl (fun a => ?_)
  by_cases ha : a.assignmentId = i
  · rw [if_pos ha]
    simp only [Tables.lifeOf, setLease,
      Rows.filter_set _ (fun l : LeaseRow => decide (l.assignmentId = a.assignmentId)) k f t.leases
        (fun l _ _ => by rw [hf])]
    rfl
  · have h := filter_set_other (fun l : LeaseRow => l.leaseId) (fun l => l.assignmentId) hi hf ha
    rw [if_neg ha]
    simp only [Tables.lifeOf, setLease, h]

theorem filter_append_one {ρ : Type} (p : ρ → Prop) [DecidablePred p] (l : List ρ) (r : ρ) :
    (l ++ [r]).filter (fun x => decide (p x)) = l.filter (fun x => decide (p x)) ++ if p r then [r] else [] := by
  rw [List.filter_append]
  by_cases hp : p r <;> simp [hp]

theorem changes_insertLease (l : LeaseRow) (t : Tables) :
    Changes l.assignmentId (fun x => { x with leases := x.leases ++ [l] }) t (insertLease l t) := by
  refine Changes.of_lifeOf rfl (fun a => ?_)
  simp only [Tables.lifeOf, insertLease, filter_append_one (fun m : LeaseRow => m.assignmentId = a.assignmentId)]
  by_cases ha : a.assignmentId = l.assignmentId
  · simp [ha]
  · simp [ha, Ne.symm ha]

theorem changes_insertOutcome (o : OutcomeRow) (t : Tables) :
    Changes o.assignmentId (fun x => { x with outcomes := x.outcomes ++ [o] }) t (insertOutcome o t) := by
  refine Changes.of_lifeOf rfl (fun a => ?_)
  simp only [Tables.lifeOf, insertOutcome, filter_append_one (fun m : OutcomeRow => m.assignmentId = a.assignmentId)]
  by_cases ha : a.assignmentId = o.assignmentId
  · simp [ha]
  · simp [ha, Ne.symm ha]

theorem changes_insertResult (r : ResultRow) (t : Tables) :
    Changes r.assignmentId (fun x => { x with results := x.results ++ [r] }) t (insertResult r t) := by
  refine Changes.of_lifeOf rfl (fun a => ?_)
  simp only [Tables.lifeOf, insertResult, filter_append_one (fun m : ResultRow => m.assignmentId = a.assignmentId)]
  by_cases ha : a.assignmentId = r.assignmentId
  · simp [ha]
  · simp [ha, Ne.symm ha]

theorem changes_setCancellation (i : OpaqueId) (f : CancellationRow → CancellationRow) (t : Tables)
    (hf : ∀ c, (f c).assignmentId = c.assignmentId) :
    Changes i (fun x => { x with cancellations := x.cancellations.map f }) t (setCancellation i f t) := by
  refine Changes.of_lifeOf rfl (fun a => ?_)
  by_cases ha : a.assignmentId = i
  · have hset : (Rows.set (·.assignmentId) i f t.cancellations).filter (fun c => decide (c.assignmentId = i)) =
        (t.cancellations.filter (fun c => decide (c.assignmentId = i))).map f := by
      rw [Rows.filter_set _ _ i f t.cancellations (fun c _ _ => by rw [hf])]
      refine List.map_congr_left (fun c hc => ?_)
      simp only [List.mem_filter, decide_eq_true_eq] at hc
      rw [if_pos hc.2]
    rw [if_pos ha]
    simp only [Tables.lifeOf, setCancellation, ha, hset]
  · have h := filter_set_other (fun c : CancellationRow => c.assignmentId) (fun c => c.assignmentId)
      (l := t.cancellations) (fun _ _ h => h) hf ha
    rw [if_neg ha]
    simp only [Tables.lifeOf, setCancellation, h]

/-- **An update of a lease cancellation of `i`.** -/
theorem changes_setLeaseCancellation {i k : OpaqueId} {f : LeaseCancellationRow → LeaseCancellationRow} {t : Tables}
    (hi : ∀ c ∈ t.leaseCancellations, c.leaseId = k → c.assignmentId = i)
    (hf : ∀ c, (f c).assignmentId = c.assignmentId) :
    Changes i (fun x => { x with leaseCancellations := Rows.set (·.leaseId) k f x.leaseCancellations }) t
      (setLeaseCancellation k f t) := by
  refine Changes.of_lifeOf rfl (fun a => ?_)
  by_cases ha : a.assignmentId = i
  · rw [if_pos ha]
    simp only [Tables.lifeOf, setLeaseCancellation,
      Rows.filter_set _ (fun c : LeaseCancellationRow => decide (c.assignmentId = a.assignmentId)) k f
        t.leaseCancellations (fun c _ _ => by rw [hf])]
  · have h := filter_set_other (fun c : LeaseCancellationRow => c.leaseId) (fun c => c.assignmentId) hi hf ha
    rw [if_neg ha]
    simp only [Tables.lifeOf, setLeaseCancellation, h]

/-! ### Inserts that ignore a taken key -/

theorem changes_insertOutcomeOrIgnore (o : OutcomeRow) (t : Tables) :
    Changes o.assignmentId (fun x => if x.outcomes = [] then { x with outcomes := x.outcomes ++ [o] } else x) t
      (insertOutcomeOrIgnore o t) := by
  have hnil : ∀ x, t.life? o.assignmentId = some x → ((t.outcome? o.assignmentId).isSome = true ↔ x.outcomes ≠ []) := by
    intro x hx
    rw [Tables.outcome?, Option.isSome_iff_ne_none, ne_eq, Rows.get_eq_none, ne_eq, List.eq_nil_iff_forall_not_mem]
    simp [mem_life_outcomes hx]
  by_cases ht : (t.outcome? o.assignmentId).isSome = true
  · refine (Changes.id (i := o.assignmentId) ?_).congr (fun x hx => ?_)
    · simp only [insertOutcomeOrIgnore, if_pos ht]
    · rw [if_neg ((hnil x hx).1 ht), id_eq]
  · have hi : insertOutcomeOrIgnore o t = insertOutcome o t := by
      simp only [insertOutcomeOrIgnore, if_neg ht, insertOutcome]
    rw [hi]
    refine (changes_insertOutcome o t).congr (fun x hx => ?_)
    rw [if_pos (not_not.1 (fun h => ht ((hnil x hx).2 h)))]

theorem changes_insertCancellation (c : CancellationRow) (t : Tables) :
    Changes c.assignmentId (Life.cancel c) t { t with cancellations := t.cancellations ++ [c] } := by
  refine Changes.of_lifeOf rfl (fun a => ?_)
  simp only [Tables.lifeOf, filter_append_one (fun m : CancellationRow => m.assignmentId = a.assignmentId)]
  by_cases ha : a.assignmentId = c.assignmentId
  · simp [ha, Life.cancel]
  · simp [ha, Ne.symm ha]

theorem changes_insertCancellationOrIgnore (c : CancellationRow) (t : Tables) :
    Changes c.assignmentId (fun x => if x.cancellations = [] then x.cancel c else x) t
      (insertCancellationOrIgnore c t) := by
  have hnil : ∀ x, t.life? c.assignmentId = some x →
      ((t.cancellation? c.assignmentId).isSome = true ↔ x.cancellations ≠ []) := by
    intro x hx
    rw [Tables.cancellation?, Option.isSome_iff_ne_none, ne_eq, Rows.get_eq_none, ne_eq, List.eq_nil_iff_forall_not_mem]
    simp [mem_life_cancellations hx]
  by_cases ht : (t.cancellation? c.assignmentId).isSome = true
  · refine (Changes.id (i := c.assignmentId) ?_).congr (fun x hx => ?_)
    · simp only [insertCancellationOrIgnore, if_pos ht]
    · rw [if_neg ((hnil x hx).1 ht), id_eq]
  · have hi : insertCancellationOrIgnore c t = { t with cancellations := t.cancellations ++ [c] } := by
      simp only [insertCancellationOrIgnore, if_neg ht]
    rw [hi]
    refine (changes_insertCancellation c t).congr (fun x hx => ?_)
    rw [if_pos (not_not.1 (fun h => ht ((hnil x hx).2 h)))]

theorem changes_insertLeaseCancellation (c : LeaseCancellationRow) (t : Tables) :
    Changes c.assignmentId (Life.markLease c) t { t with leaseCancellations := t.leaseCancellations ++ [c] } := by
  refine Changes.of_lifeOf rfl (fun a => ?_)
  simp only [Tables.lifeOf, filter_append_one (fun m : LeaseCancellationRow => m.assignmentId = a.assignmentId)]
  by_cases ha : a.assignmentId = c.assignmentId
  · simp [ha, Life.markLease]
  · simp [ha, Ne.symm ha]

/-- **A lease has a cancellation when its assignment's life holds one for it**: the lease and its cancellation name the
same assignment. -/
theorem leaseCancellation_isSome {t : Tables} (hk : SchemaOk t) {i : OpaqueId} {x : Life} (hx : t.life? i = some x)
    {l : LeaseRow} (hl : l ∈ x.leases) :
    (t.leaseCancellation? l.leaseId).isSome = true ↔ ∃ c ∈ x.leaseCancellations, c.leaseId = l.leaseId := by
  obtain ⟨hlt, hli⟩ := (mem_life_leases hx).1 hl
  rw [Tables.leaseCancellation?, Option.isSome_iff_exists]
  constructor
  · rintro ⟨c, hc⟩
    have hcm := Rows.mem_of_get _ hc
    have hck := Rows.key_of_get _ hc
    obtain ⟨m, hm, ha, hi⟩ := hk.cancellations.lease c hcm
    have hml : m = l := Rows.eq_of_key _ hk.leases.key hm hlt (hi.trans hck)
    exact ⟨c, (mem_life_marks hx).2 ⟨hcm, by rw [← ha, hml, hli]⟩, hck⟩
  · rintro ⟨c, hc, hi⟩
    exact ⟨c, (Rows.get_eq_some _ hk.cancellations.leaseKey).2 ⟨((mem_life_marks hx).1 hc).1, hi⟩⟩

/-- A lease cancellation that may already be there, of a lease of its own assignment. -/
theorem changes_insertLeaseCancellationOrIgnore (c : LeaseCancellationRow) {t : Tables} (hk : SchemaOk t)
    (hl : ∀ x, t.life? c.assignmentId = some x → ∃ l ∈ x.leases, l.leaseId = c.leaseId) :
    Changes c.assignmentId
      (fun x => if ∃ m ∈ x.leaseCancellations, m.leaseId = c.leaseId then x else x.markLease c) t
      (insertLeaseCancellationOrIgnore c t) := by
  have hiff : ∀ x, t.life? c.assignmentId = some x → ((t.leaseCancellation? c.leaseId).isSome = true ↔
      ∃ m ∈ x.leaseCancellations, m.leaseId = c.leaseId) := by
    intro x hx
    obtain ⟨l, hlx, hli⟩ := hl x hx
    rw [← hli]
    exact leaseCancellation_isSome hk hx hlx
  by_cases ht : (t.leaseCancellation? c.leaseId).isSome = true
  · refine (Changes.id (i := c.assignmentId) ?_).congr (fun x hx => ?_)
    · simp only [insertLeaseCancellationOrIgnore, if_pos ht]
    · rw [if_pos ((hiff x hx).1 ht), id_eq]
  · have hi : insertLeaseCancellationOrIgnore c t = { t with leaseCancellations := t.leaseCancellations ++ [c] } := by
      simp only [insertLeaseCancellationOrIgnore, if_neg ht]
    rw [hi]
    refine (changes_insertLeaseCancellation c t).congr (fun x hx => ?_)
    rw [if_neg (fun h => ht ((hiff x hx).2 h))]

/-- Results of every assignment, updated in place. -/
theorem life?_setResults {f : ResultRow → ResultRow} (hf : ∀ r, (f r).assignmentId = r.assignmentId) (t : Tables)
    (i : OpaqueId) : (setResults f t).life? i = (t.life? i).map (Life.process f) := by
  rw [Tables.life?, Tables.life?, Option.map_map]
  show (t.assignment? i).map _ = _
  congr 1
  funext a
  have hfil : (t.results.map f).filter (fun r => decide (r.assignmentId = a.assignmentId)) =
      (t.results.filter (fun r => decide (r.assignmentId = a.assignmentId))).map f := by
    rw [List.filter_map]
    congr 1
    refine List.filter_congr (fun r _ => ?_)
    simp only [Function.comp_apply, hf]
  simp only [Tables.lifeOf, setResults, Function.comp_apply, Life.process, hfil]

end Aether
