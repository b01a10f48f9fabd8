import AetherRl.RepoAttempts
/-!
# RepoOutcomes — terminal outcomes and ready groups

An assignment that is over has its one outcome, and its result when it succeeded; both stay.  A group is ready when its
assignments are over, which they stay too: so `ready_groups` finds one outcome for each index of every group it visits.
-/
namespace Aether

open Txn (Returns mapM_exists mapM_map mapM_mem)
open Tables Repo

/-- The rows of an assignment in `assignment_outcomes`. -/
def Tables.outcomesOf (t : Tables) (i : OpaqueId) : List OutcomeRow :=
  t.outcomes.filter (fun o => decide (o.assignmentId = i))

/-- The assignments of a group. -/
def Tables.members (t : Tables) (g : OpaqueId) : List AssignmentRow :=
  t.assignments.filter (fun a => decide (a.groupId = g))

/-- The calls that move an accepted result on to be processed, or back. -/
def Call.processes : Call → Bool
  | .claimPendingResults _ | .markResultProcessed _ | .recordProcessedGroup _ | .recover _ => true
  | _ => false

section
variable {now : Time} {d : Db}

/-! ## Outcomes -/

theorem terminal_iff_outcome (hs : Sound now d.toTables) {a : AssignmentRow} (ha : a ∈ d.assignments) :
    a.state.terminal = true ↔ (d.outcomesOf a.assignmentId).length = 1 := by
  have hw := hs.wf _ _ (life?_of_mem d.ok ha)
  show _ ↔ (d.lifeOf a).outcomes.length = 1
  cases hst : a.state with
  | pending | retryWait =>
    have hx := hw.waiting (x := d.lifeOf a) (by show a.state.waiting = true; rw [hst]; rfl)
    simp [hx.outcomes, AssignmentState.terminal]
  | leased =>
    obtain ⟨i, hi⟩ := hw.held hst
    simp [hi.outcomes, AssignmentState.terminal]
  | succeeded =>
    obtain ⟨r, o, hx⟩ := hw.succeeded hst
    simp [hx.outcomes, AssignmentState.terminal]
  | failed =>
    obtain ⟨o, hx⟩ := hw.failed hst
    simp [hx.outcomes, AssignmentState.terminal]

/-- **An assignment succeeded exactly when its outcome is its accepted result.** -/
theorem succeeded_iff_result (hs : Sound now d.toTables) {a : AssignmentRow} (ha : a ∈ d.assignments) :
    a.state = .succeeded ↔ ∃ r ∈ d.results, r.assignmentId = a.assignmentId ∧
      ∃ o, d.outcomesOf a.assignmentId = [o] ∧ o.outcome = .result ∧ o.leaseId = some r.leaseId ∧
        o.envelopeDigest = some r.envelopeDigest := by
  have hx := life?_of_mem d.ok ha
  have hw := hs.wf _ _ hx
  constructor
  · intro hst
    obtain ⟨r, o, hy⟩ := hw.succeeded hst
    have hr : r ∈ (d.lifeOf a).results := hy.results ▸ List.mem_singleton_self r
    obtain ⟨hr, hri⟩ := (mem_life_results hx).1 hr
    exact ⟨r, hr, hri, o, hy.outcomes, hy.kind, hy.lease, hy.digest⟩
  · rintro ⟨r, hr, hri, _⟩
    have hr := (mem_life_results hx).2 ⟨hr, hri⟩
    by_contra hst
    have hnil : (d.lifeOf a).results = [] := by
      cases hs : a.state with
      | pending | retryWait =>
        exact (hw.waiting (x := d.lifeOf a) (by show a.state.waiting = true; rw [hs]; rfl)).results
      | leased => exact (hw.held hs).choose_spec.results
      | succeeded => exact absurd hs hst
      | failed => exact (hw.failed hs).choose_spec.results
    rw [hnil] at hr
    exact List.not_mem_nil hr

theorem Grows.outcomes {d' : Db} (h : Grows d.toTables d'.toTables) : d.outcomes ⊆ d'.outcomes := by
  intro o ho
  obtain ⟨a, ha, hid⟩ := d.ok.outcomes.assignment o ho
  have hx := life?_of_mem d.ok ha
  obtain ⟨y, hy, hle⟩ := h.lives _ _ hx
  exact ((mem_life_outcomes hy).1 (hle.outcomes.subset ((mem_life_outcomes hx).2 ⟨ho, hid.symm⟩))).1

/-- **A result stays as it was accepted**, whatever becomes of its processing. -/
theorem Grows.results {d' : Db} (h : Grows d.toTables d'.toTables) {r : ResultRow} (hr : r ∈ d.results) :
    ∃ r' ∈ d'.results, r'.fixed = r.fixed := by
  obtain ⟨a, ha, hid⟩ := d.ok.results.assignment r hr
  have hx := life?_of_mem d.ok ha
  obtain ⟨y, hy, hle⟩ := h.lives _ _ hx
  have hm : r ∈ (d.lifeOf a).results := (mem_life_results hx).2 ⟨hr, hid.symm⟩
  obtain ⟨r', hr', he⟩ := List.mem_map.1 (hle.results.subset (List.mem_map_of_mem hm))
  exact ⟨r', ((mem_life_results hy).1 hr').1, he⟩

/-- **A call that does not process results changes none.** -/
theorem commit_results {env : Env} {c : Call} {d' : Db} (h : Commit env now d d' c) (hc : c.processes = false) :
    d.results ⊆ d'.results := by
  by_cases hw : .results ∈ c.writes
  · cases c
    case acceptResult =>
      obtain ⟨_, _, _, _, h⟩ := h
      rcases returns_acceptResultBody h with ⟨rfl, _⟩ | ⟨_, _, a, d₁, _, _, h₁, h₂⟩
      · exact List.Subset.refl _
      · have hr := writes_recomputeGroup (S := [.groups]) a.groupId (by decide) _ _ _ h₂ .results (by decide)
        have hr : d'.results = d₁.results := hr
        rw [hr, h₁]
        exact List.subset_append_left _ _
    case claimPendingResults | markResultProcessed | recordProcessedGroup | recover => cases hc
    all_goals exact absurd hw (by simp only [Call.writes]; decide)
  · have hr : d'.results = d.results := commit_rows h .results hw
    exact hr ▸ List.Subset.refl _

/-! ## Groups -/

theorem members_terminal (g : OpaqueId) : d.AllOver g ↔ ∀ a ∈ d.members g, a.state.terminal = true := by
  simp only [members, List.mem_filter, decide_eq_true_eq]
  constructor
  · rintro h a ⟨ha, hg⟩
    exact h _ _ (life?_of_mem d.ok ha) hg
  · intro h i x hx hg
    exact h x.row ⟨Rows.mem_of_get _ (life_row hx).1, hg⟩

/-- **A group's assignments carry its indices**, each once. -/
theorem members_indices (hs : Sound now d.toTables) {g : GroupRow} (hg : g ∈ d.groups) :
    ((d.members g.groupId).map (·.groupIndex)).Nodup ∧
      ∀ k, k ∈ (d.members g.groupId).map (·.groupIndex) ↔ k < g.groupSize := by
  constructor
  · have hk := d.ok.assignments.index
    rw [List.Nodup, List.pairwise_map] at hk ⊢
    refine (hk.filter (fun a => decide (a.groupId = g.groupId))).imp_of_mem fun {a b} ha hb hne he => hne ?_
    simp only [members, List.mem_filter, decide_eq_true_eq] at ha hb
    rw [ha.2, hb.2, he]
  · intro k
    rw [hs.roster g hg k]
    simp only [members, List.mem_map, List.mem_filter, decide_eq_true_eq]
    constructor
    · rintro ⟨a, ⟨ha, hag⟩, hk⟩
      exact ⟨_, _, life?_of_mem d.ok ha, hag, hk⟩
    · rintro ⟨i, x, hx, hxg, hk⟩
      exact ⟨x.row, ⟨Rows.mem_of_get _ (life_row hx).1, hxg⟩, hk⟩

theorem members_length (hs : Sound now d.toTables) {g : GroupRow} (hg : g ∈ d.groups) :
    (d.members g.groupId).length = g.groupSize := by
  obtain ⟨hn, hm⟩ := members_indices hs hg
  rw [← List.length_map (·.groupIndex), ((List.perm_ext_iff_of_nodup hn List.nodup_range).2 fun k => ?_).length_eq,
    List.length_range]
  rw [hm k, List.mem_range]

theorem ready_iff_members (hs : Sound now d.toTables) {g : GroupRow} (hg : g ∈ d.groups) :
    g.state = .ready ↔ ∀ a ∈ d.members g.groupId, a.state.terminal = true := by
  rw [hs.synced g hg (fun hf => hf), members_terminal]

/-- **A group that is ready stays ready**: its assignments are all there already, and stay over. -/
theorem Grows.ready {later : Time} {d' : Db} (h : Grows d.toTables d'.toTables) (hs : Sound now d.toTables)
    (hs' : Sound later d'.toTables) {g : GroupRow} (hg : g ∈ d.groups) (hr : g.state = .ready) : g ∈ d'.groups := by
  obtain ⟨g', hg', he⟩ := List.mem_map.1 (h.groups.subset (List.mem_map_of_mem hg))
  have hid : g'.groupId = g.groupId := congrArg (·.groupId) he
  have hsize : g'.groupSize = g.groupSize := congrArg (·.groupSize) he
  have hover := (hs.synced g hg (fun hf => hf)).1 hr
  have hr' : g'.state = .ready := by
    rw [hs'.synced g' hg' (fun hf => hf), hid]
    intro i y hy hyg
    have hk : y.row.groupIndex < g.groupSize := hsize ▸ (hs'.roster g' hg' _).2 ⟨i, y, hy, hyg.trans hid.symm, rfl⟩
    obtain ⟨j, x, hx, hxg, hxk⟩ := (hs.roster g hg _).1 hk
    obtain ⟨z, hz, hle⟩ := h.lives j x hx
    -- the assignment with this index was there, and there is one in a group
    have hrow : y.row = z.row := by
      refine Rows.eq_of_key (fun a : AssignmentRow => (a.groupId, a.groupIndex)) d'.ok.assignments.index
        (Rows.mem_of_get _ (life_row hy).1) (Rows.mem_of_get _ (life_row hz).1) (Prod.ext ?_ ?_)
      · exact hyg.trans (hxg.symm.trans (congrArg (·.groupId) hle.row).symm)
      · exact hxk.symm.trans (congrArg (·.groupIndex) hle.row).symm
    have hxt := hover j x hx hxg
    rw [hrow, hle.ended hxt]
    exact hxt
  have hg : g' = g := by
    cases g
    cases g'
    simp only [GroupRow.fixed] at he hr hr'
    cases he
    rw [hr, hr']
  exact hg ▸ hg'

/-! ## `ready_groups` -/

/-- The groups' outcomes are read in group index order. -/
theorem members_ordered (hs : Sound now d.toTables) {g : GroupRow} (hg : g ∈ d.groups) :
    (Rows.orderBy (fun a => toLex (a.groupIndex, a.assignmentId)) (d.members g.groupId)).map (·.groupIndex) =
      List.range g.groupSize := by
  obtain ⟨hn, hm⟩ := members_indices hs hg
  have hp := (Rows.orderBy_perm (fun a : AssignmentRow => toLex (a.groupIndex, a.assignmentId))
    (d.members g.groupId)).map (·.groupIndex)
  have hsorted : ((Rows.orderBy (fun a => toLex (a.groupIndex, a.assignmentId)) (d.members g.groupId)).map
      (·.groupIndex)).Pairwise (· ≤ ·) := by
    rw [List.pairwise_map]
    refine (Rows.orderBy_pairwise _ _).imp fun {a b} hab => ?_
    exact Prod.Lex.monotone_fst _ _ hab
  have hrange : (List.range g.groupSize).Pairwise (· ≤ ·) := List.pairwise_lt_range.imp le_of_lt
  refine List.Perm.eq_of_pairwise (fun _ _ _ _ => le_antisymm) hsorted hrange ?_
  refine hp.trans ((List.perm_ext_iff_of_nodup hn List.nodup_range).2 fun k => ?_)
  rw [hm k, List.mem_range]

/-- **A ready group reads one outcome for each of its indices**, in order. -/
theorem groupOutcomes_ready (hs : Sound now d.toTables) {g : GroupRow} (hg : g ∈ d.groups) (hr : g.state = .ready) :
    (groupOutcomes d.toTables g.groupId).map (·.groupIndex) = List.range g.groupSize := by
  rw [← members_ordered hs hg, groupOutcomes, List.map_filterMap, ← List.filterMap_eq_map]
  refine List.filterMap_congr fun a ha => ?_
  rw [Rows.mem_orderBy] at ha
  have hat := (ready_iff_members hs hg).1 hr a ha
  rw [List.mem_filter] at ha
  have hone := (terminal_iff_outcome hs ha.1).1 hat
  obtain ⟨o, ho⟩ := List.length_eq_one_iff.1 hone
  have hmem : o ∈ d.outcomesOf a.assignmentId := ho ▸ List.mem_singleton_self o
  simp only [outcomesOf, List.mem_filter, decide_eq_true_eq] at hmem
  have hget : d.outcome? a.assignmentId = some o := (Rows.get_eq_some _ d.ok.outcomes.key).2 hmem
  rw [hget]
  rfl

/-- **`ready_groups` never finds a group of the wrong size.** -/
theorem readyGroup_ok (hs : Sound now d.toTables) {g : GroupRow} (hg : g ∈ unprocessedReadyGroups d.toTables) :
    ∃ rg, readyGroup d.toTables g = .ok rg ∧ g ∈ d.groups ∧ rg.groupId = g.groupId ∧
      rg.outcomes.map (·.groupIndex) = List.range g.groupSize := by
  rw [unprocessedReadyGroups, Rows.mem_orderBy, List.mem_filter, Bool.and_eq_true, decide_eq_true_eq] at hg
  obtain ⟨hg, hr, _⟩ := hg
  have hout := groupOutcomes_ready hs hg hr
  have hlen : (groupOutcomes d.toTables g.groupId).length = g.groupSize := by
    rw [← List.length_map (·.groupIndex), hout, List.length_range]
  refine ⟨⟨g.groupId, g.sourceId, g.kind, g.sequence, groupOutcomes d.toTables g.groupId⟩, ?_, hg, rfl, hout⟩
  rw [readyGroup, if_neg (not_not.2 hlen)]

end

theorem readyGroup_groupId {t : Tables} {g : GroupRow} {rg : ReadyGroup} (h : readyGroup t g = .ok rg) :
    rg.groupId = g.groupId := by
  unfold readyGroup at h
  split at h
  · cases h
  · rw [Except.ok.injEq] at h
    rw [← h]

theorem readyGroups_sound {now : Time} {w : World} (hs : Sound now w.db.toTables) {limit : Nat} (hl : 1 ≤ limit) :
    ∃ gs, readyGroups limit w = (.ok gs, w) ∧
      gs.map (·.groupId) = ((unprocessedReadyGroups w.db.toTables).take limit).map (·.groupId) ∧
      ∀ rg ∈ gs, ∃ g ∈ w.db.groups, g.groupId = rg.groupId ∧
        rg.outcomes.map (·.groupIndex) = List.range g.groupSize := by
  have hall : ∀ g ∈ (unprocessedReadyGroups w.db.toTables).take limit, ∃ rg, readyGroup w.db.toTables g = .ok rg ∧
      g ∈ w.db.groups ∧ rg.groupId = g.groupId ∧ rg.outcomes.map (·.groupIndex) = List.range g.groupSize :=
    fun g hg => readyGroup_ok hs (List.mem_of_mem_take hg)
  obtain ⟨gs, hgs⟩ := mapM_exists (fun g hg => (hall g hg).imp fun _ h => h.1)
  refine ⟨gs, ?_, ?_, fun rg hrg => ?_⟩
  · simp only [readyGroups, raiseUnless_bind, if_pos hl]
    show Aether.select _ w = _
    simp only [Aether.select, bind, StateT.bind, tables, Except.bind, hgs]
    rfl
  · exact mapM_map hgs fun g rg h => readyGroup_groupId h
  · obtain ⟨g, hg, hok⟩ := (mapM_mem hgs).1 rg hrg
    obtain ⟨rg', hok', hm, hid, hout⟩ := hall g hg
    rw [hok, Except.ok.injEq] at hok'
    exact ⟨g, hm, hok' ▸ hid.symm, hok' ▸ hout⟩

/-! ## Every run -/

/-- **Exactly one terminal outcome**: in every reached state an assignment is over exactly when it has its one outcome,
and succeeded exactly when that is its accepted result; outcomes and results stay in every continuation of the run, a
result unchanged while nothing processes it; a group is ready exactly when its assignments are over, stays ready, and
`ready_groups` reads one outcome for each of its indices. -/
theorem one_outcome_forever (env : Env) (steps more : List Step) :
    let d := (reached env steps).db
    let d' := (reached env (steps ++ more)).db
    (∀ a ∈ d.assignments,
      (a.state = .succeeded ∨ a.state = .failed ↔ (d.outcomesOf a.assignmentId).length = 1) ∧
      (a.state = .succeeded ↔ ∃ r ∈ d.results, r.assignmentId = a.assignmentId ∧
        ∃ o, d.outcomesOf a.assignmentId = [o] ∧ o.outcome = .result ∧ o.leaseId = some r.leaseId ∧
          o.envelopeDigest = some r.envelopeDigest)) ∧
    (∀ o ∈ d.outcomes, d'.outcome? o.assignmentId = some o) ∧
    (∀ r ∈ d.results, ∃ r', d'.result? r.assignmentId = some r' ∧ r'.fixed = r.fixed) ∧
    ((∀ s ∈ more, s.call.processes = false) → ∀ r ∈ d.results, d'.result? r.assignmentId = some r) ∧
    (∀ g ∈ d.groups, (d.members g.groupId).length = g.groupSize ∧
      (g.state = .ready ↔ ∀ a ∈ d.members g.groupId, a.state = .succeeded ∨ a.state = .failed) ∧
      (g.state = .ready → g ∈ d'.groups)) ∧
    (∀ limit, 1 ≤ limit → ∃ gs, readyGroups limit (reached env steps) = (.ok gs, reached env steps) ∧
      gs.map (·.groupId) = ((unprocessedReadyGroups d.toTables).take limit).map (·.groupId) ∧
      ∀ rg ∈ gs, ∃ g ∈ d.groups, g.groupId = rg.groupId ∧
        rg.outcomes.map (·.groupIndex) = List.range g.groupSize) := by
  intro d d'
  have hs := reached_sound env steps
  obtain ⟨hs', hg⟩ : (reached env (steps ++ more)).Sound env ∧ Grows d.toTables d'.toTables := by
    have h := runFrom_sound env more hs
    rwa [reached, ← runFrom_append] at h
  have hterminal : ∀ s : AssignmentState, s = .succeeded ∨ s = .failed ↔ s.terminal = true := fun s => by
    cases s <;> simp [AssignmentState.terminal]
  refine ⟨fun a ha => ⟨?_, succeeded_iff_result hs ha⟩, fun o ho => ?_, fun r hr => ?_, fun hmore r hr => ?_,
    fun g hgm => ⟨members_length hs hgm, ?_, hg.ready hs hs' hgm⟩, fun limit hl => readyGroups_sound hs hl⟩
  · rw [hterminal]
    exact terminal_iff_outcome hs ha
  · exact Rows.get_of_mem _ d'.ok.outcomes.key (hg.outcomes ho)
  · obtain ⟨r', hr', he⟩ := hg.results hr
    have hid : r'.assignmentId = r.assignmentId := congrArg (·.assignmentId) he
    exact ⟨r', (Rows.get_eq_some _ d'.ok.results.key).2 ⟨hr', hid⟩, he⟩
  · have hsub : d.results ⊆ d'.results := by
      have h : True ∧ d.results ⊆ (runFrom env (reached env steps) more).db.results :=
        runFrom_holds (I := fun _ _ => True) (R := fun d d' => d.results ⊆ d'.results) (fun _ _ _ _ _ => trivial)
          (fun _ => List.Subset.refl _) (fun _ _ _ => List.Subset.trans) more (reached env steps)
          (fun s hs _ _ _ _ hc => ⟨trivial, commit_results hc (hmore s hs)⟩) trivial
      rw [reached, ← runFrom_append] at h
      exact h.2
    exact Rows.get_of_mem _ d'.ok.results.key (hsub hr)
  · simp only [hterminal]
    exact ready_iff_members hs hgm

end Aether
