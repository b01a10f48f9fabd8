import AetherRl.RepoResultSound
/-!
# RepoGroupSound — a new group is sound

Both ways of creating a group append one group row and its assignment rows, each newborn: pending, never leased, with
an index of its own.  No other table can name an assignment before its row is there, so a newborn life holds nothing
else.
-/
namespace Aether

open Txn (Returns Writes returns_bind returns_pure returns_map returns_orThrow returns_orRaise returns_raiseIf
  returns_throw forEach_cons forEach_nil mapM_mem)
open Tables Repo
open Life (Moves Move)

variable {now : Time}

/-- The row an assignment is created with. -/
structure Newborn (a : AssignmentRow) : Prop where
  state : a.state = .pending
  attempts : a.attemptCount = 0
  current : a.currentLeaseId = none
  available : a.availableAt = a.assignment.createdAt
  deadline : a.deadlineAt = a.assignment.deadlineAt

theorem filter_absent {ρ : Type} {t : Tables} {i : OpaqueId} (hi : i ∉ t.assignments.map (·.assignmentId))
    {owner : ρ → OpaqueId} {l : List ρ} (ho : ∀ r ∈ l, ∃ a ∈ t.assignments, a.assignmentId = owner r) :
    l.filter (fun r => decide (owner r = i)) = [] := by
  rw [List.filter_eq_nil_iff]
  intro r hr he
  obtain ⟨a, ha, hid⟩ := ho r hr
  rw [decide_eq_true_eq] at he
  exact hi (hid.trans he ▸ List.mem_map_of_mem ha)

/-- **No row of another table names an assignment that is not there.** -/
theorem lifeOf_absent {t : Tables} (hk : SchemaOk t) {a : AssignmentRow}
    (ha : a.assignmentId ∉ t.assignments.map (·.assignmentId)) : t.lifeOf a = ⟨a, [], [], [], [], []⟩ := by
  rw [Tables.lifeOf, filter_absent ha hk.leases.assignment, filter_absent ha hk.outcomes.assignment,
    filter_absent ha hk.results.assignment, filter_absent ha hk.cancellations.assignment, filter_absent ha]
  intro c hc
  obtain ⟨l, hl, hli, _⟩ := hk.cancellations.lease c hc
  exact hli ▸ hk.leases.assignment l hl

theorem Newborn.wf {a : AssignmentRow} (h : Newborn a) (hm : 0 < a.maxAttempts) :
    Life.Wf now ⟨a, [], [], [], [], []⟩ := by
  refine ⟨⟨fun l hl => absurd hl List.not_mem_nil, fun l hl => absurd hl List.not_mem_nil, h.available.ge, h.deadline⟩,
    ⟨List.nodup_nil, ?_, ?_⟩, ?_⟩
  · rw [h.attempts]
    rfl
  · rw [h.attempts]
    exact Nat.zero_le _
  · show Life.Phase _
    unfold Life.Phase
    rw [h.state]
    refine ⟨⟨h.current, fun l hl => absurd hl List.not_mem_nil⟩, ?_, rfl, rfl, rfl⟩
    rw [h.attempts]
    exact hm

/-- What a creation adds: one group, and a newborn row for each of its indices. -/
structure Created (t t' : Tables) (g : GroupRow) (rows : List AssignmentRow) : Prop where
  groups : t'.groups = t.groups ++ [g]
  assignments : t'.assignments = t.assignments ++ rows
  others : ∀ k ∈ lifeTables, k ≠ .assignments → t'.rows k = t.rows k
  collecting : g.state = .collecting
  newborn : ∀ a ∈ rows, Newborn a ∧ a.groupId = g.groupId
  indices : ∀ k, k < g.groupSize ↔ ∃ a ∈ rows, a.groupIndex = k

section
variable {d d' : Db} {g : GroupRow} {rows : List AssignmentRow} (h : Created d.toTables d'.toTables g rows)
include h

theorem Created.lifeOf : d'.lifeOf = d.lifeOf := by
  have hl : d'.leases = d.leases := h.others .leases (by decide) (by decide)
  have ho : d'.outcomes = d.outcomes := h.others .outcomes (by decide) (by decide)
  have hr : d'.results = d.results := h.others .results (by decide) (by decide)
  have hc : d'.cancellations = d.cancellations := h.others .cancellations (by decide) (by decide)
  have hm : d'.leaseCancellations = d.leaseCancellations := h.others .leaseCancellations (by decide) (by decide)
  funext a
  rw [Tables.lifeOf, hl, ho, hr, hc, hm]
  rfl

/-- **The lives there were, unchanged.** -/
theorem Created.old {i : OpaqueId} {x : Life} (hx : d.life? i = some x) : d'.life? i = some x := by
  obtain ⟨a, ha, rfl⟩ := life?_eq_some.1 hx
  rw [life?_eq_some, h.lifeOf]
  refine ⟨a, ?_, rfl⟩
  rw [Tables.assignment?, h.assignments, Rows.get, List.find?_append]
  exact Option.or_eq_some_iff.2 (Or.inl ha)

theorem Created.fresh {a : AssignmentRow} (ha : a ∈ rows) : a.assignmentId ∉ d.assignments.map (·.assignmentId) := by
  have hk := d'.ok.assignments.key
  rw [h.assignments, List.map_append, List.nodup_append] at hk
  exact fun hm => hk.2.2 _ hm _ (List.mem_map_of_mem ha) rfl

/-- **A life is one there was, or a newborn.** -/
theorem Created.cases {i : OpaqueId} {x : Life} (hx : d'.life? i = some x) :
    d.life? i = some x ∨ ∃ a ∈ rows, a.assignmentId = i ∧ x = ⟨a, [], [], [], [], []⟩ := by
  obtain ⟨a, ha, rfl⟩ := life?_eq_some.1 hx
  have hk := Rows.key_of_get _ ha
  have hm := Rows.mem_of_get _ ha
  rw [h.lifeOf]
  rw [h.assignments, List.mem_append] at hm
  rcases hm with hm | hm
  · exact Or.inl (hk ▸ life?_of_mem d.ok hm)
  · exact Or.inr ⟨a, hm, hk, lifeOf_absent d.ok (h.fresh hm)⟩

theorem Created.born {a : AssignmentRow} (ha : a ∈ rows) : d'.life? a.assignmentId = some ⟨a, [], [], [], [], []⟩ := by
  have hx : d'.life? a.assignmentId = some (d'.lifeOf a) :=
    life?_of_mem d'.ok (by rw [h.assignments]; exact List.mem_append_right _ ha)
  rw [hx, h.lifeOf, lifeOf_absent d.ok (h.fresh ha)]

theorem Created.group_ne {r : GroupRow} (hr : r ∈ d.groups) : r.groupId ≠ g.groupId := by
  have hk := d'.ok.groups.key
  rw [h.groups, List.map_append, List.nodup_append] at hk
  exact hk.2.2 _ (List.mem_map_of_mem hr) _ (List.mem_map_of_mem (List.mem_singleton_self g))

/-- The new group has no assignment but its own. -/
theorem Created.group_of_old {i : OpaqueId} {x : Life} (hx : d.life? i = some x) : x.row.groupId ≠ g.groupId := by
  obtain ⟨r, hr, hid, _⟩ := d.ok.assignments.group _ (Rows.mem_of_get _ (life_row hx).1)
  exact hid ▸ h.group_ne hr

theorem Created.allOver {r : GroupRow} (hr : r ∈ d.groups) : d'.AllOver r.groupId ↔ d.AllOver r.groupId := by
  constructor
  · exact fun ho i x hx => ho i x (h.old hx)
  · intro ho i x hx hxr
    rcases h.cases hx with hx | ⟨a, ha, _, rfl⟩
    · exact ho i x hx hxr
    · exact absurd (hxr.symm.trans (h.newborn a ha).2) (h.group_ne hr)

/-- **A new group is sound**, and so are the ones there were. -/
theorem Created.sound (hs : Sound now d.toTables) : Sound now d'.toTables := by
  have hpos : 0 < g.groupSize :=
    d'.ok.groups.size g (by rw [h.groups]; exact List.mem_append_right _ (List.mem_singleton_self g))
  refine ⟨fun i x hx => ?_, fun r hr _ => ?_, fun r hr k => ?_⟩
  · rcases h.cases hx with hx | ⟨a, ha, _, rfl⟩
    · exact hs.wf i x hx
    · have hm : a ∈ d'.assignments := by
        rw [h.assignments]
        exact List.mem_append_right _ ha
      exact (h.newborn a ha).1.wf (d'.ok.assignments.maxAttempts a hm)
  · rw [h.groups, List.mem_append, List.mem_singleton] at hr
    rcases hr with hr | rfl
    · rw [h.allOver hr]
      exact hs.synced r hr (fun hf => hf)
    · rw [h.collecting]
      simp only [reduceCtorEq, false_iff]
      intro ho
      obtain ⟨a, ha, _⟩ := (h.indices 0).1 hpos
      have ht := ho a.assignmentId _ (h.born ha) (h.newborn a ha).2
      rw [(h.newborn a ha).1.state] at ht
      cases ht
  · rw [h.groups, List.mem_append, List.mem_singleton] at hr
    rcases hr with hr | rfl
    · rw [hs.roster r hr k]
      constructor
      · rintro ⟨i, x, hx, hxr, hk⟩
        exact ⟨i, x, h.old hx, hxr, hk⟩
      · rintro ⟨i, x, hx, hxr, hk⟩
        rcases h.cases hx with hx | ⟨a, ha, _, rfl⟩
        · exact ⟨i, x, hx, hxr, hk⟩
        · exact absurd (hxr.symm.trans (h.newborn a ha).2) (h.group_ne hr)
    · rw [h.indices k]
      constructor
      · rintro ⟨a, ha, hk⟩
        exact ⟨_, _, h.born ha, (h.newborn a ha).2, hk⟩
      · rintro ⟨i, x, hx, hxr, hk⟩
        rcases h.cases hx with hx | ⟨a, ha, _, rfl⟩
        · exact absurd hxr (h.group_of_old hx)
        · exact ⟨a, ha, hk⟩

end

/-! ## The rows a creation inserts -/

/-- The row `insertAssignment` inserts. -/
def newRow (env : Env) (maxAttempts : Nat) (a : RolloutAssignment) : AssignmentRow :=
  ⟨a.assignmentId, a.groupId, a.groupIndex, a, a.policy.policyId, env.codec.policyManifestDigest a.policy, .pending,
    maxAttempts, 0, a.createdAt, a.deadlineAt, none⟩

theorem newborn_newRow (env : Env) (n : Nat) (a : RolloutAssignment) : Newborn (newRow env n a) :=
  ⟨rfl, rfl, rfl, rfl, rfl⟩

theorem returns_insertAssignments {env : Env} {n : Nat} : ∀ (as : List RolloutAssignment) (d d' : Db) (u : Unit),
    Returns (Txn.forEach as (fun a => insertAssignment env a n)) d u d' →
    d'.toTables = { d.toTables with assignments := d.assignments ++ as.map (newRow env n) }
  | [], d, d', u, h => by
    rw [forEach_nil, returns_pure] at h
    rw [h.2, List.map_nil, List.append_nil]
  | a :: as, d, d', u, h => by
    rw [forEach_cons, returns_bind] at h
    obtain ⟨_, d₁, h₁, h₂⟩ := h
    rw [insertAssignment, returns_exec] at h₁
    rw [returns_insertAssignments as d₁ d' u h₂, h₁, List.map_cons, List.append_cons]
    rfl

/-- What a source's occurrence fixes of the assignment of one index. -/
theorem sourceAssignment_ok {source : SourceRow} {policy : PolicyManifest} {task : JsonText} {t : Time}
    {deadline : Option Time} {groupId : OpaqueId} {ids : Nat → OpaqueId} {k : Nat} {a : RolloutAssignment}
    (h : sourceAssignment source policy task t deadline groupId ids k = .ok a) :
    a.groupId = groupId ∧ a.groupIndex = k ∧ a.policy = policy ∧ a.createdAt = t ∧ a.deadlineAt = deadline := by
  unfold sourceAssignment at h
  split at h
  · rw [Except.ok.injEq] at h
    rw [← h]
    exact ⟨rfl, rfl, rfl, rfl, rfl⟩
  · cases h

/-- The row a source's new group is created with. -/
def sourceGroup (source : SourceRow) (policy : PolicyManifest) (task : JsonText) (key : String) (t : Time)
    (groupId : OpaqueId) (sequence : Nat) : GroupRow :=
  ⟨groupId, policy.policyId, source.kind, source.environmentId, source.environmentRevision, task, source.sampling,
    source.groupSize, .collecting, t, key, sequence, some source.sourceId⟩

/-- The source after one more of its groups was created. -/
def SourceRow.next (source : SourceRow) : SourceRow :=
  { source with cursor := source.cursor + 1, virtualFinish := source.virtualFinish + source.groupSize / source.weight }

/-- **`create_next_group` creates a group** for a source's next occurrence, and moves the source on. -/
theorem returns_newGroup {env : Env} {source : SourceRow} {policy : PolicyManifest} {task : JsonText} {key : String}
    {t : Time} {ids : Nat → OpaqueId} {d d' : Db} {r : CreatedGroup}
    (h : Returns (newGroup env source policy task key t ids) d r d') :
    (∃ as : List RolloutAssignment, (∀ a ∈ as, a.policy = policy ∧ a.createdAt = t ∧
        a.deadlineAt = source.assignmentTimeoutSeconds.map (t + ·)) ∧
      Created d.toTables d'.toTables (sourceGroup source policy task key t (ids 0) d.scheduler.nextGroupSequence)
        (as.map (newRow env source.maxAttempts))) ∧
    d'.scheduler = { d.scheduler with nextGroupSequence := d.scheduler.nextGroupSequence + 1 } ∧
    d'.sources = Rows.set (·.sourceId) source.sourceId SourceRow.next d.sources := by
  simp only [newGroup, allocateGroupSequence, returns_bind, returns_tables, returns_exec, returns_pure,
    returns_orThrow] at h
  obtain ⟨_, d₁, ⟨_, d₀, ⟨rfl, rfl⟩, _, d₁', h₁, rfl, rfl⟩, as, _, ⟨has, rfl⟩, _, d₂, h₂, _, d₃, h₃, _, d₄, h₄, _, rfl⟩ := h
  have h₃ := returns_insertAssignments _ _ _ _ h₃
  obtain ⟨hfrom, hto⟩ := mapM_mem has
  have hmem : ∀ a ∈ as, a.groupId = ids 0 ∧ a.groupIndex < source.groupSize ∧ a.policy = policy ∧ a.createdAt = t ∧
      a.deadlineAt = source.assignmentTimeoutSeconds.map (t + ·) := by
    intro a ha
    obtain ⟨k, hk, hka⟩ := hfrom a ha
    obtain ⟨hg, hi, hfixed⟩ := sourceAssignment_ok hka
    exact ⟨hg, hi ▸ List.mem_range.1 hk, hfixed⟩
  refine ⟨⟨as, fun a ha => (hmem a ha).2.2, ?_, ?_, ?_, rfl, ?_, fun k => ?_⟩, by rw [h₄, h₃, h₂, h₁]; rfl,
    by rw [h₄, h₃, h₂, h₁]; rfl⟩
  · rw [h₄, h₃, h₂, h₁]
    rfl
  · rw [h₄, h₃, h₂, h₁]
    rfl
  · intro k hk hne
    rw [h₄, h₃, h₂, h₁]
    cases k <;> first | rfl | exact absurd hk (by decide) | exact absurd rfl hne
  · intro b hb
    obtain ⟨a, ha, rfl⟩ := List.mem_map.1 hb
    exact ⟨newborn_newRow env _ a, (hmem a ha).1⟩
  · constructor
    · intro hk
      obtain ⟨a, ha, hka⟩ := hto k (List.mem_range.2 hk)
      exact ⟨_, List.mem_map_of_mem ha, (sourceAssignment_ok hka).2.1⟩
    · rintro ⟨b, hb, hk⟩
      obtain ⟨a, ha, rfl⟩ := List.mem_map.1 hb
      exact hk ▸ (hmem a ha).2.1

/-- The row a group that no source made is created with. -/
def manualGroup (first : RolloutAssignment) (sequence : Nat) : GroupRow :=
  ⟨first.groupId, first.policy.policyId, first.kind, first.environment.id, first.environment.revision, first.taskData,
    first.sampling, first.groupSize, .collecting, first.createdAt, manualKey first.groupId, sequence, none⟩

theorem groupId_of_inputs {env : Env} {first : RolloutAssignment} {rest : List RolloutAssignment}
    (h : ∀ a ∈ rest, groupInputs env a = groupInputs env first) : ∀ a ∈ first :: rest, a.groupId = first.groupId := by
  intro a ha
  rcases List.mem_cons.1 ha with rfl | ha
  · rfl
  · exact congrArg (·.groupId) (h a ha)

/-- **`create_group` creates a group** of the assignments it is given. -/
theorem returns_createGroupBody {env : Env} {first : RolloutAssignment} {as : List RolloutAssignment} {n : Nat}
    (hi : Rows.orderBy id (as.map (·.groupIndex)) = List.range first.groupSize)
    (hg : ∀ a ∈ as, a.groupId = first.groupId) {d d' : Db} {u : Unit}
    (h : Returns (createGroupBody env first as n) d u d') :
    Created d.toTables d'.toTables (manualGroup first d.scheduler.nextGroupSequence)
      ((Rows.orderBy (·.groupIndex) as).map (newRow env n)) ∧
    d'.scheduler = { d.scheduler with nextGroupSequence := d.scheduler.nextGroupSequence + 1 } ∧
    d'.sources = d.sources := by
  simp only [createGroupBody, allocateGroupSequence, returns_bind, returns_tables, returns_exec, returns_pure,
    returns_orRaise, returns_raiseIf] at h
  obtain ⟨_, _, ⟨rfl, rfl⟩, _, _, ⟨_, rfl⟩, _, _, ⟨_, rfl⟩, _, d₂, ⟨_, d₁, ⟨rfl, rfl⟩, _, _, h₂, rfl, rfl⟩, _, d₃, h₃,
    h₄⟩ := h
  have h₄ := returns_insertAssignments _ _ _ _ h₄
  have hrows : ∀ k, k < first.groupSize ↔ ∃ a ∈ as, a.groupIndex = k := by
    intro k
    rw [← List.mem_range, ← hi, Rows.mem_orderBy, List.mem_map]
  refine ⟨⟨?_, ?_, ?_, rfl, ?_, fun k => ?_⟩, by rw [h₄, h₃, h₂]; rfl, by rw [h₄, h₃, h₂]; rfl⟩
  · rw [h₄, h₃, h₂]
    rfl
  · rw [h₄, h₃, h₂]
    rfl
  · intro k hk hne
    rw [h₄, h₃, h₂]
    cases k <;> first | rfl | exact absurd hk (by decide) | exact absurd rfl hne
  · intro b hb
    obtain ⟨a, ha, rfl⟩ := List.mem_map.1 hb
    exact ⟨newborn_newRow env n a, hg a ((Rows.mem_orderBy _ _ _).1 ha)⟩
  · refine (hrows k).trans ?_
    constructor
    · rintro ⟨a, ha, hk⟩
      exact ⟨_, List.mem_map_of_mem ((Rows.mem_orderBy _ _ _).2 ha), hk⟩
    · rintro ⟨b, hb, hk⟩
      obtain ⟨a, ha, rfl⟩ := List.mem_map.1 hb
      exact ⟨a, (Rows.mem_orderBy _ _ _).1 ha, hk⟩

/-- **What `create_next_group` answers and commits**: nothing, the group of the source's occurrence that was already
there, or a new one of the active policy. -/
inductive CreateNext (env : Env) (kind : Option Kind) (ids : Nat → OpaqueId) (t : Time) (d : Db) :
    Option CreatedGroup → Db → Prop
  | idle (hs : servedSources d.toTables kind = []) : CreateNext env kind ids t d none d
  | existing (source : SourceRow) (hs : (servedSources d.toTables kind).head? = some source) (g : GroupRow)
      (hg : d.groups.find? (fun g => decide (g.creationKey = creationKey source.sourceId source.cursor)) = some g)
      (r : CreatedGroup) (d' : Db) (h : Returns (existingGroup source (creationKey source.sourceId source.cursor) g) d r d') :
      CreateNext env kind ids t d (some r) d'
  | made (source : SourceRow) (hs : (servedSources d.toTables kind).head? = some source)
      (hg : d.groups.find? (fun g => decide (g.creationKey = creationKey source.sourceId source.cursor)) = none)
      (active : PolicyRow) (ha : d.activePolicy? = some active) (hid : active.manifest.policyId = active.policyId)
      (hd : env.codec.policyManifestDigest active.manifest = active.manifestDigest) (task : JsonText)
      (htask : source.tasks[source.cursor % source.tasks.length]? = some task) (r : CreatedGroup) (d' : Db)
      (h : Returns (newGroup env source active.manifest task (creationKey source.sourceId source.cursor) t ids) d r d') :
      CreateNext env kind ids t d (some r) d'

theorem returns_createNextGroupBody {env : Env} {kind : Option Kind} {ids : Nat → OpaqueId} {artifacts : Artifacts}
    {t : Time} {d d' : Db} {r : Option CreatedGroup}
    (h : Returns (createNextGroupBody env kind ids artifacts t) d r d') : CreateNext env kind ids t d r d' := by
  simp only [createNextGroupBody, returns_bind, returns_tables] at h
  obtain ⟨_, d₀, ⟨rfl, rfl⟩, h⟩ := h
  split at h
  · rename_i hnone
    rw [returns_pure] at h
    obtain ⟨rfl, rfl⟩ := h
    exact .idle (List.head?_eq_none_iff.1 hnone)
  · rename_i source hs
    simp only [returns_bind, returns_tables, returns_orRaise] at h
    obtain ⟨_, _, ⟨rfl, rfl⟩, p, _, ⟨hp, rfl⟩, _, d₁, hv, task, _, ⟨htask, rfl⟩, _, d₂, ⟨rfl, rfl⟩, h⟩ := h
    rw [verifyPolicyRow, returns_raiseIf] at hv
    obtain ⟨hv, rfl⟩ := hv
    simp only [not_or, not_not] at hv
    split at h
    · rename_i g hg
      obtain ⟨c, hc, rfl⟩ := (returns_map _ _ _ _ _).1 h
      exact .existing source hs g hg c _ hc
    · rename_i hg
      obtain ⟨c, hc, rfl⟩ := (returns_map _ _ _ _ _).1 h
      exact .made source hs hg p hp hv.1 hv.2.2.1 task htask c _ hc

/-- **A creation leaves the groups and lives alone, or adds one group.** -/
theorem CreateNext.created {env : Env} {kind : Option Kind} {ids : Nat → OpaqueId} {t : Time} {d d' : Db}
    {r : Option CreatedGroup} (h : CreateNext env kind ids t d r d') :
    (∀ k ∈ Table.groups :: lifeTables, d'.rows k = d.rows k) ∨ ∃ g rows, Created d.toTables d'.toTables g rows := by
  cases h with
  | idle => exact Or.inl (fun _ _ => rfl)
  | existing source hs g hg r _ h =>
    have hw := writes_existingGroup (S := [.sources]) _ _ _ (by decide) _ _ _ h
    exact Or.inl (fun k hk => hw k (by revert k; decide))
  | made source hs hg active ha hid hd task htask r _ h =>
    obtain ⟨⟨as, _, hc⟩, _⟩ := returns_newGroup h
    exact Or.inr ⟨_, _, hc⟩

end Aether
