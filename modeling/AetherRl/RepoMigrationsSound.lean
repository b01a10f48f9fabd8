import AetherRl.Rank
import AetherRl.RepoCreations
import AetherRl.RepoMigrations
/-!
# RepoMigrationsSound — migrated groups keep their order and their origin

The numbers of schema 4 are the ranks of the groups under their creation time and id.  A creation key names the source of
its occurrence: of the sources whose mark it starts with, the longest.  So a coordinator that runs at schema 4 and is
migrated has in every group the source that `create_next_group` made it of.
-/
namespace Aether

open Txn (Returns returns_bind)
open Tables Repo

/-! ## Origins -/

section
variable {i j : OpaqueId} {k : Nat}

theorem creationKey_toList (i : OpaqueId) (k : Nat) :
    (creationKey i k).toList = "source:".toList ++ (i.toList ++ (":occurrence:".toList ++ (toString k).toList)) := by
  rw [creationKey, String.toList_append, String.toList_append, String.toList_append, List.append_assoc,
    List.append_assoc]

theorem sourceMark_toList (i : OpaqueId) :
    (sourceMark i).toList = "source:".toList ++ (i.toList ++ ":occurrence:".toList) := by
  rw [sourceMark, String.toList_append, String.toList_append, List.append_assoc]

theorem startsWithMark_iff {key mark : String} : startsWithMark key mark ↔ mark.toList <+: key.toList := by
  rw [startsWithMark, List.prefix_iff_eq_take, eq_comm]

theorem likeSource_creationKey (i : OpaqueId) (k : Nat) : likeSource (creationKey i k) := by
  rw [likeSource, creationKey_toList]
  rfl

theorem not_likeSource_manualKey (g : OpaqueId) : ¬ likeSource (manualKey g) := by
  intro h
  rw [likeSource, manualKey, String.toList_append] at h
  have hhead := congrArg List.head? h
  revert hhead
  simp

/-- **A key starts with the mark of its own source.** -/
theorem startsWithMark_creationKey (i : OpaqueId) (k : Nat) : startsWithMark (creationKey i k) (sourceMark i) := by
  rw [startsWithMark_iff, creationKey_toList, sourceMark_toList, ← List.append_assoc i.toList]
  exact (List.prefix_append_right_inj _).2 (List.prefix_append _ _)

/-- **A key starts with no longer mark than that of its source**: the last colon of a longer one would be a digit. -/
theorem length_le_of_mark (h : startsWithMark (creationKey i k) (sourceMark j)) :
    j.toList.length ≤ i.toList.length ∧ (j.toList.length = i.toList.length → j = i) := by
  rw [startsWithMark_iff, creationKey_toList, sourceMark_toList, List.prefix_append_right_inj] at h
  have hown : i.toList ++ ":occurrence:".toList <+:
      i.toList ++ (":occurrence:".toList ++ (toString k).toList) :=
    (List.prefix_append_right_inj _).2 (List.prefix_append _ _)
  constructor
  · by_contra hlt
    rw [not_le] at hlt
    have hlen : (i.toList ++ ":occurrence:".toList).length ≤ (j.toList ++ ":occurrence:".toList).length := by
      rw [List.length_append, List.length_append]
      omega
    obtain ⟨rest, hrest⟩ := List.prefix_of_prefix_length_le hown h hlen
    have hdigits : rest <+: (toString k).toList := by
      rw [← hrest, ← List.append_assoc, List.prefix_append_right_inj] at h
      exact h
    have hne : rest ≠ [] := by
      rintro rfl
      have hl := congrArg List.length hrest
      rw [List.append_nil, List.length_append, List.length_append] at hl
      omega
    have hlast : rest.getLast hne = ':' := by
      have hl := congrArg List.getLast? hrest
      rw [List.getLast?_append_of_ne_nil _ hne, List.getLast?_append_of_ne_nil _ (by decide),
        List.getLast?_eq_getLast_of_ne_nil hne] at hl
      exact Option.some.inj (hl.trans (by decide))
    have hd := Numeral.isDigit_toString (hdigits.subset (List.getLast_mem hne))
    rw [hlast] at hd
    cases hd
  · intro hlen
    have hstarts : j.toList <+: i.toList :=
      List.prefix_of_prefix_length_le ((List.prefix_append _ _).trans h) (List.prefix_append _ _) hlen.le
    exact String.toList_inj.1 (hstarts.eq_of_length hlen)

theorem mem_candidates {sources : List OpaqueId} {key : String} :
    j ∈ candidates sources key ↔ j ∈ sources ∧ startsWithMark key (sourceMark j) := by
  rw [candidates, Rows.mem_orderBy, List.mem_filter, decide_eq_true_eq]

/-- **The backfill finds the source of an occurrence**, whatever other sources there are. -/
theorem backfill_creationKey {sources : List OpaqueId} (h : i ∈ sources) (k : Nat) :
    backfill sources (creationKey i k) = some i := by
  rw [backfill, if_pos (likeSource_creationKey i k)]
  have hi : i ∈ candidates sources (creationKey i k) := mem_candidates.2 ⟨h, startsWithMark_creationKey i k⟩
  cases hc : candidates sources (creationKey i k) with
  | nil =>
    rw [hc] at hi
    cases hi
  | cons j rest =>
    have hj : j ∈ candidates sources (creationKey i k) := hc ▸ List.mem_cons_self
    obtain ⟨hle, heq⟩ := length_le_of_mark (mem_candidates.1 hj).2
    have hsorted := Rows.orderBy_pairwise (fun i : OpaqueId => OrderDual.toDual i.toList.length)
      (sources.filter fun i' => decide (startsWithMark (creationKey i k) (sourceMark i')))
    rw [← candidates, hc, List.pairwise_cons] at hsorted
    have hlongest : i.toList.length ≤ j.toList.length := by
      rw [hc] at hi
      rcases List.mem_cons.1 hi with rfl | hi
      · exact le_rfl
      · exact hsorted.1 i hi
    rw [List.head?_cons, heq (hle.antisymm hlongest)]

example : backfill ["a", "a:occurrence:0", "a:occurrence:0:occurrence"] "source:a:occurrence:0:occurrence:5" =
    some "a:occurrence:0" := by decide

theorem backfill_manualKey (sources : List OpaqueId) (g : OpaqueId) : backfill sources (manualKey g) = none := by
  rw [backfill, if_neg (not_likeSource_manualKey g)]

end

/-! ## The order of schema 4 -/

/-- What the groups are numbered by. -/
def groupOrder (g : GroupRow3) : Time ×ₗ OpaqueId := toLex (g.createdAt, g.groupId)

theorem counted_iff {candidate target : GroupRow3} :
    Counted candidate target ↔ groupOrder candidate ≤ groupOrder target := by
  rw [groupOrder, groupOrder, Prod.Lex.toLex_le_toLex]
  rfl

theorem numberGroup_sequence (groups : List GroupRow3) (g : GroupRow3) :
    (numberGroup groups g).sequence = Rank.rank groupOrder groups (groupOrder g) := by
  rw [numberGroup, Rank.rank]
  exact List.countP_congr fun c _ => by rw [decide_eq_true_eq, decide_eq_true_eq, counted_iff]

theorem groupOrder_nodup {groups : List GroupRow3} (h : (groups.map (·.groupId)).Nodup) :
    (groups.map groupOrder).Nodup := by
  refine List.Nodup.of_map (fun k : Time ×ₗ OpaqueId => (ofLex k).2) ?_
  rw [List.map_map]
  exact h

variable {t : Tables3}

/-- **The numbers are those from one to the number of groups**, each once. -/
theorem sequence_perm (h : (t.groups.map (·.groupId)).Nodup) :
    ((migrate4 t).groups.map (·.sequence)).Perm (List.range' 1 t.groups.length) := by
  rw [migrate4, List.map_map]
  have hmap : t.groups.map ((·.sequence) ∘ numberGroup t.groups) =
      t.groups.map fun g => Rank.rank groupOrder t.groups (groupOrder g) :=
    List.map_congr_left fun g _ => numberGroup_sequence t.groups g
  rw [hmap]
  exact Rank.map_rank_perm (groupOrder_nodup h)

theorem nextSequence_eq (h : (t.groups.map (·.groupId)).Nodup) :
    (migrate4 t).scheduler.nextGroupSequence = t.groups.length + 1 := by
  have hperm := sequence_perm h
  change nextSequence (migrate4 t).groups = _
  rw [nextSequence]
  congr 1
  cases hmax : ((migrate4 t).groups.map (·.sequence)).max? with
  | none =>
    rw [List.max?_eq_none_iff] at hmax
    rw [hmax] at hperm
    have hl := hperm.length_eq
    rw [List.length_range'] at hl
    rw [Option.getD_none, ← hl]
    rfl
  | some m =>
    rw [List.max?_eq_some_iff] at hmax
    obtain ⟨hm, hle⟩ := hmax
    have hm' := List.mem_range'_1.1 (hperm.subset hm)
    have hlast := hle t.groups.length (hperm.mem_iff.2 (List.mem_range'_1.2 (by omega)))
    rw [Option.getD_some]
    omega

/-- The columns of schema 3 stay. -/
theorem migrate4_groups : (migrate4 t).groups.map (·.toGroupRow3) = t.groups := by
  rw [migrate4, List.map_map]
  exact List.map_id _

/-! ## The coordinator of schema 4 -/

/-- Every group has the key its origin gives it. -/
structure Traced (groups : List GroupRow) (sources : List OpaqueId) : Prop where
  manual : ∀ g ∈ groups, g.sourceId = none → g.creationKey = manualKey g.groupId
  occurrence : ∀ g ∈ groups, ∀ i ∈ g.sourceId, i ∈ sources ∧ ∃ k, g.creationKey = creationKey i k

/-- The origins of a database. -/
abbrev Db.Traced (d : Db) : Prop := Aether.Traced d.groups (d.sources.map (·.sourceId))

section
variable {groups groups' : List GroupRow} {sources sources' : List OpaqueId}

/-- **The backfill of traced groups is their origin.** -/
theorem Traced.backfill (h : Traced groups sources) {g : GroupRow} (hg : g ∈ groups) :
    backfill sources g.creationKey = g.sourceId := by
  cases hs : g.sourceId with
  | none => rw [h.manual g hg hs, backfill_manualKey]
  | some i =>
    obtain ⟨hi, k, hk⟩ := h.occurrence g hg i hs
    rw [hk, backfill_creationKey hi]

/-- Origins look at no state of a group, and more sources change none. -/
theorem Traced.of_fixed (h : Traced groups sources) (hg : groups'.map GroupRow.fixed = groups.map GroupRow.fixed)
    (hs : sources ⊆ sources') : Traced groups' sources' := by
  have hmem : ∀ g' ∈ groups', ∃ g ∈ groups, g.fixed = g'.fixed := fun g' hg' =>
    List.mem_map.1 (hg ▸ List.mem_map_of_mem hg')
  constructor
  · intro g' hg' hn
    obtain ⟨g, hgm, he⟩ := hmem g' hg'
    have hsrc : g.sourceId = g'.sourceId := congrArg (·.sourceId) he
    have hkey : g.creationKey = g'.creationKey := congrArg (·.creationKey) he
    have hid : g.groupId = g'.groupId := congrArg (·.groupId) he
    rw [← hkey, ← hid]
    exact h.manual g hgm (hsrc.trans hn)
  · intro g' hg' i hi
    obtain ⟨g, hgm, he⟩ := hmem g' hg'
    have hsrc : g.sourceId = g'.sourceId := congrArg (·.sourceId) he
    have hkey : g.creationKey = g'.creationKey := congrArg (·.creationKey) he
    obtain ⟨him, k, hk⟩ := h.occurrence g hgm i (hsrc ▸ hi)
    exact ⟨hs him, k, hkey ▸ hk⟩

theorem Traced.append (h : Traced groups sources) (hs : sources ⊆ sources') {g : GroupRow}
    (hm : g.sourceId = none → g.creationKey = manualKey g.groupId)
    (ho : ∀ i ∈ g.sourceId, i ∈ sources' ∧ ∃ k, g.creationKey = creationKey i k) :
    Traced (groups ++ [g]) sources' := by
  constructor
  · intro r hr
    rcases List.mem_append.1 hr with hr | hr
    · exact h.manual r hr
    · rw [List.mem_singleton.1 hr]
      exact hm
  · intro r hr
    rcases List.mem_append.1 hr with hr | hr
    · exact fun i hi => (h.occurrence r hr i hi).imp_left fun him => hs him
    · rw [List.mem_singleton.1 hr]
      exact ho

end

variable {now : Time} {d d' : Db} {env : Env}

/-- The groups a call makes, and the source they are made of. -/
inductive CreatedBy (c : Call) (g : GroupRow) : Prop
  | next (kind : Option Kind) (asked : c.serves = some kind) (i : OpaqueId) (of : g.sourceId = some i) (k : Nat)
      (key : g.creationKey = creationKey i k)
  | manual (assignments : List RolloutAssignment) (n : Nat) (call : c = .createGroup assignments n)
      (of : g.sourceId = none) (key : g.creationKey = manualKey g.groupId)

/-- **What a commit adds**: at most one group, whose source is there, and no source goes. -/
inductive Added (c : Call) (d d' : Db) : Prop
  | nothing (groups : d'.groups.map GroupRow.fixed = d.groups.map GroupRow.fixed)
      (sources : d.sources.map (·.sourceId) ⊆ d'.sources.map (·.sourceId))
  | group (g : GroupRow) (groups : d'.groups = d.groups ++ [g]) (made : CreatedBy c g)
      (source : ∀ i ∈ g.sourceId, i ∈ d.sources.map (·.sourceId))
      (sources : d'.sources.map (·.sourceId) = d.sources.map (·.sourceId))

theorem CreateNext.added {c : Call} {kind : Option Kind} (hc : c.serves = some kind) {ids : Nat → OpaqueId}
    {time : Time} {r : Option CreatedGroup} (h : CreateNext env kind ids time d r d') : Added c d d' := by
  cases h with
  | idle => exact .nothing rfl (List.Subset.refl _)
  | existing source hs g hg r _ h =>
    simp only [existingGroup, returns_bind, returns_tables, Txn.returns_raiseIf, returns_exec, Txn.returns_pure] at h
    obtain ⟨_, d₀, ⟨rfl, h₀⟩, _, d₁, ⟨_, h₁⟩, _, d₂, h₂, _, h₃⟩ := h
    rw [h₁, h₀, ← h₃] at h₂
    have hsources : d'.sources.map (·.sourceId) = d.sources.map (·.sourceId) := by
      rw [h₂]
      refine Rows.map_set _ (fun s : SourceRow => s.sourceId) _ _ _ fun s _ _ => ?_
      split <;> rfl
    refine .nothing ?_ (hsources ▸ List.Subset.refl _)
    rw [h₂]
    rfl
  | made source hs hg active ha hid hdig task htask r _ h =>
    obtain ⟨⟨as, _, hcr⟩, _, hsrc⟩ := returns_newGroup h
    refine .group _ hcr.groups (.next kind hc source.sourceId rfl source.cursor rfl) (fun i hi => ?_) ?_
    · cases hi
      exact List.mem_map_of_mem (mem_of_served hs)
    · rw [hsrc]
      exact Rows.map_set _ (fun s : SourceRow => s.sourceId) _ _ _ fun _ _ _ => rfl

theorem commit_added {c : Call} (h : Commit env now d d' c) : Added c d d' := by
  have quiet : ∀ {d'' : Db}, (∀ k ∈ [Table.fixedGroups, .sources], d''.rows k = d.rows k) → Added c d d'' := by
    intro d'' hrows
    have hsources : d''.sources = d.sources := hrows .sources (by decide)
    exact .nothing (hrows .fixedGroups (by decide)) (hsources ▸ List.Subset.refl _)
  by_cases hc : ∀ k ∈ [Table.fixedGroups, .sources], k ∉ c.writes
  · exact quiet fun k hk => commit_rows h k (hc k hk)
  cases c
  case registerSchedulerSource spec =>
    obtain ⟨_, h⟩ := h
    cases register_logStep (c := .registerSchedulerSource spec) h with
    | quiet hg hs => exact .nothing hg (hs ▸ List.Subset.refl _)
    | registered _ _ hg hs =>
      refine .nothing hg ?_
      rw [hs, List.map_append]
      exact List.subset_append_left _ _
    | made _ asked => cases asked
    | manual g hg _ hof hkey hs =>
      -- a registration leaves the groups
      have hcommit : Commit env now d d' (.registerSchedulerSource spec) := ⟨_, h⟩
      have hlen := congrArg List.length (commit_rows hcommit .fixedGroups (by simp only [Call.writes]; decide))
      change (d'.groups.map GroupRow.fixed).length = (d.groups.map GroupRow.fixed).length at hlen
      rw [hg, List.length_map, List.length_map, List.length_append, List.length_singleton] at hlen
      omega
  case createNextGroup kind ids artifacts =>
    obtain ⟨_, h⟩ := h
    exact (returns_createNextGroupBody h).added rfl
  case createGroup as n =>
    obtain ⟨first, rest, rfl, hi, hg, u, h⟩ := h
    obtain ⟨hcr, _, hsrc⟩ := returns_createGroupBody hi (groupId_of_inputs hg) h
    exact .group _ hcr.groups (.manual _ _ rfl rfl rfl) (fun i hi => by cases hi) (by rw [hsrc])
  case leaseOrCreateNextCompatible =>
    rcases h with ⟨_, _, _, h⟩ | ⟨_, h⟩ | ⟨_, h⟩
    · have hw := writes_leaseNextBody (S := .requests :: .fixedLeases :: reapTables) env _ _ _ now (by decide)
        (by decide) (by decide) _ _ _ h
      exact quiet fun k hk => hw k (by revert k; decide)
    · exact quiet fun k _ => writes_leaseRequestCanGenerateBody (S := []) _ _ _ _ _ h k List.not_mem_nil
    · exact (returns_createNextGroupBody h).added rfl
  all_goals exact absurd (by simp only [Call.writes]; decide) hc

/-- **Every commit keeps the origins.** -/
theorem Added.traced {c : Call} (h : Added c d d') (hd : d.Traced) : d'.Traced := by
  cases h with
  | nothing hg hs => exact Traced.of_fixed hd hg hs
  | group g hg hby hsource hs =>
    rw [Db.Traced, hg, hs]
    refine Traced.append hd (List.Subset.refl _) (fun hn => ?_) fun i hi => ⟨hsource i hi, ?_⟩
    · cases hby with
      | next _ _ i hof => cases hof.symm.trans hn
      | manual _ _ _ _ hkey => exact hkey
    · cases hby with
      | next _ _ j hof k hkey =>
        cases hof.symm.trans hi
        exact ⟨k, hkey⟩
      | manual _ _ _ hof => cases hof.symm.trans hi

/-- The groups there were, and those the calls made. -/
def Grown (steps : List Step) (d d' : Db) : Prop :=
  ∀ g' ∈ d'.groups, (∃ g ∈ d.groups, g.fixed = g'.fixed) ∨ ∃ s ∈ steps, CreatedBy s.call g'

theorem CreatedBy.of_fixed {c : Call} {g g' : GroupRow} (h : CreatedBy c g) (he : g.fixed = g'.fixed) :
    CreatedBy c g' := by
  have hsrc : g.sourceId = g'.sourceId := congrArg (·.sourceId) he
  have hkey : g.creationKey = g'.creationKey := congrArg (·.creationKey) he
  have hid : g.groupId = g'.groupId := congrArg (·.groupId) he
  cases h with
  | next kind asked i of k key => exact .next kind asked i (hsrc ▸ of) k (hkey ▸ key)
  | manual as n call of key => exact .manual as n call (hsrc ▸ of) (hkey ▸ hid ▸ key)

theorem Grown.trans {steps : List Step} {d d' d'' : Db} (h : Grown steps d d') (h' : Grown steps d' d'') :
    Grown steps d d'' := by
  intro g'' hg''
  rcases h' g'' hg'' with ⟨g', hg', he⟩ | hmade
  · rcases h g' hg' with ⟨g, hg, he'⟩ | ⟨s, hs, hmade⟩
    · exact .inl ⟨g, hg, he'.trans he⟩
    · exact .inr ⟨s, hs, hmade.of_fixed he⟩
  · exact .inr hmade

theorem Added.grown {steps : List Step} {s : Step} (hs : s ∈ steps) (h : Added s.call d d') : Grown steps d d' := by
  intro g' hg'
  cases h with
  | nothing hg => exact .inl (List.mem_map.1 (hg ▸ List.mem_map_of_mem hg'))
  | group g hg hby =>
    rw [hg] at hg'
    rcases List.mem_append.1 hg' with hg' | hg'
    · exact .inl ⟨g', hg', rfl⟩
    · rw [List.mem_singleton.1 hg']
      exact .inr ⟨s, hs, hby⟩

/-- **Every run keeps the origins**, and makes its groups by its calls. -/
theorem runFrom_traced (env : Env) (steps : List Step) {w : World} (h : w.db.Traced) :
    (runFrom env w steps).db.Traced ∧ Grown steps w.db (runFrom env w steps).db :=
  runFrom_holds (I := fun _ d => d.Traced) (R := Grown steps) (fun _ _ _ _ h => h)
    (fun _ g hg => .inl ⟨g, hg, rfl⟩) (fun _ _ _ h h' => h.trans h') steps w
    (fun _ hs _ _ _ hd hc => ⟨(commit_added hc).traced hd, (commit_added hc).grown hs⟩) h

/-! ## Migrated databases -/

/-- The groups after both migrations have the numbers of the first and no source. -/
theorem migrated_groups (t : Tables3) :
    (migrate5 (migrate4 t)).groups = t.groups.map fun g => (numberGroup t.groups g).withSource none := by
  rw [migrate5, migrate4, List.map_map]
  exact List.map_congr_left fun g _ => congrArg (GroupRow4.withSource _) (backfill_manualKey [] g.groupId)

theorem groupsOk_migrated {t : Tables3} (h : Schema3Ok t) : GroupsOk (migrate5 (migrate4 t)) where
  key := by
    rw [migrated_groups, List.map_map]
    exact h.groupKey
  creationKey := by
    rw [migrated_groups, List.map_map]
    have hkey := h.groupKey.map (f := fun i : OpaqueId => manualKey i) fun i j hij => (String.append_right_inj _).1 hij
    rw [List.map_map] at hkey
    exact hkey
  sequence := by
    have hperm := sequence_perm h.groupKey
    rw [migrate4, List.map_map] at hperm
    rw [migrated_groups, List.map_map]
    exact hperm.nodup_iff.2 List.nodup_range'
  policy := by
    intro g hg
    rw [migrated_groups] at hg
    obtain ⟨g₀, hg₀, rfl⟩ := List.mem_map.1 hg
    exact h.groupPolicy g₀ hg₀
  source := by
    intro g hg i hi
    rw [migrated_groups] at hg
    obtain ⟨g₀, _, rfl⟩ := List.mem_map.1 hg
    cases hi
  size := by
    intro g hg
    rw [migrated_groups] at hg
    obtain ⟨g₀, hg₀, rfl⟩ := List.mem_map.1 hg
    exact h.groupSize g₀ hg₀

theorem assignmentsOk_migrated {t : Tables3} (h : AssignmentsOk t.bare) : AssignmentsOk (migrate5 (migrate4 t)) where
  key := h.key
  index := h.index
  group := by
    intro a ha
    obtain ⟨g, hg, he⟩ := h.group a ha
    obtain ⟨g₀, hg₀, rfl⟩ := List.mem_map.1 hg
    refine ⟨(numberGroup t.groups g₀).withSource none, ?_, he⟩
    rw [migrated_groups]
    exact List.mem_map_of_mem hg₀
  policy := h.policy
  currentLease := h.currentLease
  maxAttempts := h.maxAttempts

/-- **The migrations break no constraint.** -/
theorem schemaOk_migrated {t : Tables3} (h : Schema3Ok t) : SchemaOk (migrate5 (migrate4 t)) where
  run := ⟨h.run.basePolicy, h.run.activePolicy⟩
  policies := ⟨h.policies.key, h.policies.version, h.policies.digest, h.policies.path⟩
  sessions := ⟨h.sessions.workerKey, h.sessions.key, h.sessions.worker⟩
  groups := groupsOk_migrated h
  assignments := assignmentsOk_migrated h.assignments
  leases := ⟨h.leases.key, h.leases.attempt, h.leases.assignment, h.leases.session, h.leases.attemptPos, h.leases.times⟩
  results := ⟨h.results.key, h.results.lease, h.results.digest, h.results.path, h.results.assignment, h.results.attempt,
    h.results.size⟩
  failures := ⟨h.failures.key, h.failures.digest, h.failures.assignment, h.failures.attempt⟩
  outcomes := ⟨h.outcomes.key, h.outcomes.assignment, h.outcomes.attempt⟩
  scheduler := ⟨Nat.succ_pos _, fun _ h => absurd h (Option.not_mem_none _),
    fun _ h => absurd h (Option.not_mem_none _)⟩
  sources := by constructor <;> simp [migrate5, migrate4]
  cancellations := by constructor <;> simp [migrate5, migrate4]
  requests := by constructor <;> simp [migrate5, migrate4]
  batches := by constructor <;> simp [migrate5, migrate4]
  processed := by constructor <;> simp [migrate5, migrate4]

/-- The database both migrations leave. -/
def Db3.migrated (t : Db3) : Db := ⟨migrate5 (migrate4 t.toTables3), schemaOk_migrated t.ok⟩

theorem traced_migrated (t : Db3) : t.migrated.Traced := by
  have hgroups : t.migrated.groups = t.groups.map fun g => (numberGroup t.groups g).withSource none :=
    migrated_groups t.toTables3
  rw [Db.Traced, hgroups]
  constructor
  · intro g hg _
    obtain ⟨g₀, _, rfl⟩ := List.mem_map.1 hg
    rfl
  · intro g hg i hi
    obtain ⟨g₀, _, rfl⟩ := List.mem_map.1 hg
    cases hi

theorem schema4_withSource (g : GroupRow) : g.schema4.withSource g.sourceId = g := rfl

/-- **Adding the column back to traced groups gives the groups they were.** -/
theorem migrate5_schema4 (h : d.Traced) : (migrate5 d.toTables.schema4).groups = d.groups := by
  rw [migrate5, Tables.schema4, List.map_map]
  conv_rhs => rw [← List.map_id d.groups]
  refine List.map_congr_left fun g hg => ?_
  change g.schema4.withSource (backfill (d.sources.map (·.sourceId)) g.creationKey) = g
  rw [Traced.backfill h hg, schema4_withSource]

/-- **The migrations keep the order and the origin of the groups**: the groups of any database of schema 3 are numbered
from one without gap by creation time and id, with the next number one above the largest; and when a coordinator has run
on from there at schema 4, the source each group is backfilled with is the one `create_next_group` made it of, and none
where `create_group` did. -/
theorem migrations_keep_groups (env : Env) (t : Db3) :
    let groups := (migrate4 t.toTables3).groups
    (groups.map (·.toGroupRow3) = t.groups ∧
      (groups.map (·.sequence)).Perm (List.range' 1 groups.length) ∧
      (∀ g ∈ groups, ∀ g' ∈ groups, g.sequence < g'.sequence ↔
        g.createdAt < g'.createdAt ∨ g.createdAt = g'.createdAt ∧ g.groupId < g'.groupId) ∧
      (migrate4 t.toTables3).scheduler.nextGroupSequence = groups.length + 1) ∧
    ∀ (w : World) (steps : List Step), w.db = t.migrated →
      let d := (runFrom env w steps).db
      (migrate5 d.toTables.schema4).groups = d.groups ∧
      ∀ g ∈ d.groups, (∃ g₀ ∈ t.groups, g₀.groupId = g.groupId ∧ g.sourceId = none) ∨
        ∃ s ∈ steps, CreatedBy s.call g := by
  intro groups
  have hlength : groups.length = t.groups.length := List.length_map _
  refine ⟨⟨migrate4_groups, ?_, fun g hg g' hg' => ?_, ?_⟩, fun w steps hw => ?_⟩
  · rw [hlength]
    exact sequence_perm t.ok.groupKey
  · obtain ⟨g₀, hg₀, rfl⟩ := List.mem_map.1 hg
    obtain ⟨g₁, hg₁, rfl⟩ := List.mem_map.1 hg'
    rw [numberGroup_sequence, numberGroup_sequence, Rank.rank_lt_iff hg₁, groupOrder, groupOrder, Prod.Lex.toLex_lt_toLex]
    rfl
  · rw [hlength]
    exact nextSequence_eq t.ok.groupKey
  · have htraced : w.db.Traced := hw ▸ traced_migrated t
    obtain ⟨hd, hgrown⟩ := runFrom_traced env steps htraced
    refine ⟨migrate5_schema4 hd, fun g hg => (hgrown g hg).imp_left ?_⟩
    rintro ⟨g', hg', he⟩
    rw [hw, Db3.migrated, migrated_groups] at hg'
    obtain ⟨g₀, hg₀, rfl⟩ := List.mem_map.1 hg'
    exact ⟨g₀, hg₀, congrArg (·.groupId) he, (congrArg (·.sourceId) he).symm⟩

namespace Sample

/-- Schema 3 with two groups of one creation time. -/
def tied : Db3 where
  run := some ⟨"run", "base", "policy-0", "policy-0", 0⟩
  policies := [⟨"policy-0", 0, codec.policyManifestDigest policy, policy, none, 0⟩]
  workers := []
  sessions := []
  groups := [⟨"group-b", "policy-0", .train, "environment", "1", "task", "{}", 1, .collecting, 5⟩,
    ⟨"group-a", "policy-0", .train, "environment", "1", "task", "{}", 1, .collecting, 5⟩]
  assignments := []
  leases := []
  results := []
  failures := []
  outcomes := []
  ok := by
    refine ⟨?_, ?_, ?_, by decide, ?_, ?_, ?_, ?_, ?_, ?_, ?_⟩
    · constructor <;> simp [Tables3.bare]
    · constructor <;> simp [Tables3.bare, policy]
    · constructor <;> simp [Tables3.bare]
    · simp
    · simp
    · constructor <;> simp [Tables3.bare]
    · constructor <;> simp [Tables3.bare]
    · constructor <;> simp [Tables3.bare]
    · constructor <;> simp [Tables3.bare]
    · constructor <;> simp [Tables3.bare]

/-- A coordinator goes on from it and creates a group of a source. -/
def goesOn : List Step :=
  [.configureScheduler 1 0, .registerSchedulerSource source,
    .createNextGroup none (fun n => "id-" ++ toString n) fun _ => true].map step

end Sample

/-- The groups of one creation time are numbered by id, and the new one is given back its source. -/
theorem migrations_keep_groups_sample :
    (migrate4 Sample.tied.toTables3).groups.map (fun g => (g.groupId, g.sequence)) = [("group-b", 2), ("group-a", 1)] ∧
      let d := (runFrom Sample.env { World.fresh with db := Sample.tied.migrated } Sample.goesOn).db
      d.groups.map (fun g => (g.groupId, g.sequence, g.sourceId)) =
          [("group-b", 2, none), ("group-a", 1, none), ("id-0", 3, some "source")] ∧
        (migrate5 d.toTables.schema4).groups = d.groups := by
  refine ⟨by decide +kernel, by decide +kernel, ?_⟩
  exact ((migrations_keep_groups Sample.env Sample.tied).2 _ Sample.goesOn rfl).1

end Aether
