import AetherRl.RepoPolicies
/-!
# RepoCreations — the log of created groups

Groups are only appended, numbered from one.  A source's groups carry, in order, the keys and the tasks of its
occurrences from zero up to its cursor, and a group made by hand carries a key no occurrence has.  So the key of the
next occurrence is always free, and `create_next_group` never finds its group already there.
-/
namespace Aether

open Txn (Returns returns_bind returns_pure returns_orRaise returns_raiseIf)
open Tables Repo

variable {now : Time} {d d' d'' : Db} {env : Env}

/-! ## Creation keys -/

/-- **An occurrence's key names its source and its number**, whatever characters the id has. -/
theorem creationKey_inj {i i' : OpaqueId} {k k' : Nat} (h : creationKey i k = creationKey i' k') : i = i' ∧ k = k' := by
  have hsplit : ∀ (i : OpaqueId) (k : Nat),
      creationKey i k = "source:" ++ i ++ ":occurrence" ++ String.singleton ':' ++ toString k := by
    intro i k
    have hmark : ":occurrence:" = ":occurrence" ++ String.singleton ':' := by decide
    rw [creationKey, hmark, ← String.append_assoc]
  rw [hsplit, hsplit] at h
  obtain ⟨hi, hk⟩ := Numeral.suffix_inj (by decide) h
  rw [String.append_left_inj, String.append_right_inj] at hi
  exact ⟨hi, hk⟩

/-- **No key of a group made by hand is one of an occurrence.** -/
theorem manualKey_ne_creationKey (g i : OpaqueId) (k : Nat) : manualKey g ≠ creationKey i k := by
  intro h
  have hl := congrArg (fun s : String => s.toList.head?) h
  simp [manualKey, creationKey] at hl

/-! ## The log -/

/-- The groups a source made, in order. -/
def madeBy (groups : List GroupRow) (i : OpaqueId) : List GroupRow :=
  groups.filter (fun g => decide (g.sourceId = some i))

/-- What an occurrence gives its group. -/
def SourceRow.occurrence (s : SourceRow) (k : Nat) : String × Option JsonText :=
  (creationKey s.sourceId k, s.tasks[k % s.tasks.length]?)

/-- The settings of a source: what no call changes. -/
def SourceRow.fixed (s : SourceRow) : SourceRow := { s with virtualFinish := 0, cursor := 0 }

/-- The log of creations: groups numbered from one, and for each source its occurrences so far. -/
structure Logged (groups : List GroupRow) (sources : List SourceRow) (next : Nat) : Prop where
  sequence : groups.map (·.sequence) = List.range' 1 groups.length
  next : next = groups.length + 1
  source : ∀ g ∈ groups, ∀ i ∈ g.sourceId, ∃ s ∈ sources, s.sourceId = i
  manual : ∀ g ∈ groups, g.sourceId = none → g.creationKey = manualKey g.groupId
  occurrences : ∀ s ∈ sources, (madeBy groups s.sourceId).map (fun g => (g.creationKey, some g.task)) =
    (List.range s.cursor).map s.occurrence

/-- The log of a database. -/
abbrev Db.Logged (d : Db) : Prop := Aether.Logged d.groups d.sources d.scheduler.nextGroupSequence

section
variable {groups : List GroupRow} {sources : List SourceRow} {next : Nat} (h : Logged groups sources next)
include h

/-- The cursor counts the groups a source made. -/
theorem Logged.cursor {s : SourceRow} (hs : s ∈ sources) : (madeBy groups s.sourceId).length = s.cursor := by
  have hl := congrArg List.length (h.occurrences s hs)
  rwa [List.length_map, List.length_map, List.length_range] at hl

/-- The `k`-th group of a source carries its `k`-th occurrence. -/
theorem Logged.made {s : SourceRow} (hs : s ∈ sources) {k : Nat} {g : GroupRow}
    (hg : (madeBy groups s.sourceId)[k]? = some g) : k < s.cursor ∧ (g.creationKey, some g.task) = s.occurrence k := by
  have hk := congrArg (fun l : List (String × Option JsonText) => l[k]?) (h.occurrences s hs)
  simp only [List.getElem?_map, hg, Option.map_some] at hk
  obtain ⟨j, hj, he⟩ := Option.map_eq_some_iff.1 hk.symm
  obtain ⟨hlt, hjk⟩ := List.getElem?_eq_some_iff.1 hj
  rw [List.length_range] at hlt
  rw [List.getElem_range] at hjk
  exact ⟨hlt, hjk ▸ he.symm⟩

/-- **The key of a source's next occurrence is free.** -/
theorem Logged.free (hkey : (sources.map (·.sourceId)).Nodup) {s : SourceRow} (hs : s ∈ sources) :
    ∀ g ∈ groups, g.creationKey ≠ creationKey s.sourceId s.cursor := by
  intro g hg he
  cases hsrc : g.sourceId with
  | none => exact manualKey_ne_creationKey _ _ _ ((h.manual g hg hsrc).symm.trans he)
  | some i =>
    obtain ⟨s', hs', hi⟩ := h.source g hg i hsrc
    have hm : g ∈ madeBy groups s'.sourceId := by
      rw [madeBy, List.mem_filter, decide_eq_true_eq, hsrc, hi]
      exact ⟨hg, rfl⟩
    obtain ⟨k, hk⟩ := List.getElem?_of_mem hm
    obtain ⟨hlt, hocc⟩ := h.made hs' hk
    obtain ⟨hid, hcur⟩ := creationKey_inj ((congrArg Prod.fst hocc).symm.trans he)
    rw [Rows.eq_of_key _ hkey hs' hs hid] at hlt
    omega

theorem Logged.find_none (hkey : (sources.map (·.sourceId)).Nodup) {s : SourceRow} (hs : s ∈ sources) :
    groups.find? (fun g => decide (g.creationKey = creationKey s.sourceId s.cursor)) = none := by
  rw [List.find?_eq_none]
  intro g hg he
  exact h.free hkey hs g hg (of_decide_eq_true he)

/-- One more group, numbered next. -/
theorem Logged.sequence_append {g : GroupRow} (hg : g.sequence = next) :
    (groups ++ [g]).map (·.sequence) = List.range' 1 (groups ++ [g]).length := by
  rw [List.map_append, h.sequence, List.length_append, List.length_singleton, List.range'_1_concat, List.map_singleton, hg,
    h.next, Nat.add_comm]

end

theorem madeBy_append (groups : List GroupRow) (g : GroupRow) (i : OpaqueId) :
    madeBy (groups ++ [g]) i = madeBy groups i ++ if g.sourceId = some i then [g] else [] := by
  rw [madeBy, List.filter_append, madeBy]
  by_cases hg : g.sourceId = some i <;> simp [hg]

theorem madeBy_fixed (groups : List GroupRow) (i : OpaqueId) :
    madeBy (groups.map GroupRow.fixed) i = (madeBy groups i).map GroupRow.fixed := by
  rw [madeBy, List.filter_map]
  rfl

/-- The log looks at no state of a group. -/
theorem Logged.of_fixed {groups groups' : List GroupRow} {sources : List SourceRow} {next : Nat}
    (h : Logged groups sources next) (hg : groups'.map GroupRow.fixed = groups.map GroupRow.fixed) :
    Logged groups' sources next := by
  have hmap : ∀ {α : Type} (f : GroupRow → α), (∀ g, f g.fixed = f g) → groups'.map f = groups.map f := by
    intro α f hf
    have he := congrArg (List.map f) hg
    simpa only [List.map_map, Function.comp_def, hf] using he
  have hlen : groups'.length = groups.length := by
    have he := congrArg List.length hg
    rwa [List.length_map, List.length_map] at he
  have hmem : ∀ g' ∈ groups', ∃ g ∈ groups, g.fixed = g'.fixed := fun g' hg' =>
    List.mem_map.1 (hg ▸ List.mem_map_of_mem hg')
  refine ⟨?_, ?_, fun g' hg' i hi => ?_, fun g' hg' hn => ?_, fun s hs => ?_⟩
  · rw [hmap _ fun _ => rfl, h.sequence, hlen]
  · rw [h.next, hlen]
  · obtain ⟨g, hgm, he⟩ := hmem g' hg'
    have hsrc : g.sourceId = g'.sourceId := congrArg (·.sourceId) he
    exact h.source g hgm i (hsrc ▸ hi)
  · obtain ⟨g, hgm, he⟩ := hmem g' hg'
    have hsrc : g.sourceId = g'.sourceId := congrArg (·.sourceId) he
    have hkey : g.creationKey = g'.creationKey := congrArg (·.creationKey) he
    have hid : g.groupId = g'.groupId := congrArg (·.groupId) he
    rw [← hkey, ← hid]
    exact h.manual g hgm (hsrc.trans hn)
  · rw [← h.occurrences s hs]
    have hfilter := congrArg (fun l => (madeBy l s.sourceId).map (fun g => (g.creationKey, some g.task))) hg
    simp only [madeBy_fixed, List.map_map] at hfilter
    exact hfilter

/-! ## Steps of the log -/

/-- The kind a call asks a group of, where it may create one for a source. -/
def Call.serves : Call → Option (Option Kind)
  | .createNextGroup kind _ _ => some kind
  | .leaseOrCreateNextCompatible _ _ _ _ => some none
  | _ => none

/-- **What a commit does to the log**: nothing, one more source, or one more group. -/
inductive LogStep (c : Call) (d d' : Db) : Prop
  | quiet (groups : d'.groups.map GroupRow.fixed = d.groups.map GroupRow.fixed) (sources : d'.sources = d.sources)
      (next : d'.scheduler.nextGroupSequence = d.scheduler.nextGroupSequence)
  | registered (spec : EnvironmentSourceSpec) (new : d.source? spec.sourceId = none)
      (groups : d'.groups.map GroupRow.fixed = d.groups.map GroupRow.fixed)
      (sources : d'.sources = d.sources ++ [spec.row (minVirtualFinish d.toTables) 0])
      (next : d'.scheduler.nextGroupSequence = d.scheduler.nextGroupSequence)
  | made (kind : Option Kind) (asked : c.serves = some kind) (source : SourceRow)
      (served : (servedSources d.toTables kind).head? = some source) (g : GroupRow)
      (groups : d'.groups = d.groups ++ [g]) (sequence : g.sequence = d.scheduler.nextGroupSequence)
      (of : g.sourceId = some source.sourceId) (size : g.groupSize = source.groupSize)
      (occurrence : (g.creationKey, some g.task) = source.occurrence source.cursor)
      (sources : d'.sources = Rows.set (·.sourceId) source.sourceId SourceRow.next d.sources)
      (next : d'.scheduler.nextGroupSequence = d.scheduler.nextGroupSequence + 1)
  | manual (g : GroupRow) (groups : d'.groups = d.groups ++ [g]) (sequence : g.sequence = d.scheduler.nextGroupSequence)
      (of : g.sourceId = none) (key : g.creationKey = manualKey g.groupId) (sources : d'.sources = d.sources)
      (next : d'.scheduler.nextGroupSequence = d.scheduler.nextGroupSequence + 1)

theorem LogStep.of_rows {c : Call} (h : ∀ k ∈ [Table.fixedGroups, .sources, .scheduler], d'.rows k = d.rows k) :
    LogStep c d d' := by
  have hs : d'.scheduler = d.scheduler := h .scheduler (by decide)
  exact .quiet (h .fixedGroups (by decide)) (h .sources (by decide)) (by rw [hs])

theorem mem_servedSources {t : Tables} {kind : Option Kind} {s : SourceRow} :
    s ∈ servedSources t kind ↔ s ∈ t.sources ∧ s.enabled = true ∧ kind.all (fun k => decide (s.kind = k)) = true := by
  rw [servedSources, Rows.mem_orderBy, List.mem_filter, Bool.and_eq_true]

theorem mem_of_served {t : Tables} {kind : Option Kind} {s : SourceRow} (h : (servedSources t kind).head? = some s) :
    s ∈ t.sources := (mem_servedSources.1 (List.mem_of_mem_head? h)).1

/-- **`create_next_group` creates, or finds no source**: the branch for a group already there is never taken. -/
theorem createNext_logStep {c : Call} {kind : Option Kind} (hc : c.serves = some kind) {ids : Nat → OpaqueId} {t : Time}
    {r : Option CreatedGroup} (hl : d.Logged) (h : CreateNext env kind ids t d r d') : LogStep c d d' := by
  cases h with
  | idle => exact .of_rows fun _ _ => rfl
  | existing source hs g hg =>
    rw [hl.find_none d.ok.sources.key (mem_of_served hs)] at hg
    cases hg
  | made source hs hg active ha hid hd task htask r _ h =>
    obtain ⟨⟨as, _, hcr⟩, hsch, hsrc⟩ := returns_newGroup h
    refine .made kind hc source hs _ hcr.groups rfl rfl rfl ?_ hsrc (by rw [hsch])
    rw [SourceRow.occurrence, htask]
    rfl

theorem register_logStep {c : Call} {spec : EnvironmentSourceSpec} {u : Unit}
    (h : Returns (registerSchedulerSourceBody spec) d u d') : LogStep c d d' := by
  simp only [registerSchedulerSourceBody, returns_bind, returns_tables] at h
  obtain ⟨_, _, ⟨rfl, rfl⟩, h⟩ := h
  split at h
  · rw [returns_raiseIf] at h
    rw [h.2]
    exact .of_rows fun _ _ => rfl
  · rename_i hnone
    rw [returns_exec] at h
    exact .registered spec hnone (by rw [h]; rfl) (by rw [h]; rfl) (by rw [h]; rfl)

/-- **Every commit takes one step of the log.** -/
theorem commit_logStep {c : Call} (hl : d.Logged) (h : Commit env now d d' c) : LogStep c d d' := by
  by_cases hc : ∀ k ∈ [Table.fixedGroups, .sources, .scheduler], k ∉ c.writes
  · exact .of_rows fun k hk => commit_rows h k (hc k hk)
  cases c
  case configureScheduler lag preference =>
    have hrows : ∀ k ∈ [Table.fixedGroups, .sources], d'.rows k = d.rows k := fun k hk =>
      commit_rows h k (by simp only [Call.writes]; revert k; decide)
    obtain ⟨u, h⟩ := h
    simp only [configureSchedulerBody, returns_bind, returns_exec] at h
    obtain ⟨_, d₁, h₁, h₂⟩ := h
    have hsch : d'.scheduler = d₁.scheduler :=
      writes_reconcileStaleWork (S := reapTables) now (List.Subset.refl _) _ _ _ h₂ .scheduler (by decide)
    exact .quiet (hrows .fixedGroups (by decide)) (hrows .sources (by decide)) (by rw [hsch, h₁]; rfl)
  case registerSchedulerSource =>
    obtain ⟨_, h⟩ := h
    exact register_logStep h
  case createNextGroup kind ids artifacts =>
    obtain ⟨_, h⟩ := h
    exact createNext_logStep rfl hl (returns_createNextGroupBody h)
  case createGroup =>
    obtain ⟨first, rest, rfl, hi, hg, u, h⟩ := h
    obtain ⟨hcr, hsch, hsrc⟩ := returns_createGroupBody hi (groupId_of_inputs hg) h
    exact .manual _ hcr.groups rfl rfl rfl hsrc (by rw [hsch])
  case leaseOrCreateNextCompatible =>
    rcases h with ⟨_, _, _, h⟩ | ⟨_, h⟩ | ⟨_, h⟩
    · have hw := writes_leaseNextBody (S := .requests :: .fixedLeases :: reapTables) env _ _ _ now (by decide)
        (by decide) (by decide) _ _ _ h
      exact .of_rows fun k hk => hw k (by revert k; decide)
    · exact .of_rows fun k _ => writes_leaseRequestCanGenerateBody (S := []) _ _ _ _ _ h k List.not_mem_nil
    · exact createNext_logStep rfl hl (returns_createNextGroupBody h)
  all_goals exact absurd (by simp only [Call.writes]; decide) hc

/-- A step keeps the sources there are, settings and all. -/
theorem LogStep.sources {c : Call} (h : LogStep c d d') :
    d.sources.map SourceRow.fixed <+: d'.sources.map SourceRow.fixed := by
  cases h with
  | quiet _ hs => exact hs ▸ List.prefix_rfl
  | registered spec _ _ hs =>
    rw [hs, List.map_append]
    exact List.prefix_append _ _
  | made kind _ source _ g _ _ _ _ _ hs =>
    have hsame : d'.sources.map SourceRow.fixed = d.sources.map SourceRow.fixed := by
      rw [hs, Rows.map_set _ SourceRow.fixed _ SourceRow.next _ fun _ _ _ => rfl]
    exact hsame ▸ List.prefix_rfl
  | manual g _ _ _ _ hs => exact hs ▸ List.prefix_rfl

/-- **A step keeps the log.** -/
theorem LogStep.logged {c : Call} (h : LogStep c d d') (hl : d.Logged) : d'.Logged := by
  cases h with
  | quiet hg hs hn =>
    unfold Db.Logged
    rw [hs, hn]
    exact hl.of_fixed hg
  | registered spec hnew hg hs hn =>
    have hold : ∀ s ∈ d.sources, s ∈ d'.sources := fun s hm => hs ▸ List.mem_append_left _ hm
    have hl' : Aether.Logged d.groups d'.sources d'.scheduler.nextGroupSequence := by
      refine ⟨hl.sequence, hn ▸ hl.next, fun g hm i hi => ?_, hl.manual, fun s hm => ?_⟩
      · obtain ⟨s, hm, hid⟩ := hl.source g hm i hi
        exact ⟨s, hold s hm, hid⟩
      · rw [hs, List.mem_append, List.mem_singleton] at hm
        rcases hm with hm | rfl
        · exact hl.occurrences s hm
        · -- no group has a source that is not there yet
          have hnil : madeBy d.groups spec.sourceId = [] := by
            rw [madeBy, List.filter_eq_nil_iff]
            intro g hm he
            obtain ⟨s, hsm, hid⟩ := hl.source g hm spec.sourceId (of_decide_eq_true he)
            exact Rows.get_eq_none _ |>.1 hnew s hsm hid
          show (madeBy d.groups spec.sourceId).map _ = _
          rw [hnil]
          rfl
    exact hl'.of_fixed hg
  | made kind _ source hserved g hg hseq hof _ hocc hs hn =>
    have hmem := mem_of_served hserved
    unfold Db.Logged
    rw [hg, hn]
    refine ⟨hl.sequence_append hseq, ?_, fun r hm i hi => ?_, fun r hm hnone => ?_, fun s hm => ?_⟩
    · rw [hl.next, List.length_append, List.length_singleton]
    · have hr : ∃ s ∈ d.sources, s.sourceId = i := by
        rw [List.mem_append, List.mem_singleton] at hm
        rcases hm with hm | rfl
        · exact hl.source r hm i hi
        · exact ⟨source, hmem, Option.some.inj (hof.symm.trans hi)⟩
      obtain ⟨s, hm, rfl⟩ := hr
      have hids : s.sourceId ∈ d'.sources.map (·.sourceId) := by
        rw [hs, Rows.map_set _ (fun s : SourceRow => s.sourceId) _ SourceRow.next _ fun _ _ _ => rfl]
        exact List.mem_map_of_mem hm
      exact List.mem_map.1 hids
    · rw [List.mem_append, List.mem_singleton] at hm
      rcases hm with hm | rfl
      · exact hl.manual r hm hnone
      · rw [hof] at hnone
        cases hnone
    · rw [madeBy_append, List.map_append]
      rw [hs, Rows.mem_set] at hm
      rcases hm with ⟨s₀, hm, hid, rfl⟩ | ⟨hm, hid⟩
      · have he : s₀ = source := Rows.eq_of_key _ d.ok.sources.key hm hmem hid
        subst he
        show (madeBy d.groups s₀.sourceId).map _ ++ (if g.sourceId = some s₀.sourceId then [g] else []).map _ =
          (List.range (s₀.cursor + 1)).map _
        rw [if_pos hof, List.map_singleton, hocc, hl.occurrences s₀ hm, List.range_succ, List.map_append,
          List.map_singleton]
        rfl
      · have hne : g.sourceId ≠ some s.sourceId := fun he => hid (Option.some.inj (he.symm.trans hof))
        rw [if_neg hne, List.map_nil, List.append_nil]
        exact hl.occurrences s hm
  | manual g hg hseq hof hkey hs hn =>
    unfold Db.Logged
    rw [hg, hn, hs]
    refine ⟨hl.sequence_append hseq, ?_, fun r hm i hi => ?_, fun r hm hnone => ?_, fun s hm => ?_⟩
    · rw [hl.next, List.length_append, List.length_singleton]
    · rw [List.mem_append, List.mem_singleton] at hm
      rcases hm with hm | rfl
      · exact hl.source r hm i hi
      · rw [hof] at hi
        cases hi
    · rw [List.mem_append, List.mem_singleton] at hm
      rcases hm with hm | rfl
      · exact hl.manual r hm hnone
      · exact hkey
    · have hne : g.sourceId ≠ some s.sourceId := by
        rw [hof]
        exact Option.some_ne_none _ |>.symm
      rw [madeBy_append, if_neg hne, List.append_nil]
      exact hl.occurrences s hm

/-! ## Every run -/

theorem logged_empty : Db.empty.Logged :=
  ⟨rfl, rfl, fun _ hg => absurd hg List.not_mem_nil, fun _ hg => absurd hg List.not_mem_nil,
    fun _ hs => absurd hs List.not_mem_nil⟩

/-- **A run from a database with its log keeps it**, and the settings of the sources there are. -/
theorem runFrom_logged (env : Env) (steps : List Step) {w : World} (h : w.db.Logged) :
    (runFrom env w steps).db.Logged ∧
      w.db.sources.map SourceRow.fixed <+: (runFrom env w steps).db.sources.map SourceRow.fixed :=
  runFrom_holds (I := fun _ d => d.Logged) (R := fun d d' => d.sources.map SourceRow.fixed <+: d'.sources.map SourceRow.fixed)
    (fun _ _ _ _ h => h) (fun _ => List.prefix_rfl) (fun _ _ _ h₁ h₂ => h₁.trans h₂) steps w
    (fun _ _ _ _ _ hl hc => ⟨(commit_logStep hl hc).logged hl, (commit_logStep hl hc).sources⟩) h

theorem reached_logged (env : Env) (steps : List Step) : (reached env steps).db.Logged :=
  (runFrom_logged env steps logged_empty).1

end Aether
