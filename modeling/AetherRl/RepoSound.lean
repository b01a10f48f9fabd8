import AetherRl.RepoGroupSound
/-!
# RepoSound — every commit keeps the invariant

Each transaction of each call leads from a sound state to a sound one, and no life loses what it recorded: `Grows`.  So
every world a run reaches is sound at its clock, and whatever is recorded there stays recorded in every continuation.
-/
namespace Aether

open Txn (Returns Writes returns_bind returns_pure)
open Tables Repo
open Life (Moves Move)

variable {now : Time}

/-! ## The order of a run -/

/-- What no call takes back: the lives there are, each in its order, and the groups. -/
structure Grows (t t' : Tables) : Prop where
  lives : ∀ i x, t.life? i = some x → ∃ y, t'.life? i = some y ∧ Life.Le x y
  groups : t.groups.map GroupRow.fixed <+: t'.groups.map GroupRow.fixed

theorem Grows.refl (t : Tables) : Grows t t := ⟨fun _ x hx => ⟨x, hx, Life.Le.refl x⟩, List.prefix_rfl⟩

theorem Grows.trans {t t' t'' : Tables} (h₁ : Grows t t') (h₂ : Grows t' t'') : Grows t t'' := by
  refine ⟨fun i x hx => ?_, h₁.groups.trans h₂.groups⟩
  obtain ⟨y, hy, hxy⟩ := h₁.lives i x hx
  obtain ⟨z, hz, hyz⟩ := h₂.lives i y hy
  exact ⟨z, hz, hxy.trans hyz⟩

theorem Advances.grows {G : OpaqueId → Prop} {t t' : Tables} (h : Advances now G t t') (hs : Sound now t)
    (hg : t'.groups.map GroupRow.fixed = t.groups.map GroupRow.fixed) : Grows t t' := by
  refine ⟨fun i x hx => ?_, hg ▸ List.prefix_rfl⟩
  obtain ⟨y, hy, hm, _⟩ := h.moved i x hx
  exact ⟨y, hy, (hm.wf_le (hs.wf i x hx)).2⟩

theorem Created.grows {d d' : Db} {g : GroupRow} {rows : List AssignmentRow}
    (h : Created d.toTables d'.toTables g rows) : Grows d.toTables d'.toTables := by
  refine ⟨fun i x hx => ⟨x, h.old hx, Life.Le.refl x⟩, ?_⟩
  rw [h.groups, List.map_append]
  exact List.prefix_append _ _

/-! ## Every commit -/

section
variable {α : Type} {d d' : Db}

theorem Steady.commits {m : Body α} (hm : Steady now m) (hs : Sound now d.toTables) (h : Commits m d d') :
    Sound now d'.toTables ∧ Advances now (fun _ => True) d.toTables d'.toTables := by
  obtain ⟨a, h⟩ := h
  exact hm d a d' hs h

/-- **A call that writes no life and no group** keeps the invariant. -/
theorem commit_quiet {env : Env} {c : Call} (hs : Sound now d.toTables) (h : Commit env now d d' c)
    (hq : ∀ k ∈ Table.groups :: lifeTables, k ∉ c.writes) :
    Sound now d'.toTables ∧ Advances now (fun _ => True) d.toTables d'.toTables :=
  hs.of_rows fun k hk => commit_rows h k (hq k hk)

theorem steady_reconcileStaleWork : Steady now (reconcileStaleWork now) :=
  fun _ _ _ hs h => (reconcileStaleWork_sound hs h).1

theorem steady_activate (i : OpaqueId) (v : Nat) : Steady now (activate i v now) := by
  unfold activate
  refine .bind (steady_readOnly writes_tables) fun t => .bind (steady_readOnly (Writes.orRaise _ _)) fun p => ?_
  refine .bind (steady_readOnly (Writes.raiseIf _ _)) fun _ => .bind ?_ fun _ => steady_reconcileStaleWork
  exact .of_writes (writes_setRun (S := [.run]) _ (by decide)) (by decide)

theorem steady_expireBody (env : Env) : Steady now (expireBody env now) :=
  .bind steady_reconcileStaleWork fun _ => steady_expireLeasesBody env now

theorem steady_recomputeGroups : Steady now recomputeGroups := by
  intro d u d' hs h
  obtain ⟨hsync, hl⟩ := synced_recomputeGroups h
  have hfix := writes_recomputeGroups (S := [.groups]) (by decide) d u d' h .fixedGroups (by decide)
  have ha : Advances now (fun _ => True) d.toTables d'.toTables := .of_same hl
  exact ⟨hs.advance ha hfix hsync, ha⟩

theorem steady_claimPendingResultsBody (n : Nat) : Steady now (claimPendingResultsBody n) := by
  unfold claimPendingResultsBody
  refine .bind (steady_readOnly writes_tables) fun t => .bind (steady_setResults fun r => ?_) fun _ => .pure _
  split <;> rfl

theorem steady_markResultProcessedBody (i : OpaqueId) : Steady now (markResultProcessedBody i) := by
  unfold markResultProcessedBody
  refine .bind (steady_readOnly writes_tables) fun t => .bind (steady_setResults fun r => ?_) fun _ => ?_
  · split <;> rfl
  · exact steady_readOnly (Writes.raiseIf _ _)

theorem steady_recordProcessedGroupBody (p : ProcessedGroupArgs) (t : Time) :
    Steady now (recordProcessedGroupBody p t) := by
  unfold recordProcessedGroupBody
  refine .bind (steady_readOnly writes_tables) fun found => ?_
  split
  · exact steady_readOnly (Writes.raiseIf _ _)
  · refine .bind (steady_readOnly writes_tables) fun t => .bind (steady_readOnly (Writes.raiseIf _ _)) fun _ => ?_
    refine .bind (.of_writes (writes_insertProcessedGroup (S := [.processedGroups]) _ (by decide)) (by decide)) fun _ => ?_
    refine .bind (.of_writes (writes_insertProcessedRollouts (S := [.processedRollouts]) _ (by decide)) (by decide))
      fun _ => ?_
    refine .bind (steady_readOnly writes_tables) fun t => steady_setResults fun r => ?_
    split <;> rfl

/-- A commit that advances the lives there are and creates no group, or one that creates a group. -/
def AdvancesOrCreates (now : Time) (d d' : Db) : Prop :=
  (Sound now d'.toTables ∧ Advances now (fun _ => True) d.toTables d'.toTables ∧
    d'.groups.map GroupRow.fixed = d.groups.map GroupRow.fixed) ∨
  ∃ g rows, Created d.toTables d'.toTables g rows

theorem AdvancesOrCreates.sound (h : AdvancesOrCreates now d d') (hs : Sound now d.toTables) :
    Sound now d'.toTables ∧ Grows d.toTables d'.toTables := by
  rcases h with ⟨hs', ha, hg⟩ | ⟨g, rows, hc⟩
  · exact ⟨hs', ha.grows hs hg⟩
  · exact ⟨hc.sound hs, hc.grows⟩

theorem createNextGroupBody_cases {env : Env} {kind : Option Kind} {ids : Nat → OpaqueId} {artifacts : Artifacts}
    {t : Time} (hs : Sound now d.toTables) (h : Commits (createNextGroupBody env kind ids artifacts t) d d') :
    AdvancesOrCreates now d d' := by
  obtain ⟨r, h⟩ := h
  rcases (returns_createNextGroupBody h).created with hsame | hcreated
  · obtain ⟨hs', ha⟩ := hs.of_rows hsame
    have hg : d'.groups = d.groups := hsame .groups List.mem_cons_self
    exact Or.inl ⟨hs', ha, by rw [hg]⟩
  · exact Or.inr hcreated

theorem createNextGroupBody_sound {env : Env} {kind : Option Kind} {ids : Nat → OpaqueId} {artifacts : Artifacts}
    {t : Time} (hs : Sound now d.toTables) (h : Commits (createNextGroupBody env kind ids artifacts t) d d') :
    Sound now d'.toTables ∧ Grows d.toTables d'.toTables := (createNextGroupBody_cases hs h).sound hs

/-- **A call that creates no group advances the lives there are.** -/
theorem commit_advances {env : Env} {c : Call} (hs : Sound now d.toTables) (h : Commit env now d d' c)
    (hc : .fixedGroups ∉ c.writes) :
    Sound now d'.toTables ∧ Advances now (fun _ => True) d.toTables d'.toTables := by
  cases c
  case recordAndActivatePolicy =>
    obtain ⟨verified, _, h⟩ := h
    refine Steady.commits (.bind ?_ fun _ => steady_activate _ _) hs h
    exact .of_writes (writes_recordPolicyInTransaction (S := [.policies]) _ _ _ (by decide)) (by decide)
  case activatePolicy =>
    refine Steady.commits ?_ hs h
    unfold activatePolicyBody
    refine .bind (steady_readOnly writes_tables) fun t => .bind (steady_readOnly (Writes.orRaise _ _)) fun p => ?_
    exact .bind (steady_readOnly (writes_verifyPolicyRow _ _ _)) fun _ => .bind (steady_activate _ _) fun _ => .pure _
  case configureScheduler =>
    refine Steady.commits (.bind ?_ fun _ => steady_reconcileStaleWork) hs h
    exact .of_writes (writes_setScheduler_lag (S := [.scheduler, .maxPolicyLag]) _ (by decide) (by decide)) (by decide)
  case recordHeartbeat => exact (steady_heartbeatBody _ _).commits hs h
  case releaseUnofferedLease =>
    obtain ⟨_, h⟩ := h
    rw [returns_releaseUnofferedLeaseBody h]
    exact ⟨hs, .refl _⟩
  case leaseNextCompatible => exact (steady_leaseNextBody env _ _ _).commits hs h.2
  case createLease =>
    rcases h with h | h
    · exact (steady_expireBody env).commits hs h
    · exact (steady_createLeaseBody _ _ _ _ _).commits hs h.2
  case renewLease => exact (steady_renewBody _).commits hs h
  case expireLeases => exact (steady_expireBody env).commits hs h
  case acceptResult =>
    obtain ⟨_, _, _, h⟩ := h
    exact (steady_acceptResultBody _ _ _ _ _).commits hs h
  case acceptFailure => exact (steady_acceptFailureBody env _ _).commits hs h
  case claimPendingResults => exact (steady_claimPendingResultsBody _).commits hs h
  case markResultProcessed => exact (steady_markResultProcessedBody _).commits hs h
  case recordProcessedGroup => exact (steady_recordProcessedGroupBody _ _).commits hs h
  case recover =>
    rcases h with h | h | h
    · exact (steady_setResults fixed_unclaim).commits hs h
    · exact (steady_expireBody env).commits hs h
    · exact steady_recomputeGroups.commits hs h
  case createNextGroup | createGroup | leaseOrCreateNextCompatible => exact absurd (by simp [Call.writes, groupTables]) hc
  all_goals exact commit_quiet hs h (by simp only [Call.writes]; decide)

/-- **A commit advances the lives there are, or creates a group.** -/
theorem commit_cases {env : Env} {c : Call} (hs : Sound now d.toTables) (h : Commit env now d d' c) :
    AdvancesOrCreates now d d' := by
  by_cases hc : .fixedGroups ∈ c.writes
  · cases c
    case createNextGroup => exact createNextGroupBody_cases hs h
    case createGroup =>
      obtain ⟨first, rest, rfl, hi, hg, u, h⟩ := h
      exact Or.inr ⟨_, _, (returns_createGroupBody hi (groupId_of_inputs hg) h).1⟩
    case leaseOrCreateNextCompatible =>
      rcases h with ⟨_, i, h⟩ | h | h
      · obtain ⟨hs', ha⟩ := (steady_leaseNextBody env _ _ i).commits hs h
        obtain ⟨_, h⟩ := h
        have hw := writes_leaseNextBody (S := .requests :: .fixedLeases :: reapTables) env _ _ _ now (by decide)
          (by decide) (by decide) d _ d' h
        exact Or.inl ⟨hs', ha, hw .fixedGroups (by decide)⟩
      · obtain ⟨_, h⟩ := h
        have hw := fun k => writes_leaseRequestCanGenerateBody (S := []) _ _ d _ d' h k List.not_mem_nil
        obtain ⟨hs', ha⟩ := hs.of_rows fun k _ => hw k
        exact Or.inl ⟨hs', ha, hw .fixedGroups⟩
      · exact createNextGroupBody_cases hs h
    all_goals exact absurd hc (by simp only [Call.writes]; decide)
  · obtain ⟨hs', ha⟩ := commit_advances hs h hc
    exact Or.inl ⟨hs', ha, commit_rows h .fixedGroups hc⟩

/-- **Every commit leads from a sound state to a sound one**, and takes back nothing. -/
theorem commit_sound {env : Env} {c : Call} (hs : Sound now d.toTables) (h : Commit env now d d' c) :
    Sound now d'.toTables ∧ Grows d.toTables d'.toTables := (commit_cases hs h).sound hs

end

/-! ## Runs -/

theorem Sound.mono {now later : Time} {t : Tables} (h : Sound now t) (hn : now ≤ later) : Sound later t :=
  ⟨fun i x hx => (h.wf i x hx).mono hn, h.synced, h.roster⟩

theorem sound_empty (now : Time) : Sound now Db.empty.toTables := by
  have hl : ∀ i, Db.empty.toTables.life? i = none := fun _ => rfl
  refine ⟨fun i x hx => ?_, fun r hr => absurd hr List.not_mem_nil, fun r hr => absurd hr List.not_mem_nil⟩
  rw [hl] at hx
  cases hx

/-- A sound world, at its clock. -/
abbrev World.Sound (env : Env) (w : World) : Prop := Aether.Sound (w.now env) w.db.toTables

/-- **A run from a sound world stays sound and takes back nothing.** -/
theorem runFrom_sound (env : Env) (steps : List Step) {w : World} (h : w.Sound env) :
    (runFrom env w steps).Sound env ∧ Grows w.db.toTables (runFrom env w steps).db.toTables :=
  runFrom_holds (I := fun now d => Aether.Sound now d.toTables) (R := fun d d' => Grows d.toTables d'.toTables)
    (fun _ _ _ hn h => h.mono hn) (fun _ => Grows.refl _) (fun _ _ _ => Grows.trans) steps w
    (fun _ _ _ _ _ hs hc => commit_sound hs hc) h

/-- **Every reached world is sound.** -/
theorem reached_sound (env : Env) (steps : List Step) : (reached env steps).Sound env :=
  (runFrom_sound env steps (sound_empty _)).1

end Aether
