import AetherRl.QueueRecovery
/-!
# QueueCrash — a run of the result processor with crashes

What one event keeps, and from it what a run keeps, where what the run publishes is known.
-/
namespace Aether
namespace Queue

open Txn (Wp wp_bind)
open Repo

variable {F : Type} {p : Processor F} {known : List (ProcessedGroupPayload F)} {r r' : Running} {e : Event F}

/-- What comes in is valid. -/
def Event.Valid (c : Codec) : Event F → Prop
  | .call step => ∀ m ∈ step.call.manifests, m.Valid c
  | _ => True

/-! ## One event -/

/-- What a running processor relies on. -/
def Kept (p : Processor F) (known : List (ProcessedGroupPayload F)) (r : Running) : Prop :=
  Consistent p known r.alive r.store

theorem Consistent.within {alive : Bool} {s : Store} (h : Consistent p known alive s) (cut : Cut) :
    Consistent p known alive (within cut s) := by
  refine ⟨h.regular.of_db rfl rfl, fun g hg => ?_, fun b hb => (h.batches b hb).of_read rfl, h.groupFiles, h.batchFiles,
    h.live, h.incoming⟩
  obtain ⟨x, hx, ha⟩ := h.groups g hg
  exact ⟨x, hx, ha.of_store rfl rfl⟩

/-- A turn looks for a ready group wherever it dies later. -/
theorem readyGroups_read (w : World) :
    (readyGroups 1 w).1 = ((unprocessedReadyGroups w.db.toTables).take 1).mapM (readyGroup w.db.toTables) := by
  simp only [readyGroups, raiseUnless_bind, if_pos (le_refl 1)]
  simp only [Aether.select, bind, StateT.bind, tables, Except.bind]
  generalize ((unprocessedReadyGroups w.db.toTables).take 1).mapM (readyGroup w.db.toTables) = found
  cases found <;> rfl

theorem attempt_within (processing : ∀ group, Processing F group) (cut : Cut) (s : Store) :
    attempt p processing (Queue.within cut s) = attempt p processing s := by
  rw [attempt, attempt, readyGroups_read, readyGroups_read]
  rfl

/-- What stops a turn: what may stop any, a ready group that is not prepared, or more rollouts waiting than one statement
counts. -/
inductive Stops (p : Processor F) (r : Running) : Event F → ProcessError → Prop
  | excused {e : Event F} {err : ProcessError} : Excused err → Stops p r e err
  | unprepared {cut : Cut} {artifacts : Artifacts} {processing : ∀ group, Processing F group} {group : ReadyGroup}
      {rest : List ReadyGroup} {err : ProcessError} : (readyGroups 1 r.store.world).1 = .ok (group :: rest) →
      Unprepared p group (processing group) err → Stops p r (.process cut artifacts processing) err
  | members {cut : Cut} {artifacts : Artifacts} {err : ProcessError} :
      TooMany (pendingProcessedRollouts r.store.world.db.toTables).length err → Stops p r (.emit cut artifacts) err

theorem Unprepared.ne_integrity {group : ReadyGroup} {made : Processing F group} {err : ProcessError}
    (h : Unprepared p group made err) : err ≠ .repository .integrity := by
  cases h <;> exact fun he => by cases he

/-- A turn that returns leaves its processor running, and one that raises was its last. -/
theorem ends_of_wp {m : Program Unit} {cut : Cut} {s : Store} {X : ProcessError → Prop}
    (h : Wp m (fun _ => Ends p known true (Queue.within cut s))
      (fun e s' => Ends p known false (Queue.within cut s) s' ∧ X e) (Queue.within cut s)) :
    Ends p known (m (Queue.within cut s)).1.isOk s (m (Queue.within cut s)).2 ∧
      ∀ err, (m (Queue.within cut s)).1 = .error err → X err := by
  have hmoves : ∀ {s'}, Moves (Queue.within cut s) s' → Moves s s' := fun hm => ⟨hm.records, hm.files⟩
  unfold Wp at h
  generalize m (Queue.within cut s) = out at h ⊢
  rcases out with ⟨_ | _, s'⟩
  · refine ⟨⟨h.1.1, hmoves h.1.2⟩, fun err he => ?_⟩
    cases he
    exact h.2
  · exact ⟨⟨h.1, hmoves h.2⟩, fun err he => by cases he⟩

/-- **A turn of the processor** leaves everything consistent, and raises nothing but what stops it. -/
theorem turn_ends {admissible : Prop} (hf : Faithful p known) (h : Kept p known r)
    (ha : admissible → Admissible p r.store) (hk : ∀ x ∈ r.attempt p e, x ∈ known)
    {out : Except ProcessError Unit × Store} (ht : r.turn p e = some out) :
    Ends p known out.1.isOk r.store out.2 ∧
      ∀ err, out.1 = .error err → Stops p r e err ∧ (admissible → err ≠ .repository .integrity) := by
  have hwithin : ∀ cut, admissible → Admissible p (Queue.within cut r.store) := fun _ hadm =>
    ⟨(ha hadm).toEncodes, (ha hadm).collision⟩
  cases e with
  | call step => cases ht
  | dies => cases ht
  | startDies unlinks => cases ht
  | process cut artifacts processing =>
    unfold Running.turn at ht
    by_cases hr : r.alive = true
    · simp only [hr, if_true, Option.some.injEq] at ht
      subst ht
      have hlive : Consistent p known true r.store := hr ▸ h
      have hwp := processNext_ends hf (hlive.within cut) (hwithin cut) artifacts fun x hx => hk x (by
        simpa only [Running.attempt, hr, if_true, attempt_within] using hx)
      refine (ends_of_wp hwp).imp_right fun hraised err he => ?_
      obtain hstopped | ⟨group, rest, hready, hun⟩ := hraised err he
      · exact hstopped.imp_left .excused
      · rw [readyGroups_read] at hready
        exact ⟨.unprepared (by rw [readyGroups_read]; exact hready) hun, fun _ => hun.ne_integrity⟩
    · simp only [hr, Bool.false_eq_true, if_false, reduceCtorEq] at ht
  | emit cut artifacts =>
    unfold Running.turn at ht
    by_cases hr : r.alive = true
    · simp only [hr, if_true, Option.some.injEq] at ht
      subst ht
      have hlive : Consistent p known true r.store := hr ▸ h
      have hwp : Wp (do let _ ← emitTurn p artifacts; pure () : Program Unit)
          (fun _ => Ends p known true (Queue.within cut r.store))
          (fun e s' => Ends p known false (Queue.within cut r.store) s' ∧
            (Stopped admissible e ∨ TooMany (pendingProcessedRollouts r.store.world.db.toTables).length e))
          (Queue.within cut r.store) := by
        rw [wp_bind]
        exact (emitTurn_ends hf (hlive.within cut) (hwithin cut) artifacts).imp (fun _ _ h => h) fun _ _ h => h
      refine (ends_of_wp hwp).imp_right fun hraised err he => ?_
      obtain hstopped | hmany := hraised err he
      · exact hstopped.imp_left .excused
      · exact ⟨.members hmany, fun _ he => by rw [hmany.1] at he; cases he⟩
    · simp only [hr, Bool.false_eq_true, if_false, reduceCtorEq] at ht
  | start =>
    simp only [Running.turn, Option.some.injEq] at ht
    rw [← ht, h.recover]
    exact ⟨h.recovered, fun err he => by cases he⟩

/-- **Every event** leaves everything consistent. -/
theorem next_kept (hf : Faithful p known) (hv : e.Valid p.env.codec) (h : Kept p known r)
    (hk : ∀ x ∈ r.attempt p e, x ∈ known) (hn : r.next p e = some r') : Kept p known r' ∧ Moves r.store r'.store := by
  have hturn : (r.turn p e).map (fun out => (⟨out.2, out.1.isOk⟩ : Running)) = some r' →
      Kept p known r' ∧ Moves r.store r'.store := fun hm => by
    obtain ⟨out, ht, rfl⟩ := Option.map_eq_some_iff.1 hm
    exact (turn_ends hf h False.elim hk ht).1
  cases e with
  | call step =>
    unfold Running.next at hn
    by_cases hc : step.call.trainingBody.isNone = true
    · simp only [hc, if_true, Option.some.injEq] at hn
      subst hn
      obtain ⟨hcons, hm⟩ := Consistent.call h (Option.isNone_iff_eq_none.1 hc) hv
      refine ⟨?_, hm⟩
      unfold Kept
      by_cases hd : diedIn p.env step r.store.world = true
      · simpa [hd] using hcons.dead
      · simpa [hd] using hcons
    · simp only [hc, Bool.false_eq_true, if_false, reduceCtorEq] at hn
  | dies =>
    cases hn
    exact ⟨Consistent.dead h, .refl _⟩
  | startDies unlinks =>
    cases hn
    exact Consistent.recoverWithin h unlinks
  | process cut artifacts processing => exact hturn hn
  | emit cut artifacts => exact hturn hn
  | start => exact hturn hn

/-! ## Runs -/

theorem reached_append (p : Processor F) (events more : List (Event F)) :
    reached p (events ++ more) = Machine.drive (Running.next p) (reached p events) more :=
  Machine.drive_append _ _ _

theorem attemptedFrom_append (events more : List (Event F)) :
    attemptedFrom p r (events ++ more) =
      attemptedFrom p r events ++ attemptedFrom p (Machine.drive (Running.next p) r events) more := by
  induction events generalizing r with
  | nil => rfl
  | cons e es ih =>
    rw [List.cons_append, attemptedFrom, attemptedFrom, ih, List.append_assoc]
    rfl

theorem attempted_append (events more : List (Event F)) :
    attempted p (events ++ more) = attempted p events ++ attemptedFrom p (reached p events) more :=
  attemptedFrom_append events more

/-- **A run keeps everything consistent**, where what it publishes is known. -/
theorem drive_kept (hf : Faithful p known) :
    ∀ {events : List (Event F)} {r : Running}, Kept p known r → (∀ e ∈ events, e.Valid p.env.codec) →
      (∀ x ∈ attemptedFrom p r events, x ∈ known) →
      Kept p known (Machine.drive (Running.next p) r events) ∧
        Moves r.store (Machine.drive (Running.next p) r events).store
  | [], r, h, _, _ => ⟨h, .refl _⟩
  | e :: es, r, h, hv, hk => by
    have hstep : Kept p known ((r.next p e).getD r) ∧ Moves r.store ((r.next p e).getD r).store := by
      cases hn : r.next p e with
      | none => exact ⟨h, .refl _⟩
      | some r' =>
        refine next_kept hf (hv e List.mem_cons_self) h (fun x hx => hk x ?_) hn
        rw [attemptedFrom]
        exact List.mem_append_left _ (Option.mem_toList.2 hx)
    obtain ⟨hrest, hmoves⟩ := drive_kept hf hstep.1 (fun e' he => hv e' (List.mem_cons_of_mem _ he))
      fun x hx => hk x (by rw [attemptedFrom]; exact List.mem_append_right _ hx)
    exact ⟨hrest, hstep.2.trans hmoves⟩

/-- Nothing is recorded of an initialized run root. -/
theorem kept_fresh (p : Processor F) (known : List (ProcessedGroupPayload F)) : Kept p known .fresh := by
  refine ⟨⟨sound_empty _, ⟨?_, ?_⟩, ?_, ?_⟩, ?_, ?_, ?_, ?_, fun h => (by cases h), ?_⟩ <;>
    exact fun x hx => absurd hx List.not_mem_nil

/-- A run, over what it publishes. -/
theorem reached_kept {events : List (Event F)} (hv : ∀ e ∈ events, e.Valid p.env.codec)
    (hf : Faithful p (attempted p events)) : Kept p (attempted p events) (reached p events) :=
  (drive_kept hf (kept_fresh p _) hv fun _ hx => hx).1

/-- A run that goes on, over all that it publishes. -/
theorem reached_goes_on {events more : List (Event F)} (hv : ∀ e ∈ events ++ more, e.Valid p.env.codec)
    (hf : Faithful p (attempted p (events ++ more))) :
    Kept p (attempted p (events ++ more)) (reached p events) ∧
      Moves (reached p events).store (reached p (events ++ more)).store := by
  have h : Kept p (attempted p (events ++ more)) (reached p events) :=
    (drive_kept hf (kept_fresh p _) (fun e he => hv e (List.mem_append_left _ he)) fun x hx => by
      rw [attempted_append]
      exact List.mem_append_left _ hx).1
  refine ⟨h, ?_⟩
  rw [reached_append]
  exact (drive_kept hf h (fun e he => hv e (List.mem_append_right _ he)) fun x hx => by
    rw [attempted_append]
    exact List.mem_append_right _ hx).2

theorem Faithful.mono {known' : List (ProcessedGroupPayload F)} (hf : Faithful p known) (h : known' ⊆ known) :
    Faithful p known' :=
  ⟨hf.digest, fun x hx y hy => hf.collision x (h hx) y (h hy), fun x hx => hf.decode x (h hx), hf.uuid⟩

/-! ## What a start finds -/

theorem recovered_read (s : Store) (path : String) :
    (recovered s).queue.read path = if path ∈ referenced s.world.db.toTables then s.queue.read path else none := by
  have hread : ∀ files : List (String × Bytes),
      Spool.read (files.filter fun f => decide (f.1 ∈ referenced s.world.db.toTables)) path =
        if path ∈ referenced s.world.db.toTables then Spool.read files path else none := by
    intro files
    by_cases hp : path ∈ referenced s.world.db.toTables
    · rw [if_pos hp, (unlinks_all _ files).read path hp]
    · rw [if_neg hp, Spool.read_eq_none]
      rintro f hf rfl
      exact hp (of_decide_eq_true (List.mem_filter.1 hf).2)
  unfold recovered QueueFiles.read
  simp only [hread]
  split <;> simp

/-! ## What a turn records -/

/-- What a turn leaves that returns: the groups are as they were, and the one that was to be processed is recorded. -/
structure Advances (s s' : Store) : Prop where
  groups : s'.world.db.groups = s.world.db.groups
  records : ∀ group rest, (readyGroups 1 s.world).1 = .ok (group :: rest) →
    ∃ g ∈ s'.world.db.processedGroups, g.groupId = group.groupId

theorem wp_recordProcessedGroup (args : ProcessedGroupArgs) (s : Store) : Wp (onWorld (recordProcessedGroup p.env args))
    (fun _ s' => s'.world.db.groups = s.world.db.groups ∧
      ∃ g ∈ s'.world.db.processedGroups, g.groupId = args.groupId) (fun _ _ => True) s := by
  rw [wp_onWorld]
  unfold recordProcessedGroup
  rw [Txn.wp_bind, wp_readClock]
  refine wp_transaction_cases (fun _ d _ hr => ?_) (fun _ _ => trivial) trivial
  rcases returns_recordProcessedGroupBody hr with ⟨rfl, g, hg, _⟩ | ⟨_, _, f, ht⟩
  · exact ⟨rfl, g, Rows.mem_of_get _ hg, Rows.key_of_get _ hg⟩
  · change d.groups = _ ∧ ∃ g ∈ d.processedGroups, _
    rw [ht]
    exact ⟨rfl, args.row (p.env.clock s.world.reads), List.mem_append_right _ (List.mem_singleton.2 rfl), rfl⟩

theorem settleGroup_advances {s : Store} (hf : Faithful p known) (h : Consistent p known true s)
    {x : ProcessedGroupPayload F} (hx : x ∈ known) :
    Wp (settleGroup p x) (fun _ s' => s'.world.db.groups = s.world.db.groups ∧
      ∃ g ∈ s'.world.db.processedGroups, g.groupId = x.groupId) (fun _ _ => True) s := by
  unfold settleGroup
  dsimp only
  rw [wp_bind]
  refine (wp_publishGroup hf h hx fun s' _ _ hdb _ => ?_).imp (fun _ _ h => h) fun _ _ (_ : _ ∧ Stopped False _) => trivial
  exact (wp_recordProcessedGroup _ s').imp (fun _ _ hr => ⟨hr.1.trans (congrArg (·.toTables.groups) hdb), hr.2⟩)
    fun _ _ h => h

/-- **The next ready group is recorded** by a turn that returns. -/
theorem processNext_advances {s : Store} (hf : Faithful p known) (h : Consistent p known true s) (artifacts : Artifacts)
    {processing : ∀ group, Processing F group} (hknown : ∀ x ∈ attempt p processing s, x ∈ known) :
    Wp (processNext p artifacts processing) (fun _ => Advances s) (fun _ _ => True) s := by
  unfold processNext
  rw [wp_bind, wp_onWorld]
  unfold attempt at hknown
  rcases readyGroups_cases h.regular with hnil | ⟨_, _, _, _, group, _, _, hone⟩
  · unfold Wp
    rw [hnil]
    refine ⟨rfl, fun group rest he => ?_⟩
    rw [hnil] at he
    cases he
  rw [hone] at hknown
  unfold Wp
  rw [hone]
  change Wp (processGroup p artifacts group (processing group)) _ _ s
  unfold processGroup
  rw [wp_bind, wp_orThrow]
  refine ⟨fun source hsource => ?_, fun _ _ => trivial⟩
  have hfinish : Wp (orThrow (finishGroup p group (processing group) source) >>= settleGroup p)
      (fun _ => Advances s) (fun _ _ => True) s := by
    rw [wp_bind, wp_orThrow]
    refine ⟨fun x hx => ?_, fun _ _ => trivial⟩
    have hmem : x ∈ (prepareGroup p group (processing group)).toOption := by
      unfold prepareGroup
      rw [hsource, Checked.ok_bind, hx]
      rfl
    refine (settleGroup_advances hf h (hknown x hmem)).imp (fun _ s' hr => ⟨hr.1, fun group' rest he => ?_⟩) fun _ _ h => h
    rw [hone] at he
    cases he
    exact (finishGroup_groupId hx) ▸ hr.2
  by_cases hkind : group.kind = .train
  · rw [if_pos hkind, wp_bind]
    exact wp_activePolicy_stopped (fun _ => hfinish) fun _ (_ : Stopped False _) => trivial
  · rw [if_neg hkind]
    exact hfinish

theorem turn_advances {cut : Cut} {artifacts : Artifacts} {processing : ∀ group, Processing F group}
    (hf : Faithful p known) (h : Kept p known r)
    (hk : ∀ x ∈ r.attempt p (.process cut artifacts processing), x ∈ known) {out : Except ProcessError Unit × Store}
    (ht : r.turn p (.process cut artifacts processing) = some out) (hok : out.1 = .ok ()) : Advances r.store out.2 := by
  unfold Running.turn at ht
  by_cases hr : r.alive = true
  · simp only [hr, if_true, Option.some.injEq] at ht
    subst ht
    have hlive : Consistent p known true r.store := hr ▸ h
    have hadv := (processNext_advances hf (hlive.within cut) artifacts fun x hx => hk x (by
      simpa only [Running.attempt, hr, if_true, attempt_within] using hx)).returned hok
    refine ⟨hadv.groups, fun group rest hready => hadv.records group rest ?_⟩
    rw [readyGroups_read] at hready ⊢
    exact hready
  · simp only [hr, Bool.false_eq_true, if_false, reduceCtorEq] at ht

end Queue
end Aether
