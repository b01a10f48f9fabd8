import Mathlib.Algebra.Order.BigOperators.Group.List
import AetherRl.QueueKeeps
import AetherRl.QueueSound
import AetherRl.RepoOutcomes
/-!
# QueueGroup — a ready group is published and recorded

`_process_group`: whichever of its durable steps is the last, the queue and the database stay consistent, and nothing
stops it but the process itself and what it raises of the group before it publishes.
-/
namespace Aether
namespace Queue

open Txn (Wp Spares wp_bind wp_pure Returns returns_raiseIf spares_bind spares_raiseIf)
open Repo
open Tables

variable {F : Type} {p : Processor F} {known : List (ProcessedGroupPayload F)} {alive : Bool} {s : Store}

/-- What may end any turn: its process dies, a constraint of the schema is violated, or the active policy is not there or
not what was published. -/
inductive Excused : ProcessError → Prop
  | crash : Excused .crash
  | integrity : Excused (.repository .integrity)
  | uninitialized : Excused (.repository (.invalidState "run has not been initialized"))
  | policy (id : OpaqueId) : Excused (.repository (.artifactCorruption ("published policy artifact is corrupt: " ++ id)))

/-- No encoding is empty, and a batch's names its step. -/
structure Encodes (p : Processor F) : Prop where
  group : ∀ x, p.encodeGroup x ≠ []
  batch : ∀ samples n, p.encodeBatch samples n ≠ []
  step : ∀ samples samples' (n n' : Int), 0 < n → 0 < n' → p.encodeBatch samples n = p.encodeBatch samples' n' → n = n'

/-- What keeps the schema from refusing an artifact: the batch that is emitted next collides with no other. -/
structure Admissible (p : Processor F) (s : Store) : Prop extends Encodes p where
  collision : ∀ data ∈ emission p s, ∀ f ∈ s.queue.batches, p.env.codec.sha256 f.2 = p.env.codec.sha256 data → f.2 = data

/-- A turn is ended by what may end it, and by the schema only where that may refuse an artifact. -/
def Stopped (admissible : Prop) (e : ProcessError) : Prop :=
  Excused e ∧ (admissible → e ≠ .repository .integrity)

variable {admissible : Prop}

theorem stopped_crash : Stopped admissible .crash := ⟨.crash, fun _ h => by cases h⟩

/-- What does not stop a turn is no violated constraint, but where an artifact is refused. -/
theorem admissible_of_not_stopped {e : Error} (h : ¬ Stopped admissible (.repository e)) (he : e = .integrity) :
    admissible :=
  by_contra fun hno => h ⟨he ▸ .integrity, fun ha => absurd ha hno⟩

/-- The one statement that counts the members of a batch is given more than it binds. -/
def TooMany (members : Nat) (e : ProcessError) : Prop :=
  e = .repository .operational ∧ maxVariableNumber < 2 * members

theorem TooMany.mono {m n : Nat} (h : m ≤ n) {e : ProcessError} (hm : TooMany m e) : TooMany n e :=
  ⟨hm.1, hm.2.trans_le (Nat.mul_le_mul_left 2 h)⟩

/-- How a turn ends: everything is consistent, and what was recorded is as it was. -/
def Ends (p : Processor F) (known : List (ProcessedGroupPayload F)) (alive : Bool) (s s' : Store) : Prop :=
  Consistent p known alive s' ∧ Moves s s'

/-- A turn that goes on from `s'` ends as one that goes on from `s`. -/
theorem wp_ends {α : Type} {m : Program α} {s' : Store} {X : ProcessError → Prop} (hm : Moves s s')
    (h : Wp m (fun _ => Ends p known true s') (fun e s'' => Ends p known false s' s'' ∧ X e) s') :
    Wp m (fun _ => Ends p known true s) (fun e s'' => Ends p known false s s'' ∧ X e) s' :=
  h.imp (fun _ _ h => ⟨h.1, hm.trans h.2⟩) fun _ _ h => ⟨⟨h.1.1, hm.trans h.1.2⟩, h.2⟩

/-! ## The next group -/

/-- **What `ready_groups` finds**: nothing, or the first group that is ready and not recorded, with its outcomes. -/
theorem readyGroups_cases {env : Env} {w : World} (h : Regular env w) :
    readyGroups 1 w = (.ok [], w) ∨ ∃ g ∈ w.db.groups, g.state = .ready ∧ w.db.processedGroup? g.groupId = none ∧
      ∃ group, readyGroup w.db.toTables g = .ok group ∧ group.outcomes ≠ [] ∧ readyGroups 1 w = (.ok [group], w) := by
  have hread : ∀ gs, ((unprocessedReadyGroups w.db.toTables).take 1).mapM (readyGroup w.db.toTables) = .ok gs →
      readyGroups 1 w = (.ok gs, w) := fun gs hgs => by
    simp only [readyGroups, raiseUnless_bind, if_pos (le_refl 1)]
    show Aether.select _ w = _
    simp only [Aether.select, bind, StateT.bind, tables, Except.bind, hgs]
    rfl
  cases hl : unprocessedReadyGroups w.db.toTables with
  | nil =>
    rw [hl] at hread
    exact Or.inl (hread [] rfl)
  | cons g rest =>
    rw [hl] at hread
    have hmem : g ∈ unprocessedReadyGroups w.db.toTables := by rw [hl]; exact List.mem_cons_self
    obtain ⟨group, hgroup, hg, _, hout⟩ := readyGroup_ok h.sound hmem
    rw [unprocessedReadyGroups, Rows.mem_orderBy, List.mem_filter, Bool.and_eq_true, decide_eq_true_eq,
      Bool.not_eq_true', List.any_eq_false] at hmem
    refine Or.inr ⟨g, hg, hmem.2.1, (Rows.get_eq_none _).2 fun q hq => ?_, group, hgroup, fun hnil => ?_, hread _ ?_⟩
    · simpa using hmem.2.2 q hq
    · rw [hnil, List.map_nil] at hout
      have hpos := w.db.ok.groups.size g hg
      rw [← List.length_range (n := g.groupSize), ← hout] at hpos
      exact absurd hpos (lt_irrefl 0)
    · simp [hgroup]

/-! ## Recording -/

/-- **A ready group that is not recorded** is not refused. -/
theorem spares_recordProcessedGroupBody {e : Error} {d : Db} {args : ProcessedGroupArgs} {now : Time}
    (hadmitted : e = .integrity → args.Admitted d.toTables) (hnew : d.processedGroup? args.groupId = none)
    (hready : ∃ g, d.group? args.groupId = some g ∧ g.state = .ready) :
    Spares e (recordProcessedGroupBody args now) d := by
  have hget : d.processedGroups.find? (fun g => decide (g.groupId = args.groupId)) = none := hnew
  have hany : (d.group? args.groupId).any (fun g => decide (g.state = .ready)) = true := by
    obtain ⟨g, hg, hs⟩ := hready
    simp [hg, hs]
  simp only [recordProcessedGroupBody, spares_bind, spares_tables, true_and, returns_tables]
  rintro _ _ ⟨rfl, rfl⟩
  rw [hget]
  simp only [spares_bind, spares_tables, spares_raiseIf, true_and, returns_tables, returns_raiseIf]
  rintro _ _ ⟨rfl, rfl⟩
  refine ⟨fun h => absurd hany h, ?_⟩
  rintro _ d₀ ⟨_, rfl⟩
  obtain ⟨g, hg, _⟩ := hready
  have hnone : ∀ g ∈ d₀.processedGroups, g.groupId ≠ args.groupId := (Rows.get_eq_none _).1 hnew
  refine ⟨spares_exec_admitted fun he => schema_insertProcessedGroup d₀.ok (hadmitted he) hnew
    ⟨g, Rows.mem_of_get _ hg, Rows.key_of_get _ hg⟩, fun _ d₁ hd₁ => ⟨spares_exec_admitted fun he => ?_, fun _ d₂ _ => ?_⟩⟩
  · rw [returns_exec] at hd₁
    have hgroup : ∃ g ∈ d₁.processedGroups, g.groupId = args.groupId := by
      rw [hd₁]
      exact ⟨_, List.mem_append_right _ (List.mem_singleton_self _), rfl⟩
    refine schema_insertProcessedRollouts d₁.ok hgroup (fun r hr hid => ?_) (hadmitted he).tokens
    rw [hd₁] at hr
    obtain ⟨q, hq, hqid⟩ := d₀.ok.processed.processed r hr
    exact hnone q hq (hqid.trans hid)
  · rintro _ d₃ ⟨rfl, rfl⟩
    exact spares_exec_admitted fun _ => schema_setResults d₃.ok fun r => by split <;> rfl

/-- A transaction fails with its process, or for what its body does not spare. -/
theorem wp_transaction_excused {X : ProcessError → Prop} (hX : X .crash) {body : Body Unit} {w : World}
    (hs : ∀ e, ¬ X (.repository e) → Spares e body w.db) :
    Wp (transaction body) (fun u w' => Returns body w.db u w'.db) (fun e w' => w'.db = w.db ∧ X (.repository e)) w :=
  wp_transaction_cases (fun _ _ _ hr => hr) (fun e he => ⟨rfl, by_contra fun hno => hs e hno he⟩) ⟨rfl, hX⟩

/-- **A training operation** ends the turn as its commit does, or changes nothing. -/
theorem wp_training {X : ProcessError → Prop} {c : Call} {body : Time → Body Unit} (hc : c.trainingBody = some body)
    (h : Consistent p known alive s)
    (hbase : Wp (perform p.env c) (fun _ w => ∃ now, Returns (body now) s.world.db () w.db)
      (fun e w => w.db = s.world.db ∧ X (.repository e)) s.world)
    (hq : ∀ now w, Returns (body now) s.world.db () w.db → Regular p.env w → s.world.db.policies <+: w.db.policies →
      Consistent p known true { s with world := w }) :
    Wp (onWorld (perform p.env c)) (fun _ => Ends p known true s) (fun e s' => Ends p known false s s' ∧ X e) s := by
  have hm : ∀ m ∈ c.manifests, m.Valid p.env.codec := by
    cases c <;> simp only [Call.trainingBody, reduceCtorEq] at hc <;> exact fun m hm => absurd hm List.not_mem_nil
  rw [wp_onWorld]
  refine (hbase.and_end (R := fun w => Regular p.env w ∧ s.world.db.policies <+: w.db.policies)
    (perform_regular hm h.regular)).imp ?_ ?_
  · rintro _ w ⟨⟨now, hr⟩, hreg, hpol⟩
    exact ⟨hq now w hr hreg hpol, .of_records rfl (booked_of_returns hc hr).records⟩
  · rintro e w ⟨⟨hd, he⟩, hreg, _⟩
    refine ⟨⟨h.tables rfl rfl hreg ?_ (fun g hg => Or.inl ?_) (fun b hb => Or.inl ?_) fun ha => (by cases ha),
      .of_records rfl ?_⟩, he⟩
    · change _ ⊆ w.db.policies
      rw [hd]
      exact List.Subset.refl _
    · exact hd ▸ hg
    · exact hd ▸ hb
    · change Tables.Records _ w.db.toTables
      rw [hd]
      exact .refl _

/-- **A group's artifact is recorded**: the row refers to it, and its rollouts to what the artifact holds. -/
theorem record_group (h : Consistent p known true s) {x : ProcessedGroupPayload F} (hx : x ∈ known)
    {args : ProcessedGroupArgs} (hnew : s.world.db.processedGroup? args.groupId = none)
    (hready : ∃ g, s.world.db.group? args.groupId = some g ∧ g.state = .ready)
    (hgroup : x.groupId = args.groupId) (hpath : args.artifactPath = groupPath (digestOf p x))
    (hdigest : args.artifactDigest = digestOf p x) (hsize : args.sizeBytes = (p.encodeGroup x).length)
    (htokens : args.tokenCounts.length = x.rollouts.length)
    (hfile : Spool.read s.queue.groups (groupPath (digestOf p x)) = some (p.encodeGroup x))
    (hstamped : ∃ policy ∈ s.world.db.policies, StampedWith policy x)
    (hadmitted : admissible → args.Admitted s.world.db.toTables) :
    Wp (onWorld (recordProcessedGroup p.env args)) (fun _ => Ends p known true s)
      (fun e s' => Ends p known false s s' ∧ Stopped admissible e) s := by
  refine wp_training (c := .recordProcessedGroup args) rfl h ?_ fun now w hr hreg hpol => ?_
  · change Wp (recordProcessedGroup p.env args) _ _ _
    unfold recordProcessedGroup
    rw [wp_bind, wp_readClock]
    have hspares : ∀ now e, ¬ Stopped admissible (.repository e) →
        Spares e (recordProcessedGroupBody args now) s.world.db := fun _ _ he =>
      spares_recordProcessedGroupBody (fun hi => hadmitted (admissible_of_not_stopped he hi)) hnew hready
    exact (wp_transaction_excused (w := { s.world with reads := s.world.reads + 1 }) stopped_crash (hspares _)).imp
      (fun _ _ hr => ⟨_, hr⟩) fun _ _ h => h
  rcases returns_recordProcessedGroupBody hr with ⟨_, g, hg, _⟩ | ⟨_, _, f, ht⟩
  · rw [hnew] at hg
    cases hg
  have hgroups : w.db.processedGroups = s.world.db.processedGroups ++ [args.row now] := by rw [ht]; rfl
  have hbatches : w.db.batches = s.world.db.batches := by rw [ht]; rfl
  refine h.tables rfl rfl hreg hpol.subset (fun g hg => ?_) (fun b hb => Or.inl (hbatches ▸ hb)) ?_
  · rw [hgroups, List.mem_append, List.mem_singleton] at hg
    refine hg.imp_right ?_
    rintro rfl
    refine ⟨x, hx, hgroup, hpath, hdigest, hsize, ?_, ?_, htokens⟩
    · rw [show (args.row now).artifactPath = args.artifactPath from rfl, hpath]
      exact hfile
    · obtain ⟨policy, hp, hs⟩ := hstamped
      exact ⟨policy, hpol.subset hp, hs⟩
  · intro _ f hf
    change f.1 ∈ w.db.batches.map (·.artifactPath)
    rw [hbatches]
    exact h.live rfl f hf

/-! ## The turn -/

/-- **The artifact of a group is there** once its publication returns, whether it was written now or before a crash. -/
theorem wp_publishGroup (hf : Faithful p known) (h : Consistent p known true s) {x : ProcessedGroupPayload F}
    (hx : x ∈ known) {Q : String → Store → Prop}
    (hq : ∀ s', Consistent p known true s' → Moves s s' → s'.world.db = s.world.db →
      Spool.read s'.queue.groups (groupPath (digestOf p x)) = some (p.encodeGroup x) →
      Q (groupPath (digestOf p x)) s') :
    Wp (publishGroup p.env.codec p.uuid (digestOf p x) (p.encodeGroup x)) Q
      (fun e s' => Ends p known false s s' ∧ Stopped admissible e) s := by
  unfold publishGroup
  rw [wp_bind, wp_raiseUnless]
  refine ⟨fun _ => ?_, fun hno => absurd (hf.digest _) hno⟩
  have hwriting : ∀ s', Writing p.uuid s s' → Consistent p known true s' ∧ Moves s s' :=
    fun s' hw => ⟨h.writing hw, hw.moves⟩
  have hadded : s.queue.read (groupPath (digestOf p x)) = none → ∀ s', Leaves p.uuid s s' →
      SameFiles (s.queue.add (groupPath (digestOf p x), p.encodeGroup x) .groups) s'.queue →
      Consistent p known true s' ∧ Moves s s' :=
    fun hfree s' hl hfiles => ⟨h.adds_group hx hl hfiles, h.adds_moves hfree hl hfiles⟩
  refine wp_publish rfl (h.fresh hf) (fun hfree s' hl hfiles => ?_) (fun hfree s' hl hfiles => ?_)
    (fun found hv s' hw => ?_) (fun s' hw => ?_) (fun e hne hv => ?_)
  · obtain ⟨hc, hm⟩ := hadded hfree s' hl hfiles
    refine hq s' hc hm hl.db ?_
    have hnone : Spool.read s.queue.groups (groupPath (digestOf p x)) = none := by
      rw [QueueFiles.read, Option.or_eq_none_iff] at hfree
      exact hfree.1
    rw [hfiles.groups]
    simp [QueueFiles.add, Spool.read_append, hnone]
  · obtain ⟨hc, hm⟩ := hadded hfree s' hl hfiles
    exact ⟨⟨hc.dead, hm⟩, stopped_crash⟩
  · obtain ⟨hc, hm⟩ := hwriting s' hw
    refine hq s' hc hm hw.db ?_
    rw [hw.files.groups]
    exact (h.content hf hx (read_of_verify hv)).1
  · obtain ⟨hc, hm⟩ := hwriting s' hw
    exact ⟨⟨hc.dead, hm⟩, stopped_crash⟩
  · obtain ⟨data, hread⟩ := Option.ne_none_iff_exists'.1 hne
    have hdata := (h.content hf hx hread).2
    have hok : verify p.env.codec s.queue (groupPath (digestOf p x)) (digestOf p x) (p.encodeGroup x).length = .ok data :=
      verify_ok.2 ⟨hread, by rw [hdata], by rw [hdata]; rfl⟩
    rw [hok] at hv
    cases hv

/-- Why a group is not prepared: no source is configured for it, the source is another environment's or without the
algorithm it needs, or its episodes do not load or are not scored. -/
inductive Unprepared (p : Processor F) (group : ReadyGroup) (made : Processing F group) : ProcessError → Prop
  | source : (∀ source ∈ p.sources, group.sourceId ≠ some source.sourceId) →
      Unprepared p group made
        (.repository (.conflict ("group " ++ group.groupId ++ " has no configured processing source")))
  | environment {source : ResultProcessingSource} {o : GroupOutcome} : source ∈ p.sources →
      group.sourceId = some source.sourceId → o ∈ group.outcomes → o.assignment.environment ≠ source.environment →
      Unprepared p group made (.repository (.conflict "group environment does not match its processing source"))
  | algorithm {source : ResultProcessingSource} : source ∈ p.sources → group.sourceId = some source.sourceId →
      group.kind = .train → source.hasAlgorithm = false →
      Unprepared p group made (.repository (.conflict "train processing source has no algorithm"))
  | episodes {message : String} : made.loaded = .error message → Unprepared p group made (.processing message)
  | records {message : String} : group.kind = .eval → made.records = .error message →
      Unprepared p group made (.processing message)
  | rollouts {message : String} : group.kind = .train → made.survivors = .error message →
      Unprepared p group made (.processing message)

/-- A group that does not load is not prepared. -/
theorem loadGroup_error {group : ReadyGroup} {made : Processing F group} {e : ProcessError}
    (h : loadGroup p group made = .error e) : Unprepared p group made e := by
  unfold loadGroup at h
  cases hid : group.sourceId with
  | none =>
    rw [hid] at h
    cases h
    exact .source fun source _ hs => by rw [hid] at hs; cases hs
  | some id =>
    rw [hid, Option.bind_some] at h
    cases hget : Rows.get (·.sourceId) id p.sources with
    | none =>
      rw [hget] at h
      cases h
      refine .source fun source hsource hs => (Rows.get_eq_none _).1 hget source hsource ?_
      rw [hid] at hs
      exact (Option.some.inj hs).symm
    | some source =>
      rw [hget] at h
      have hsource := Rows.mem_of_get _ hget
      have hkey : group.sourceId = some source.sourceId := by rw [hid, Rows.key_of_get _ hget]
      simp only [Checked.bind_eq_error, Checked.raiseUnless_eq_error] at h
      rcases h with ⟨henv, rfl⟩ | ⟨_, _, hloaded | ⟨_, _, ⟨halg, rfl⟩ | ⟨_, _, h⟩⟩⟩
      · push Not at henv
        obtain ⟨o, ho, hne⟩ := henv
        exact .environment hsource hkey ho hne
      · cases hmade : made.loaded with
        | error message =>
          rw [hmade] at hloaded
          cases hloaded
          exact .episodes hmade
        | ok _ =>
          rw [hmade] at hloaded
          cases hloaded
      · obtain ⟨hkind, halg⟩ := not_or.1 halg
        refine .algorithm hsource hkey ?_ (Bool.eq_false_of_not_eq_true halg)
        cases hk : group.kind with
        | train => rfl
        | eval => exact absurd hk hkind
      · cases h

/-- A group that has outcomes and is not finished is not prepared. -/
theorem finishGroup_error {group : ReadyGroup} (hne : group.outcomes ≠ []) {made : Processing F group}
    {source : ResultProcessingSource} {e : ProcessError} (h : finishGroup p group made source = .error e) :
    Unprepared p group made e := by
  obtain ⟨first, rest, hout⟩ := List.exists_cons_of_ne_nil hne
  unfold finishGroup at h
  cases hkind : group.kind with
  | eval =>
    rw [hkind] at h
    cases hmade : made.records with
    | error message =>
      rw [hmade] at h
      cases h
      exact .records hkind hmade
    | ok records =>
      rw [hmade, hout] at h
      cases h
  | train =>
    rw [hkind] at h
    cases hmade : made.survivors with
    | error message =>
      rw [hmade] at h
      cases h
      exact .rollouts hkind hmade
    | ok survivors =>
      rw [hmade, hout] at h
      cases h

/-- What a finished group is the payload of. -/
theorem finishGroup_ok {group : ReadyGroup} {made : Processing F group} {source : ResultProcessingSource}
    {x : ProcessedGroupPayload F} (hx : finishGroup p group made source = .ok x) :
    ∃ first ∈ group.outcomes, ∃ survivors records, (∀ r ∈ survivors, r.outcome ∈ group.outcomes) ∧
      x = groupPayload p.env.codec group source.sourceId (p.env.codec.sha256 made.inputBytes) first survivors records := by
  unfold finishGroup at hx
  cases hout : group.outcomes with
  | nil =>
    cases hkind : group.kind with
    | eval =>
      rw [hkind] at hx
      cases hmade : made.records with
      | error _ =>
        rw [hmade] at hx
        cases hx
      | ok _ =>
        rw [hmade, hout] at hx
        cases hx
    | train =>
      rw [hkind] at hx
      cases hmade : made.survivors with
      | error _ =>
        rw [hmade] at hx
        cases hx
      | ok _ =>
        rw [hmade, hout] at hx
        cases hx
  | cons first rest =>
    rw [← hout]
    have hfirst : first ∈ group.outcomes := by
      rw [hout]
      exact List.mem_cons_self
    cases hkind : group.kind with
    | eval =>
      rw [hkind] at hx
      cases hmade : made.records with
      | error _ =>
        rw [hmade] at hx
        cases hx
      | ok records =>
        rw [hmade, hout] at hx
        cases hx
        exact ⟨first, hfirst, [], records, fun r hr => absurd hr List.not_mem_nil, rfl⟩
    | train =>
      rw [hkind] at hx
      cases hmade : made.survivors with
      | error _ =>
        rw [hmade] at hx
        cases hx
      | ok survivors =>
        rw [hmade, hout] at hx
        cases hx
        exact ⟨first, hfirst, survivors, [], made.of_group survivors hmade, rfl⟩

theorem finishGroup_groupId {group : ReadyGroup} {made : Processing F group} {source : ResultProcessingSource}
    {x : ProcessedGroupPayload F} (hx : finishGroup p group made source = .ok x) : x.groupId = group.groupId := by
  obtain ⟨_, _, _, _, _, rfl⟩ := finishGroup_ok hx
  rfl

/-- **A finished group** is stamped with its group's policy. -/
theorem finishGroup_stamped {t : Tables} (hk : SchemaOk t) (hf : Filed p.env.codec t)
    (hv : ∀ a ∈ t.assignments, a.assignment.policy.Valid p.env.codec) {g : GroupRow} (hg : g ∈ t.groups)
    {group : ReadyGroup} (hr : readyGroup t g = .ok group) {made : Processing F group} {source : ResultProcessingSource}
    {x : ProcessedGroupPayload F} (hx : finishGroup p group made source = .ok x) :
    ∃ policy ∈ t.policies, StampedWith policy x := by
  obtain ⟨_, hfirst, _, _, hs, rfl⟩ := finishGroup_ok hx
  exact groupPayload_stamped hk hf hv hg hr hfirst hs _ _ _

theorem Faithful.shape (hf : Faithful p known) (data : Bytes) : digestShape (p.env.codec.sha256 data) = true :=
  (Bool.and_eq_true_iff.1 (hf.digest data)).1

/-- What a finished group hands to the database is in order. -/
structure Presentable (x : ProcessedGroupPayload F) : Prop where
  input : digestShape x.inputDigest = true
  tokens : ∀ r ∈ x.rollouts, 0 ≤ r.tokenCount

theorem finishGroup_presentable (hf : Faithful p known) {group : ReadyGroup} {made : Processing F group}
    {source : ResultProcessingSource} {x : ProcessedGroupPayload F} (hx : finishGroup p group made source = .ok x) :
    Presentable x := by
  obtain ⟨_, _, _, _, _, rfl⟩ := finishGroup_ok hx
  refine ⟨hf.shape _, fun r hr => ?_⟩
  obtain ⟨sv, _, rfl⟩ := List.mem_map.1 hr
  exact List.sum_nonneg fun n hn => by
    obtain ⟨sample, _, rfl⟩ := List.mem_map.1 hn
    exact Int.natCast_nonneg _

/-- **The artifact of a group that is not recorded is no other group's.** -/
theorem group_admitted (hf : Faithful p known) (h : Consistent p known alive s) (ha : Admissible p s)
    {x : ProcessedGroupPayload F} (hx : x ∈ known) (hnew : s.world.db.processedGroup? x.groupId = none)
    (hp : Presentable x) :
    ProcessedGroupArgs.Admitted ⟨x.groupId, x.inputDigest, digestOf p x, groupPath (digestOf p x),
      (p.encodeGroup x).length, x.rollouts.map (·.tokenCount)⟩ s.world.db.toTables := by
  have hdigest : ∀ g ∈ s.world.db.processedGroups, g.artifactDigest ≠ digestOf p x := fun g hg he => by
    obtain ⟨y, hy, hart⟩ := h.groups g hg
    have hbytes := hf.collision y hy x hx (hart.digest.symm.trans he)
    have hyx : y = x := Option.some.inj ((hf.decode y hy).symm.trans (hbytes ▸ hf.decode x hx))
    exact (Rows.get_eq_none _).1 hnew g hg (hart.group.symm.trans (congrArg _ hyx))
  refine ⟨?_, hp.input, hf.shape _, hdigest, fun g hg he => ?_, List.forall_mem_map.2 hp.tokens⟩
  · exact Int.natCast_pos.2 (List.length_pos_iff.2 (ha.group x))
  · obtain ⟨y, hy, hart⟩ := h.groups g hg
    rw [hart.path] at he
    exact hdigest g hg (hart.digest.trans (groupPath_inj (hf.digest _) (hf.digest _) he))

/-- **A payload of a ready group that is not recorded** is published and recorded. -/
theorem settleGroup_ends (hf : Faithful p known) (h : Consistent p known true s) (ha : admissible → Admissible p s)
    {x : ProcessedGroupPayload F} (hx : x ∈ known) (hnew : s.world.db.processedGroup? x.groupId = none)
    (hready : ∃ g, s.world.db.group? x.groupId = some g ∧ g.state = .ready)
    (hstamped : ∃ policy ∈ s.world.db.policies, StampedWith policy x) (hp : Presentable x) :
    Wp (settleGroup p x) (fun _ => Ends p known true s)
      (fun e s' => Ends p known false s s' ∧ Stopped admissible e) s := by
  have hadmitted := fun hadm => group_admitted hf h (ha hadm) hx hnew hp
  unfold settleGroup
  dsimp only
  rw [wp_bind]
  refine wp_publishGroup hf h hx fun s₁ h₁ hm₁ hd₁ hfile₁ => wp_ends hm₁ ?_
  rw [← hd₁] at hnew hready hstamped hadmitted
  exact record_group h₁ hx hnew hready rfl rfl rfl rfl (List.length_map _) hfile₁ hstamped hadmitted

/-- The active policy is read, or is not there, or not what was published. -/
theorem wp_activePolicy_stopped {artifacts : Artifacts} {Q : PolicyManifest → Store → Prop}
    {E : ProcessError → Store → Prop} (hq : ∀ active, Q active s) (he : ∀ e, Stopped admissible e → E e s) :
    Wp (onWorld (activePolicy p.env artifacts)) Q E s := by
  rw [wp_onWorld, activePolicy, wp_select]
  refine ⟨fun active d _ => hq active, fun e hraised => he _ (by_contra fun hno => ?_)⟩
  revert hraised
  change Spares e _ _
  simp only [Txn.spares_bind, spares_tables, Txn.spares_orRaise, verifyPolicyRow, Txn.spares_raiseIf, Txn.spares_pure,
    true_and]
  refine fun _ _ _ => ⟨fun _ he => hno ?_, fun _ _ _ => ⟨fun _ he => hno ?_, fun _ _ _ => trivial⟩⟩
  · rw [← he]
    exact ⟨.uninitialized, fun _ h => by cases h⟩
  · rw [← he]
    exact ⟨.policy _, fun _ h => by cases h⟩

/-- **A turn of `process_available`** leaves everything consistent wherever it is cut short, and nothing stops it but its
process, a constraint of the schema, the active policy, or a group that is not prepared. -/
theorem processNext_ends (hf : Faithful p known) (h : Consistent p known true s) (ha : admissible → Admissible p s)
    (artifacts : Artifacts) {processing : ∀ group, Processing F group}
    (hknown : ∀ x ∈ attempt p processing s, x ∈ known) :
    Wp (processNext p artifacts processing) (fun _ => Ends p known true s)
      (fun e s' => Ends p known false s s' ∧ (Stopped admissible e ∨ ∃ group rest,
        (readyGroups 1 s.world).1 = .ok (group :: rest) ∧ Unprepared p group (processing group) e)) s := by
  unfold processNext
  rw [wp_bind, wp_onWorld]
  unfold attempt at hknown
  rcases readyGroups_cases h.regular with hnil | ⟨g, hg, hready, hnew, group, hgroup, hne, hone⟩
  · unfold Wp
    rw [hnil]
    exact ⟨h, .refl s⟩
  rw [hone] at hknown
  have hfails : ∀ {e}, Stopped admissible e ∨ Unprepared p group (processing group) e → Ends p known false s s ∧
      (Stopped admissible e ∨ ∃ group rest, (readyGroups 1 s.world).1 = .ok (group :: rest) ∧
        Unprepared p group (processing group) e) := fun he => ⟨⟨h.dead, .refl s⟩, he.imp_right fun hu => ⟨group, [], by rw [hone], hu⟩⟩
  unfold Wp
  rw [hone] at hfails ⊢
  change Wp (processGroup p artifacts group (processing group)) _ _ s
  unfold processGroup
  rw [wp_bind, wp_orThrow]
  refine ⟨fun source hsource => ?_, fun e he => hfails (Or.inr (loadGroup_error he))⟩
  have hfinish : Wp (orThrow (finishGroup p group (processing group) source) >>= settleGroup p)
      (fun _ => Ends p known true s) (fun e s' => Ends p known false s s' ∧ (Stopped admissible e ∨ ∃ group' rest,
        (Except.ok [group] : Except Error (List ReadyGroup)) = .ok (group' :: rest) ∧
          Unprepared p group' (processing group') e)) s := by
    rw [wp_bind, wp_orThrow]
    refine ⟨fun x hx => ?_, fun e he => hfails (Or.inr (finishGroup_error hne he))⟩
    have hstamped := finishGroup_stamped s.world.db.ok h.regular.filed h.regular.carried hg hgroup hx
    have hxg : x.groupId = g.groupId := (finishGroup_groupId hx).trans (readyGroup_groupId hgroup)
    refine (settleGroup_ends hf h ha (hknown x ?_) ?_ ⟨g, ?_, hready⟩ hstamped
      (finishGroup_presentable hf hx)).imp (fun _ _ h => h) fun _ _ h => ⟨h.1, Or.inl h.2⟩
    · change x ∈ (prepareGroup p group (processing group)).toOption
      unfold prepareGroup
      rw [hsource, Checked.ok_bind, hx]
      rfl
    · rw [hxg]
      exact hnew
    · exact (Rows.get_eq_some _ s.world.db.ok.groups.key).2 ⟨hg, hxg.symm⟩
  by_cases hkind : group.kind = .train
  · rw [if_pos hkind, wp_bind]
    exact wp_activePolicy_stopped (fun _ => hfinish) fun e he => hfails (Or.inl he)
  · rw [if_neg hkind]
    exact hfinish

end Queue
end Aether
