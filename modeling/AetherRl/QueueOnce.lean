import AetherRl.QueueSurvives
/-!
# QueueOnce — every ready group is recorded once

Wherever the processor dies, the next one goes on: it meets no digest and no step that is not its own, it records what is
ready and not yet recorded, and what is recorded stays as it is.
-/
namespace Aether
namespace Queue

open Txn (Wp wp_bind)
open Repo

variable {F : Type} {p : Processor F} {known : List (ProcessedGroupPayload F)} {r : Running} {e : Event F}

/-- No two batches of the run collide: of the files that lie where batches go, none has the digest of the batch that is
emitted next and other bytes. -/
def Collisionless (p : Processor F) (events : List (Event F)) : Prop :=
  ∀ before, before <+: events → ∀ data ∈ emission p (reached p before).store,
    ∀ f ∈ (reached p before).store.queue.batches, p.env.codec.sha256 f.2 = p.env.codec.sha256 data → f.2 = data

/-! ## Turns that return -/

def Event.Processes : Event F → Prop
  | .process .. => True
  | _ => False

def Event.Emits : Event F → Prop
  | .emit .. => True
  | _ => False

/-- A processor takes its turn while it is there. -/
theorem turn_own (he : e.Processes ∨ e.Emits) : (r.turn p e).isSome = r.alive ∧
    r.next p e = (r.turn p e).map fun result => ⟨result.2, result.1.isOk⟩ := by
  cases e with
  | call step => exact he.elim False.elim False.elim
  | dies => exact he.elim False.elim False.elim
  | start => exact he.elim False.elim False.elim
  | startDies unlinks => exact he.elim False.elim False.elim
  | process cut artifacts processing =>
    refine ⟨?_, rfl⟩
    unfold Running.turn
    cases r.alive <;> rfl
  | emit cut artifacts =>
    refine ⟨?_, rfl⟩
    unfold Running.turn
    cases r.alive <;> rfl

/-- A processor that is there after its turn was there before, and its turn returned. -/
theorem returned_of_alive (he : e.Processes ∨ e.Emits) (h : ((r.next p e).getD r).alive = true) :
    r.alive = true ∧ ∃ out, r.turn p e = some out ∧ out.1 = .ok () ∧ (r.next p e).getD r = ⟨out.2, true⟩ := by
  obtain ⟨hsome, hnext⟩ := turn_own (r := r) (p := p) he
  rw [hnext] at h ⊢
  cases ht : r.turn p e with
  | none =>
    rw [ht] at hsome h
    exact absurd (hsome.trans h) (by decide)
  | some out =>
    rw [ht] at hsome h
    refine ⟨hsome.symm, out, rfl, ?_⟩
    obtain ⟨_ | _, s'⟩ := out
    · cases h
    · exact ⟨rfl, rfl⟩

theorem alive_of_drive : ∀ {turns : List (Event F)} {r : Running}, (∀ e ∈ turns, e.Processes ∨ e.Emits) →
    (Machine.drive (Running.next p) r turns).alive = true → r.alive = true
  | [], _, _, h => h
  | e :: _, _, he, h =>
    (returned_of_alive (he e List.mem_cons_self)
      (alive_of_drive (fun e' he' => he e' (List.mem_cons_of_mem _ he')) h)).1

/-! ## The groups that are ready -/

theorem mem_unprocessedReadyGroups {t : Tables} {g : GroupRow} : g ∈ unprocessedReadyGroups t ↔
    g ∈ t.groups ∧ g.state = .ready ∧ ∀ q ∈ t.processedGroups, q.groupId ≠ g.groupId := by
  rw [unprocessedReadyGroups, Rows.mem_orderBy, List.mem_filter, Bool.and_eq_true, decide_eq_true_eq,
    Bool.not_eq_true', List.any_eq_false]
  simp only [decide_eq_true_eq, ne_eq]

/-- Where groups stay as they are and one more of them is recorded, fewer are to be. -/
theorem unprocessed_lt {t t' : Tables} (hgroups : t'.groups = t.groups) (hrec : t.processedGroups ⊆ t'.processedGroups)
    {g : GroupRow} (hg : g ∈ unprocessedReadyGroups t) (hnew : ∃ q ∈ t'.processedGroups, q.groupId = g.groupId) :
    (unprocessedReadyGroups t').length < (unprocessedReadyGroups t).length := by
  have hleft : (unprocessedReadyGroups t').Perm
      ((unprocessedReadyGroups t).filter fun g => decide (∀ q ∈ t'.processedGroups, q.groupId ≠ g.groupId)) := by
    refine (Rows.orderBy_perm _ _).trans (.trans (.of_eq ?_) ((Rows.orderBy_perm _ _).symm.filter _))
    rw [hgroups, List.filter_filter]
    refine List.filter_congr fun x _ => ?_
    rw [Bool.eq_iff_iff]
    simp only [Bool.and_eq_true, decide_eq_true_eq, Bool.not_eq_true', List.any_eq_false]
    exact ⟨fun h => ⟨h.2, h.1, fun q hq => h.2 q (hrec hq)⟩, fun h => ⟨h.2.1, h.1⟩⟩
  rw [hleft.length_eq, List.length_filter_lt_length_iff_exists]
  obtain ⟨q, hq, hid⟩ := hnew
  exact ⟨g, hg, fun hall => of_decide_eq_true hall q hq hid⟩

theorem unprocessed_of_nil {t t' : Tables} (hgroups : t'.groups = t.groups) (hrec : t.processedGroups ⊆ t'.processedGroups)
    (hnil : unprocessedReadyGroups t = []) : unprocessedReadyGroups t' = [] := by
  refine List.eq_nil_iff_forall_not_mem.2 fun g hg => ?_
  rw [mem_unprocessedReadyGroups, hgroups] at hg
  have hmem : g ∈ unprocessedReadyGroups t :=
    mem_unprocessedReadyGroups.2 ⟨hg.1, hg.2.1, fun q hq => hg.2.2 q (hrec hq)⟩
  rw [hnil] at hmem
  cases hmem

/-- **A turn that returns leaves one group less to record**, if there is one. -/
theorem Advances.decreases {s s' : Store} (hreg : Regular p.env s.world) (h : Advances s s') (hm : Moves s s') :
    (unprocessedReadyGroups s'.world.db.toTables).length ≤ (unprocessedReadyGroups s.world.db.toTables).length - 1 := by
  have hrec := hm.records.groups.subset
  cases hl : unprocessedReadyGroups s.world.db.toTables with
  | nil => rw [unprocessed_of_nil h.groups hrec hl, List.length_nil]
  | cons g rest =>
    have hmem : g ∈ unprocessedReadyGroups s.world.db.toTables := by
      rw [hl]
      exact List.mem_cons_self
    obtain ⟨group, hgroup, _, hid, _⟩ := readyGroup_ok hreg.sound hmem
    have hready : (readyGroups 1 s.world).1 = .ok [group] := by
      rw [readyGroups_read, hl]
      simp [hgroup]
    obtain ⟨q, hq, hqid⟩ := h.records group [] hready
    have hlt := unprocessed_lt h.groups hrec hmem ⟨q, hq, hqid.trans hid⟩
    rw [hl] at hlt
    exact Nat.le_sub_one_of_lt hlt

/-- **As many turns as there are groups to record** are enough of them, if they return. -/
theorem drive_processes (hf : Faithful p known) : ∀ {turns : List (Event F)} {r : Running}, Kept p known r →
    (∀ e ∈ turns, e.Processes) → (∀ x ∈ attemptedFrom p r turns, x ∈ known) →
    (Machine.drive (Running.next p) r turns).alive = true →
    (unprocessedReadyGroups (Machine.drive (Running.next p) r turns).store.world.db.toTables).length ≤
      (unprocessedReadyGroups r.store.world.db.toTables).length - turns.length
  | [], _, _, _, _, _ => le_rfl
  | e :: es, r, h, he, hk, ha => by
    obtain ⟨hhead, htail⟩ := List.forall_mem_cons.1 he
    rw [attemptedFrom] at hk
    obtain ⟨_, out, ht, hok, hnext⟩ := returned_of_alive (Or.inl hhead) (alive_of_drive (fun e' he' => Or.inl (htail e' he')) ha)
    change (Machine.drive (Running.next p) ((r.next p e).getD r) es).alive = true at ha
    change (unprocessedReadyGroups (Machine.drive (Running.next p) ((r.next p e).getD r) es).store.world.db.toTables).length ≤ _
    rw [hnext] at hk ha ⊢
    have hkhead : ∀ x ∈ r.attempt p e, x ∈ known := fun x hx => hk x (List.mem_append_left _ (Option.mem_toList.2 hx))
    have hends := (turn_ends hf h False.elim hkhead ht).1
    rw [hok] at hends
    have hrest := drive_processes (r := ⟨out.2, true⟩) hf hends.1 htail (fun x hx => hk x (List.mem_append_right _ hx)) ha
    have hadv : Advances r.store out.2 := by
      cases e with
      | process cut artifacts processing => exact turn_advances hf h hkhead ht hok
      | call step => cases hhead
      | emit cut artifacts => cases hhead
      | dies => cases hhead
      | start => cases hhead
      | startDies unlinks => cases hhead
    have hless := hadv.decreases (Consistent.regular h) hends.2
    refine hrest.trans ?_
    change (unprocessedReadyGroups out.2.world.db.toTables).length - _ ≤ _
    rw [List.length_cons]
    omega

/-! ## The rollouts that wait -/

/-- **An iteration of the emission loop that returns** leaves fewer rollouts waiting, or found nothing left to emit. -/
theorem emit_decreases {cut : Cut} {artifacts : Artifacts} {out : Except ProcessError Unit × Store}
    (ht : r.turn p (.emit cut artifacts) = some out) (hok : out.1 = .ok ()) : Drained p r.store ∨
      pendingCount out.2.world.db.toTables < pendingCount r.store.world.db.toTables := by
  unfold Running.turn at ht
  by_cases hr : r.alive = true
  · simp only [hr, if_true, Option.some.injEq] at ht
    subst ht
    have hwp : Wp (do let _ ← emitTurn p artifacts; pure () : Program Unit)
        (fun _ s' => Drained p r.store ∨ pendingCount s'.world.db.toTables < pendingCount r.store.world.db.toTables)
        (fun _ _ => True) (Queue.within cut r.store) := by
      rw [wp_bind]
      refine (turn_spec p artifacts (Queue.within cut r.store)).imp (fun turn s' hspec => ?_) fun _ _ _ => trivial
      rcases hspec.decreases with rfl | hless
      · exact Or.inl hspec.2
      · exact Or.inr hless
    exact hwp.returned hok
  · simp only [hr, Bool.false_eq_true, if_false, reduceCtorEq] at ht

/-- **The batches that are due are emitted**: among more turns than rollouts wait, if they return, one finds nothing left
to emit. -/
theorem drive_emits : ∀ {turns : List (Event F)} {r : Running}, (∀ e ∈ turns, e.Emits) →
    (Machine.drive (Running.next p) r turns).alive = true → pendingCount r.store.world.db.toTables < turns.length →
    ∃ done, done <+: turns ∧ Drained p (Machine.drive (Running.next p) r done).store
  | [], _, _, _, h => absurd h (Nat.not_lt_zero _)
  | e :: es, r, he, ha, hlt => by
    obtain ⟨hhead, htail⟩ := List.forall_mem_cons.1 he
    obtain ⟨_, out, ht, hok, hnext⟩ :=
      returned_of_alive (Or.inr hhead) (alive_of_drive (fun e' he' => Or.inr (htail e' he')) ha)
    change (Machine.drive (Running.next p) ((r.next p e).getD r) es).alive = true at ha
    rw [hnext] at ha
    have hturn : Drained p r.store ∨
        pendingCount out.2.world.db.toTables < pendingCount r.store.world.db.toTables := by
      cases e with
      | emit cut artifacts => exact emit_decreases ht hok
      | process cut artifacts processing => cases hhead
      | call step => cases hhead
      | dies => cases hhead
      | start => cases hhead
      | startDies unlinks => cases hhead
    rcases hturn with hdrained | hless
    · exact ⟨[], List.nil_prefix, hdrained⟩
    · rw [List.length_cons] at hlt
      obtain ⟨done, hdone, hdrained⟩ := drive_emits (r := ⟨out.2, true⟩) htail ha (by
        change pendingCount out.2.world.db.toTables < _
        omega)
      refine ⟨e :: done, List.cons_prefix_cons.2 ⟨rfl, hdone⟩, ?_⟩
      change Drained p (Machine.drive (Running.next p) ((r.next p e).getD r) done).store
      rwa [hnext]

/-! ## Whatever crashes -/

/-- What a start makes of what it finds: it goes through, the database is as it was, and of the files of the queue those
are left that a record refers to, each of them what was recorded. -/
structure Recovers (p : Processor F) (s s' : Store) : Prop where
  returns : recover p.env.codec s = (.ok (), s')
  database : s'.world = s.world
  incoming : s'.queue.incoming = []
  read : ∀ path, s'.queue.read path = if path ∈ referenced s.world.db.toTables then s.queue.read path else none
  verifies : ∀ r ∈ artifactRecords s.world.db.toTables,
    ∃ data, verify p.env.codec s'.queue r.artifactPath r.artifactDigest r.sizeBytes = .ok data

/-- No group is recorded twice; the record of each is of a payload made for it, with a row for each of the payload's
rollouts; and each row is waiting, discarded or in one batch. -/
structure Settled (p : Processor F) (known : List (ProcessedGroupPayload F)) (s : Store) : Prop where
  once : (s.world.db.processedGroups.map (·.groupId)).Nodup
  artifact : ∀ g ∈ s.world.db.processedGroups, ∃ x ∈ known, x.groupId = g.groupId ∧
    s.queue.read g.artifactPath = some (p.encodeGroup x) ∧
    (s.world.db.rolloutsOf g.groupId).map (·.ordinal) = (List.range x.rollouts.length).map fun n : Nat => (n : Int)
  placed : s.world.db.Placed

/-- What is recorded in `s` is recorded in `s'`, with the members and the bytes it had. -/
structure Lasts (s s' : Store) : Prop where
  groups : ∀ g ∈ s.world.db.processedGroups, g ∈ s'.world.db.processedGroups ∧
    s'.queue.read g.artifactPath = s.queue.read g.artifactPath
  batches : ∀ b ∈ s.world.db.batches, b ∈ s'.world.db.batches ∧
    s'.world.db.batchMembers b.step = s.world.db.batchMembers b.step ∧
    s'.queue.read b.artifactPath = s.queue.read b.artifactPath

theorem Consistent.recovers {alive : Bool} {s : Store} (h : Consistent p known alive s) :
    Recovers p s (Queue.recovered s) :=
  ⟨h.recover, rfl, rfl, recovered_read s, h.recovered.1.verifies⟩

theorem Consistent.settled {alive : Bool} {s : Store} (h : Consistent p known alive s) : Settled p known s := by
  refine ⟨s.world.db.ok.processed.groupKey, fun g hg => ?_, placed_of_schema s.world.db.ok⟩
  obtain ⟨x, hx, hart⟩ := h.groups g hg
  exact ⟨x, hx, hart.group, hart.read, hart.count ▸ h.regular.counted g hg⟩

theorem Moves.lasts {s s' : Store} (h : Moves s s') : Lasts s s' where
  groups _ hg := ⟨h.records.groups.subset hg, h.files _ (List.mem_append_left _ (List.mem_map_of_mem hg))⟩
  batches b hb := ⟨h.records.batches.subset hb, h.records.members b hb,
    h.files _ (List.mem_append_right _ (List.mem_map_of_mem hb))⟩

end Queue

namespace Sample

open Queue Repo

theorem processor_encodes : Encodes processor where
  group _ := List.cons_ne_nil _ _
  batch _ _ := List.cons_ne_nil _ _
  step _ _ n n' hn hn' h := by
    have hlen := congrArg List.length (List.cons.inj h).2
    rw [List.length_replicate, List.length_replicate] at hlen
    omega

/-- What the run comes to, evaluated at once. -/
theorem run_settles :
    (Queue.reached processor (torn ++ whole)).alive = true ∧
      (unprocessedReadyGroups (Queue.reached processor (torn ++ [.start])).store.world.db.toTables).length ≤ 1 ∧
      (∃ g ∈ (Queue.reached processor (torn ++ whole)).store.world.db.groups, g.state = .ready) ∧
      (Queue.reached processor (torn ++ whole ++ emitted.take 1)).store.queue.batches ≠ [] ∧
      (Queue.reached processor (torn ++ whole ++ emitted.take 1)).store.world.db.batches = [] ∧
      (Queue.reached processor (torn ++ whole ++ emitted.take 3)).store.world.db.batches ≠ [] ∧
      ∀ n < (torn ++ whole ++ emitted).length + 1,
        ∀ data ∈ emission processor (Queue.reached processor ((torn ++ whole ++ emitted).take n)).store,
        ∀ f ∈ (Queue.reached processor ((torn ++ whole ++ emitted).take n)).store.queue.batches,
          codec.sha256 f.2 = codec.sha256 data → f.2 = data := by
  decide +kernel

theorem run_collisionless {events : List (Event Nat)} (h : events <+: torn ++ whole ++ emitted) :
    Collisionless processor events := by
  obtain ⟨_, _, _, _, _, _, hall⟩ := run_settles
  intro before hb
  have hp := hb.trans h
  rw [List.prefix_iff_eq_take.1 hp]
  exact hall _ (Nat.lt_succ_of_le hp.length_le)

end Sample

namespace Queue

end Queue
end Aether
