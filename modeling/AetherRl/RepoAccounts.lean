import Mathlib.Data.List.Induction
import AetherRl.RepoRollouts
/-!
# RepoAccounts — no processed rollout is lost or used twice

A rollout waits until it is discarded or placed in one training batch, and stays there.  `Booked` is what a step may do
to the processed tables, `Accounts` what it never undoes; steps are numbered from one without gap, and the members of a
batch are those its first call passed, in order.
-/
namespace Aether

open Txn (Returns Wp returns_bind returns_pure wp_bind wp_pure)
open Tables Repo

/-! ## Places -/

inductive Place
  | pending
  | discarded
  | batched (step ordinal : Int)

/-- What the columns of a row say of its place: the batch it is in is one there is. -/
def Tables.At (t : Tables) (r : ProcessedRolloutRow) : Place → Prop
  | .pending => r.batchStep = none ∧ r.discarded = false
  | .discarded => r.discarded = true
  | .batched n o => r.batchStep = some n ∧ r.batchOrdinal = some o ∧ ∃! b, b ∈ t.batches ∧ b.step = n

/-- Every rollout is in one place, and no two have the same ordinal of the same batch. -/
structure Tables.Placed (t : Tables) : Prop where
  place : ∀ r ∈ t.processedRollouts, ∃! p, t.At r p
  ordinal : ∀ r ∈ t.processedRollouts, ∀ r' ∈ t.processedRollouts, ∀ n o,
    t.At r (.batched n o) → t.At r' (.batched n o) → r = r'

theorem pending_iff {r : ProcessedRolloutRow} : r.pending = true ↔ r.batchStep = none ∧ r.discarded = false := by
  simp [ProcessedRolloutRow.pending]

/-- **The constraints put every rollout in one place.** -/
theorem placed_of_schema {t : Tables} (hk : SchemaOk t) : t.Placed := by
  have hp := hk.processed
  refine ⟨fun r hr => ?_, fun r hr r' hr' n o h h' => ?_⟩
  · cases hb : r.batchStep with
    | none =>
      by_cases hd : r.discarded = true
      · refine ⟨.discarded, hd, fun p h => ?_⟩
        cases p with
        | pending => exact absurd (h.2.symm.trans hd) (by decide)
        | discarded => rfl
        | batched n o => exact absurd (hb.symm.trans h.1) (by simp)
      · refine ⟨.pending, ⟨hb, by simpa using hd⟩, fun p h => ?_⟩
        cases p with
        | pending => rfl
        | discarded => exact absurd h hd
        | batched n o => exact absurd (hb.symm.trans h.1) (by simp)
    | some n =>
      have hd : r.discarded = false := (hp.discarded r hr).resolve_right (by simp [hb])
      obtain ⟨_, ho, _⟩ := (hp.placed r hr).resolve_left fun h => by simp [hb] at h
      obtain ⟨o, ho⟩ := Option.ne_none_iff_exists'.1 ho
      obtain ⟨b, hbm, hbn⟩ := hp.batch r hr n hb
      refine ⟨.batched n o, ⟨hb, ho, b, ⟨hbm, hbn⟩, fun b' h' => ?_⟩, fun p h => ?_⟩
      · exact Rows.eq_of_key _ hk.batches.key h'.1 hbm (h'.2.trans hbn.symm)
      · cases p with
        | pending => exact absurd (hb.symm.trans h.1) (by simp)
        | discarded => exact absurd (hd.symm.trans h) (by decide)
        | batched n' o' =>
          rw [Option.some.inj (hb.symm.trans h.1), Option.some.inj (ho.symm.trans h.2.1)]
  · exact Rows.eq_of_filterMap _ hp.place hr hr' (k := (n, o)) (by simp [h.1, h.2.1]) (by simp [h'.1, h'.2.1])

/-! ## Members and steps -/

/-- The members of a batch, in the order of their ordinals. -/
def Tables.batchMembers (t : Tables) (step : Int) : List (OpaqueId × Int) :=
  (Rows.orderBy (fun r => r.batchOrdinal.getD 0)
    (t.processedRollouts.filter (fun r => decide (r.batchStep = some step)))).map ProcessedRolloutRow.key

/-- **An update that moves no row in or out of a batch keeps its members.** -/
theorem batchMembers_map {t : Tables} {f : ProcessedRolloutRow → ProcessedRolloutRow} {n : Int}
    (hin : ∀ r ∈ t.processedRollouts, r.batchStep = some n → f r = r)
    (hout : ∀ r ∈ t.processedRollouts, r.batchStep ≠ some n → (f r).batchStep ≠ some n) :
    (setProcessedRollouts f t).batchMembers n = t.batchMembers n := by
  have hf : (t.processedRollouts.map f).filter (fun r => decide (r.batchStep = some n)) =
      t.processedRollouts.filter (fun r => decide (r.batchStep = some n)) := by
    rw [List.filter_map, List.filter_congr (q := fun r => decide (r.batchStep = some n)) fun r hr => ?_]
    · conv_rhs => rw [← List.map_id (List.filter _ _)]
      refine List.map_congr_left fun r hr => ?_
      rw [List.mem_filter, decide_eq_true_eq] at hr
      exact hin r hr.1 hr.2
    · by_cases hb : r.batchStep = some n
      · simp [hin r hr hb]
      · simp [hb, hout r hr hb]
  rw [batchMembers, setProcessedRollouts_processedRollouts, hf, batchMembers]

theorem batchMembers_append {t t' : Tables} {new : List ProcessedRolloutRow} {n : Int}
    (h : t'.processedRollouts = t.processedRollouts ++ new) (hnew : ∀ r ∈ new, r.batchStep = none) :
    t'.batchMembers n = t.batchMembers n := by
  have hnil : new.filter (fun r => decide (r.batchStep = some n)) = [] := by
    rw [List.filter_eq_nil_iff]
    intro r hr
    simp [hnew r hr]
  rw [batchMembers, h, List.filter_append, hnil, List.append_nil, batchMembers]

/-- **Rows numbered by their place in a list are that list**, read in order. -/
theorem orderBy_idxOf {l : List ProcessedRolloutRow} {members : List (OpaqueId × Int)} (hm : members.Nodup)
    (hp : (l.map ProcessedRolloutRow.key).Perm members)
    (ho : ∀ r ∈ l, r.batchOrdinal = some (members.idxOf r.key : Int)) :
    (Rows.orderBy (fun r => r.batchOrdinal.getD 0) l).map ProcessedRolloutRow.key = members := by
  have hsorted : ((Rows.orderBy (fun r => r.batchOrdinal.getD 0) l).map ProcessedRolloutRow.key).Pairwise
      (fun a b => members.idxOf a ≤ members.idxOf b) := by
    rw [List.pairwise_map]
    refine (Rows.orderBy_pairwise _ l).imp_of_mem fun {r r'} hr hr' h => ?_
    rw [Rows.mem_orderBy] at hr hr'
    rw [ho r hr, ho r' hr'] at h
    simpa using h
  have hmembers : members.Pairwise (fun a b => members.idxOf a ≤ members.idxOf b) := by
    rw [List.pairwise_iff_getElem]
    intro i j hi hj hij
    rw [hm.idxOf_getElem i hi, hm.idxOf_getElem j hj]
    exact hij.le
  refine List.Perm.eq_of_pairwise ?_ hsorted hmembers (((Rows.orderBy_perm _ l).map _).trans hp)
  intro a b _ hb h₁ h₂
  exact ((List.idxOf_inj hb).1 (le_antisymm h₁ h₂).symm).symm

/-- **The members of a new batch are those it was given**, in order. -/
theorem batchMembers_place {t : Tables} (hk : SchemaOk t) {n : Int} {members : List (OpaqueId × Int)}
    (hn : ∀ b ∈ t.batches, b.step ≠ n) (hm : members.Nodup) (hin : ∀ m ∈ members, m ∈ t.pendingKeys) :
    (setProcessedRollouts (placeRow n 0 members) t).batchMembers n = members := by
  have hfree : ∀ r ∈ t.processedRollouts, r.batchStep ≠ some n := fun r hr h => by
    obtain ⟨b, hb, hbn⟩ := hk.processed.batch r hr n h
    exact hn b hb hbn
  have hplaced : ∀ r ∈ t.processedRollouts, (placeRow n 0 members r).batchStep = some n ↔
      r.key ∈ members ∧ r.batchStep = none := by
    intro r hr
    unfold placeRow
    split
    · rename_i h
      simp [h]
    · rename_i h
      simp only [h, iff_false]
      exact hfree r hr
  unfold batchMembers
  rw [setProcessedRollouts_processedRollouts, List.filter_map]
  refine orderBy_idxOf hm ?_ ?_
  · rw [List.map_map]
    have hkey : ProcessedRolloutRow.key ∘ placeRow n 0 members = ProcessedRolloutRow.key := by
      funext r
      exact placeRow_key n 0 members r
    have hnodup : (t.processedRollouts.map ProcessedRolloutRow.key).Nodup := hk.processed.key
    rw [hkey, List.perm_ext_iff_of_nodup (hnodup.sublist (List.filter_sublist.map _)) hm]
    intro m
    simp only [List.mem_map, List.mem_filter, Function.comp_apply, decide_eq_true_eq]
    constructor
    · rintro ⟨r, ⟨hr, hp⟩, rfl⟩
      exact ((hplaced r hr).1 hp).1
    · intro hmem
      obtain ⟨r, hr, hp, hrk⟩ := mem_pendingKeys.1 (hin m hmem)
      exact ⟨r, ⟨hr, (hplaced r hr).2 ⟨hrk ▸ hmem, (pending_iff.1 hp).1⟩⟩, hrk⟩
  · intro r' hr'
    obtain ⟨r, hr, rfl⟩ := List.mem_map.1 hr'
    rw [List.mem_filter, Function.comp_apply, decide_eq_true_eq] at hr
    rw [placeRow_key, placeRow, if_pos ((hplaced r hr.1).1 hr.2), Nat.zero_add]

/-- The training steps are `1..n`, in the order they were recorded. -/
def Tables.Numbered (t : Tables) : Prop :=
  t.batches.map (·.step) = (List.range t.batches.length).map (fun n : Nat => (n : Int) + 1)

/-- **The next step is one more than the steps there are.** -/
theorem Tables.Numbered.next {t : Tables} (h : t.Numbered) : nextTrainingBatchStep t = t.batches.length + 1 := by
  rw [nextTrainingBatchStep, h]
  rcases Nat.eq_zero_or_pos t.batches.length with h0 | h0
  · rw [h0]
    rfl
  · have hmax : ((List.range t.batches.length).map (fun n : Nat => (n : Int) + 1)).max? = some (t.batches.length : Int) := by
      rw [List.max?_eq_some_iff]
      refine ⟨List.mem_map.2 ⟨t.batches.length - 1, List.mem_range.2 (by omega), by omega⟩, fun x hx => ?_⟩
      obtain ⟨n, hn, rfl⟩ := List.mem_map.1 hx
      have hlt := List.mem_range.1 hn
      omega
    rw [hmax]
    rfl

theorem Tables.Numbered.append {t t' : Tables} {b : BatchRow} (h : t.Numbered) (hb : t'.batches = t.batches ++ [b])
    (hn : b.step = t.batches.length + 1) : t'.Numbered := by
  rw [Numbered, hb, List.map_append, h, List.length_append, List.length_singleton, List.range_succ, List.map_append]
  simp [hn]

/-! ## What a step books -/

/-- A rollout stays, or leaves the pending ones. -/
inductive RolloutMove : ProcessedRolloutRow → ProcessedRolloutRow → Prop
  | stay (r : ProcessedRolloutRow) : RolloutMove r r
  | discard {r : ProcessedRolloutRow} (h : r.pending = true) : RolloutMove r { r with discarded := true }
  | place {r : ProcessedRolloutRow} (n o : Int) (h : r.pending = true) :
    RolloutMove r { r with batchStep := some n, batchOrdinal := some o }

/-- The rows there are keep their places or leave the pending ones; new ones are pending. -/
def Tables.Accounts (t t' : Tables) : Prop :=
  ∃ kept new, t'.processedRollouts = kept ++ new ∧ List.Forall₂ RolloutMove t.processedRollouts kept ∧
    ∀ r ∈ new, r.pending = true

/-- **What no step takes back**: what is recorded of groups and batches, members included. -/
structure Tables.Records (t t' : Tables) : Prop where
  groups : t.processedGroups <+: t'.processedGroups
  batches : t.batches <+: t'.batches
  members : ∀ b ∈ t.batches, t'.batchMembers b.step = t.batchMembers b.step

theorem Tables.Records.refl (t : Tables) : t.Records t := ⟨List.prefix_rfl, List.prefix_rfl, fun _ _ => rfl⟩

theorem Tables.Records.trans {t t' t'' : Tables} (h₁ : t.Records t') (h₂ : t'.Records t'') : t.Records t'' :=
  ⟨h₁.groups.trans h₂.groups, h₁.batches.trans h₂.batches,
    fun b hb => (h₂.members b (h₁.batches.subset hb)).trans (h₁.members b hb)⟩

/-- **What a step may do to the processed tables.** -/
inductive Booked (now : Time) : Call → Tables → Tables → Prop
  | idle {c : Call} {t t' : Tables} (hg : t'.processedGroups = t.processedGroups) (hb : t'.batches = t.batches)
      (hr : t'.processedRollouts = t.processedRollouts) : Booked now c t t'
  | group {p : ProcessedGroupArgs} {t t' : Tables} (hnew : t.processedGroup? p.groupId = none)
      (hg : t'.processedGroups = t.processedGroups ++ [p.row now]) (hb : t'.batches = t.batches)
      (hr : t'.processedRollouts = t.processedRollouts ++ newRollouts p.groupId p.tokenCounts) :
      Booked now (.recordProcessedGroup p) t t'
  | discard {ms : List (OpaqueId × Int)} {t t' : Tables} (hm : ms.Nodup) (hin : ∀ m ∈ ms, m ∈ t.pendingKeys)
      (ht : t' = setProcessedRollouts (discardRow ms) t) : Booked now (.discardProcessedRollouts ms) t t'
  | batch {b : TrainingBatchArgs} {t t' : Tables} (hnew : t.batch? b.step = none) (hn : b.step = nextTrainingBatchStep t)
      (hm : b.members.Nodup) (hin : ∀ m ∈ b.members, m ∈ t.pendingKeys)
      (ht : t' = setProcessedRollouts (placeRow b.step 0 b.members) (insertBatch (b.row now) t)) :
      Booked now (.recordTrainingBatch b) t t'

theorem newRollouts_pending {i : OpaqueId} {counts : List Int} : ∀ r ∈ newRollouts i counts, r.pending = true := by
  intro r hr
  obtain ⟨x, _, rfl⟩ := List.mem_map.1 hr
  rfl

/-- An update that moves each row moves the table. -/
theorem accounts_map {t : Tables} {f : ProcessedRolloutRow → ProcessedRolloutRow} (hf : ∀ r, RolloutMove r (f r)) :
    t.Accounts (setProcessedRollouts f t) := by
  refine ⟨t.processedRollouts.map f, [], (List.append_nil _).symm, ?_, fun r hr => absurd hr List.not_mem_nil⟩
  rw [List.forall₂_map_right_iff, List.forall₂_same]
  exact fun r _ => hf r

theorem move_discardRow (ms : List (OpaqueId × Int)) (r : ProcessedRolloutRow) : RolloutMove r (discardRow ms r) := by
  unfold discardRow
  split
  · rename_i h
    exact .discard h.2
  · exact .stay r

theorem not_mem_of_batch? {t : Tables} {n : Int} (h : t.batch? n = none) : ∀ b ∈ t.batches, b.step ≠ n :=
  (Rows.get_eq_none _).1 h

variable {now : Time} {c : Call} {t t' : Tables}

/-- **Rows only leave the pending ones**, whatever is booked. -/
theorem Booked.accounts (hk : SchemaOk t) (h : Booked now c t t') : t.Accounts t' := by
  cases h with
  | idle hg hb hr =>
    refine ⟨t.processedRollouts, [], by rw [hr, List.append_nil], List.forall₂_same.2 fun r _ => .stay r, ?_⟩
    exact fun r hr => absurd hr List.not_mem_nil
  | group hnew hg hb hr => exact ⟨_, _, hr, List.forall₂_same.2 fun r _ => .stay r, newRollouts_pending⟩
  | discard hm hin ht =>
    rw [ht]
    exact accounts_map (move_discardRow _)
  | @batch b t t' hnew hn hm hin ht =>
    rw [ht]
    refine ⟨t.processedRollouts.map (placeRow b.step 0 b.members), [], (List.append_nil _).symm, ?_,
      fun r hr => absurd hr List.not_mem_nil⟩
    rw [List.forall₂_map_right_iff, List.forall₂_same]
    intro r hr
    unfold placeRow
    split
    · rename_i h
      obtain ⟨r', hr', hp, hk'⟩ := mem_pendingKeys.1 (hin _ h.1)
      have he : r' = r := Rows.eq_of_key _ hk.processed.key hr' hr hk'
      exact .place _ _ (he ▸ hp)
    · exact .stay r

/-- **What is recorded stays recorded**, whatever is booked. -/
theorem Booked.records (h : Booked now c t t') : t.Records t' := by
  cases h with
  | idle hg hb hr =>
    refine ⟨hg ▸ List.prefix_rfl, hb ▸ List.prefix_rfl, fun b _ => ?_⟩
    rw [batchMembers, hr, batchMembers]
  | group hnew hg hb hr =>
    refine ⟨hg ▸ List.prefix_append _ _, hb ▸ List.prefix_rfl, fun b _ => ?_⟩
    exact batchMembers_append hr fun r hr => (pending_iff.1 (newRollouts_pending r hr)).1
  | discard hm hin ht =>
    rw [ht]
    refine ⟨List.prefix_rfl, List.prefix_rfl, fun b _ => batchMembers_map (fun r _ hb => ?_) fun r _ hb => ?_⟩
    · exact if_neg fun h => by simp [(pending_iff.1 h.2).1] at hb
    · unfold discardRow
      split <;> exact hb
  | @batch b t t' hnew hn hm hin ht =>
    rw [ht]
    refine ⟨List.prefix_rfl, List.prefix_append _ _, fun x hx => ?_⟩
    have hne : x.step ≠ b.step := not_mem_of_batch? hnew x hx
    have hsame : (insertBatch (b.row now) t).batchMembers x.step = t.batchMembers x.step := rfl
    rw [← hsame]
    refine batchMembers_map (fun r _ hb => if_neg fun h => ?_) fun r _ hb => ?_
    · exact absurd (h.2.symm.trans hb) (by simp)
    · unfold placeRow
      split
      · exact fun h => hne (Option.some.inj h).symm
      · exact hb

theorem Booked.numbered (h : Booked now c t t') (hn : t.Numbered) : t'.Numbered := by
  cases h with
  | idle hg hb hr =>
    rw [Numbered, hb]
    exact hn
  | group hnew hg hb hr =>
    rw [Numbered, hb]
    exact hn
  | discard hm hin ht =>
    rw [ht]
    exact hn
  | batch hnew hstep hm hin ht =>
    rw [ht]
    exact hn.append rfl (hstep.trans hn.next)

/-- **A step that is new was recorded by its call**, with its members. -/
theorem Booked.recorded (hk : SchemaOk t) (h : Booked now c t t') {x : BatchRow} (hx : x ∈ t'.batches)
    (hno : ∀ b ∈ t.batches, b.step ≠ x.step) :
    ∃ b, c = .recordTrainingBatch b ∧ b.step = x.step ∧ t'.batchMembers x.step = b.members := by
  cases h with
  | idle hg hb hr => exact absurd rfl (hno x (hb ▸ hx))
  | group hnew hg hb hr => exact absurd rfl (hno x (hb ▸ hx))
  | discard hm hin ht =>
    subst ht
    exact absurd rfl (hno x hx)
  | @batch b t t' hnew hn hm hin ht =>
    subst ht
    rcases List.mem_append.1 hx with hx | hx
    · exact absurd rfl (hno x hx)
    · rw [List.mem_singleton] at hx
      have hp := @batchMembers_place t hk b.step b.members (not_mem_of_batch? hnew) hm hin
      have hsame : ∀ u : Tables, u.processedRollouts = t.processedRollouts →
          (setProcessedRollouts (placeRow b.step 0 b.members) u).batchMembers b.step =
            (setProcessedRollouts (placeRow b.step 0 b.members) t).batchMembers b.step := by
        intro u hu
        simp only [batchMembers, setProcessedRollouts_processedRollouts, hu]
      rw [hx]
      exact ⟨b, rfl, rfl, (hsame _ rfl).trans hp⟩

/-! ## Steps -/

/-- The call commits one body, or leaves the database alone and does not return. -/
def Settles (m : Method Unit) (body : Time → Body Unit) (w : World) : Prop :=
  ((m w).1 ≠ .ok () ∧ (m w).2.db = w.db) ∨ ((m w).1 = .ok () ∧ ∃ now, Returns (body now) w.db () (m w).2.db)

theorem settles_transaction (body : Body Unit) (w : World) (now : Time) {f : Time → Body Unit} (hf : f now = body) :
    Settles (transaction body) f w := by
  unfold Settles transaction
  cases hb : body w.db with
  | error e => exact Or.inl ⟨by simp, rfl⟩
  | ok p =>
    obtain ⟨a, d⟩ := p
    simp only
    rcases durable_cases (fun w => (.ok a, { w with db := d })) w with h | ⟨n, h⟩ <;> rw [h]
    · exact Or.inl ⟨by simp, rfl⟩
    · exact Or.inr ⟨rfl, now, by rw [hf]; exact hb⟩

theorem settles_clocked (env : Env) (body : Time → Body Unit) (w : World) :
    Settles (readClock env >>= fun now => transaction (body now)) body w :=
  settles_transaction (body (env.clock w.reads)) { w with reads := w.reads + 1 } (env.clock w.reads) rfl

theorem settles_raiseUnless {p : Prop} [Decidable p] {e : Error} {m : Method Unit} {body : Time → Body Unit} {w : World}
    (h : p → Settles m body w) : Settles (raiseUnless p e >>= fun _ => m) body w := by
  rw [raiseUnless_bind]
  split
  · rename_i hp
    exact h hp
  · exact Or.inl ⟨fun h => (by cases h), rfl⟩

/-- What the three training operations run in their transaction. -/
def Call.trainingBody : Call → Option (Time → Body Unit)
  | .recordProcessedGroup p => some (recordProcessedGroupBody p)
  | .discardProcessedRollouts ms => some fun _ => discardBody ms
  | .recordTrainingBatch b => some (recordTrainingBatchBody b)
  | _ => none

/-- **A training operation is one transaction.** -/
theorem perform_settles (env : Env) {c : Call} {body : Time → Body Unit} (h : c.trainingBody = some body) (w : World) :
    Settles (perform env c) body w := by
  cases c <;> simp only [Call.trainingBody, Option.some.injEq, reduceCtorEq] at h <;> subst h
  · exact settles_clocked env _ w
  · exact settles_raiseUnless fun _ => settles_transaction _ w 0 rfl
  · exact settles_raiseUnless fun _ => settles_clocked env _ w

theorem booked_of_returns {c : Call} {body : Time → Body Unit} {d d' : Db} (hc : c.trainingBody = some body)
    (h : Returns (body now) d () d') : Booked now c d.toTables d'.toTables := by
  cases c <;> simp only [Call.trainingBody, Option.some.injEq, reduceCtorEq] at hc <;> subst hc
  · rcases returns_recordProcessedGroupBody h with ⟨rfl, _⟩ | ⟨hnew, _, f, ht⟩
    · exact .idle rfl rfl rfl
    · exact .group hnew (by rw [ht]; rfl) (by rw [ht]; rfl) (by rw [ht]; rfl)
  · obtain ⟨hm, hin, ht⟩ := returns_discardBody h
    exact .discard hm hin ht
  · rcases returns_recordTrainingBatchBody h with ⟨rfl, _⟩ | ⟨hnew, hn, hm, hin, ht⟩
    · exact .idle rfl rfl rfl
    · exact .batch hnew hn hm hin ht

/-- A call that is no training operation leaves the processed tables alone. -/
theorem perform_untouched (env : Env) {c : Call} (hc : c.trainingBody = none) (w : World) {k : Table}
    (hk : k ∈ [Table.processedGroups, .batches, .processedRollouts]) :
    (perform env c w).2.db.rows k = w.db.rows k := by
  have hw : k ∉ c.writes := by
    revert k
    cases c <;> simp only [Call.trainingBody, reduceCtorEq] at hc <;> simp only [Call.writes] <;> decide
  refine (perform_holds (I := fun _ _ => True) (R := fun d d' => d'.rows k = d.rows k) (fun _ _ _ _ h => h) (fun _ => rfl)
    (fun _ _ _ h₁ h₂ => h₂.trans h₁) (fun _ _ _ _ h => ⟨trivial, commit_rows h k hw⟩) (perform_links env c w) trivial).2

/-- **What a call does to the processed tables**, with the clock it read. -/
theorem perform_booked (env : Env) (c : Call) (w : World) :
    ∃ now, Booked now c w.db.toTables (perform env c w).2.db.toTables := by
  cases hc : c.trainingBody with
  | none =>
    have h := fun k hk => perform_untouched env hc w (k := k) hk
    exact ⟨0, .idle (h .processedGroups (by decide)) (h .batches (by decide)) (h .processedRollouts (by decide))⟩
  | some body =>
    rcases perform_settles env hc w with ⟨_, hd⟩ | ⟨_, now, h⟩
    · rw [hd]
      exact ⟨0, .idle rfl rfl rfl⟩
    · exact ⟨now, booked_of_returns hc h⟩

theorem step_booked (env : Env) (s : Step) (w : World) :
    ∃ now, Booked now s.call w.db.toTables (s.run env w).db.toTables :=
  perform_booked env s.call { w with crashAfter := s.crashAfter, torn := s.torn }

theorem runFrom_records (env : Env) (steps : List Step) (w : World) :
    w.db.toTables.Records (runFrom env w steps).db.toTables :=
  runFrom_keeps env (R := fun w w' => w.db.toTables.Records w'.db.toTables) (fun w => Records.refl _)
    (fun _ _ _ => Records.trans) (fun s w => by
      obtain ⟨_, h⟩ := step_booked env s w
      exact h.records) steps w

theorem reached_snoc (env : Env) (steps : List Step) (s : Step) :
    reached env (steps ++ [s]) = s.run env (reached env steps) := runFrom_append env _ steps [s]

/-- **Steps are numbered from one without gap** in every reached state. -/
theorem reached_numbered (env : Env) (steps : List Step) : (reached env steps).db.toTables.Numbered := by
  induction steps using List.reverseRecOn with
  | nil => rfl
  | append_singleton steps s ih =>
    rw [reached_snoc]
    obtain ⟨_, h⟩ := step_booked env s (reached env steps)
    exact h.numbered ih

/-- The batch `x` was first recorded by a call of the run, and its members are those the call passed. -/
def FirstRecorded (env : Env) (steps : List Step) (x : BatchRow) : Prop :=
  ∃ before s after b, steps = before ++ s :: after ∧ s.call = .recordTrainingBatch b ∧ b.step = x.step ∧
    (∀ y ∈ (reached env before).db.batches, y.step ≠ x.step) ∧ x ∈ (reached env (before ++ [s])).db.batches ∧
    (reached env steps).db.batchMembers x.step = b.members

/-- **Every batch has the members its first call passed**, in order, as long as the run goes on. -/
theorem reached_firstRecorded (env : Env) (steps : List Step) :
    ∀ x ∈ (reached env steps).db.batches, FirstRecorded env steps x := by
  induction steps using List.reverseRecOn with
  | nil => exact fun x hx => absurd hx List.not_mem_nil
  | append_singleton steps s ih =>
    intro x hx
    obtain ⟨_, h⟩ := step_booked env s (reached env steps)
    rw [reached_snoc] at hx
    by_cases hold : ∃ y ∈ (reached env steps).db.batches, y.step = x.step
    · obtain ⟨y, hy, hyx⟩ := hold
      have he : y = x := Rows.eq_of_key _ (s.run env (reached env steps)).db.ok.batches.key
        (h.records.batches.subset hy) hx hyx
      subst he
      obtain ⟨before, s₀, after, b, rfl, hcall, hstep, hno, hin, hmem⟩ := ih y hy
      refine ⟨before, s₀, after ++ [s], b, by simp, hcall, hstep, hno, hin, ?_⟩
      rw [reached_snoc, h.records.members y hy, hmem]
    · simp only [not_exists, not_and] at hold
      obtain ⟨b, hcall, hstep, hmem⟩ := h.recorded (reached env steps).db.ok hx hold
      refine ⟨steps, s, [], b, rfl, hcall, hstep, hold, ?_, ?_⟩ <;> rw [reached_snoc]
      · exact hx
      · exact hmem

/-! ## Refused calls and repeated ones -/

/-- Arguments the tables refuse: another output than the recorded one, a step that is not the next, a member that is
unknown, repeated, discarded or batched. -/
def Call.Refused (t : Tables) : Call → Prop
  | .recordProcessedGroup p => ∃ g, t.processedGroup? p.groupId = some g ∧ ¬ p.Matches g
  | .discardProcessedRollouts ms => ¬ ms.Nodup ∨ ∃ m ∈ ms, m ∉ t.pendingKeys
  | .recordTrainingBatch b => (∃ x, t.batch? b.step = some x ∧ ¬ b.Matches x) ∨
      (t.batch? b.step = none ∧
        (b.step ≠ t.batches.length + 1 ∨ ¬ b.members.Nodup ∨ ∃ m ∈ b.members, m ∉ t.pendingKeys))
  | _ => False

/-- What the call records is there as it would record it. -/
def Call.Recorded (t : Tables) : Call → Prop
  | .recordProcessedGroup p => ∃ g, t.processedGroup? p.groupId = some g ∧ p.Matches g
  | .recordTrainingBatch b => (b.members ≠ [] ∧ 1 ≤ b.sampleCount) ∧ ∃ x, t.batch? b.step = some x ∧ b.Matches x
  | _ => False

/-- The two calls that record an artifact. -/
def Call.records : Call → Bool
  | .recordProcessedGroup _ | .recordTrainingBatch _ => true
  | _ => false

theorem Call.Refused.training (h : c.Refused t) : c.trainingBody ≠ none := by
  cases c <;> first | exact absurd h id | exact Option.some_ne_none _

/-- **A training operation that commits was not refused.** -/
theorem not_refused_of_returns {body : Time → Body Unit} {d d' : Db} (hc : c.trainingBody = some body)
    (hn : d.toTables.Numbered) (h : Returns (body now) d () d') : ¬ c.Refused d.toTables := by
  cases c <;> simp only [Call.trainingBody, Option.some.injEq, reduceCtorEq] at hc <;> subst hc
  · rintro ⟨g, hg, hno⟩
    rcases returns_recordProcessedGroupBody h with ⟨_, g', hg', hm⟩ | ⟨hnew, _⟩
    · exact hno (Option.some.inj (hg'.symm.trans hg) ▸ hm)
    · exact absurd (hg.symm.trans hnew) (by simp)
  · obtain ⟨hm, hin, _⟩ := returns_discardBody h
    rintro (hno | ⟨m, hmem, hno⟩)
    · exact hno hm
    · exact hno (hin m hmem)
  · rcases returns_recordTrainingBatchBody h with ⟨_, x', hx', hm⟩ | ⟨hnew, hstep, hm, hin, _⟩
    · rintro (⟨x, hx, hno⟩ | ⟨hno, _⟩)
      · exact hno (Option.some.inj (hx'.symm.trans hx) ▸ hm)
      · exact absurd (hx'.symm.trans hno) (by simp)
    · rintro (⟨x, hx, _⟩ | ⟨_, hno | hno | ⟨m, hmem, hno⟩⟩)
      · exact absurd (hx.symm.trans hnew) (by simp)
      · exact hno (hstep.trans hn.next)
      · exact hno hm
      · exact hno (hin m hmem)

/-- **What a recording call that returned recorded.** -/
theorem recorded_of_returned {env : Env} {w : World} (hc : c.records = true) (h : (perform env c w).1 = .ok ()) :
    c.Recorded (perform env c w).2.db.toTables := by
  cases c <;> simp only [Call.records, Bool.false_eq_true] at hc
  case recordProcessedGroup p =>
    obtain ⟨hno, _⟩ | ⟨_, t, ht⟩ := @perform_settles env (.recordProcessedGroup p) _ rfl w
    · exact absurd h hno
    · rcases returns_recordProcessedGroupBody ht with ⟨he, g, hg, hm⟩ | ⟨hnew, _, f, ht⟩
      · rw [he]
        exact ⟨g, hg, hm⟩
      · refine ⟨p.row t, ?_, p.matches_row t⟩
        have hrows : (perform env (.recordProcessedGroup p) w).2.db.processedGroups =
            w.db.processedGroups ++ [p.row t] := by
          rw [ht]
          rfl
        rw [processedGroup?, hrows, Rows.get_append, show Rows.get _ _ _ = none from hnew, Option.none_or]
        exact if_pos rfl
  case recordTrainingBatch b =>
    have hargs : b.members ≠ [] ∧ 1 ≤ b.sampleCount := by
      by_contra hno
      simp only [perform, recordTrainingBatch, raiseUnless_bind, if_neg hno] at h
      cases h
    obtain ⟨hno, _⟩ | ⟨_, t, ht⟩ := @perform_settles env (.recordTrainingBatch b) _ rfl w
    · exact absurd h hno
    · rcases returns_recordTrainingBatchBody ht with ⟨he, x, hx, hm⟩ | ⟨hnew, _, _, _, ht⟩
      · rw [he]
        exact ⟨hargs, x, hx, hm⟩
      · refine ⟨hargs, b.row t, ?_, b.matches_row t⟩
        have hrows : (perform env (.recordTrainingBatch b) w).2.db.batches = w.db.batches ++ [b.row t] := by
          rw [ht]
          rfl
        rw [batch?, hrows, Rows.get_append, show Rows.get _ _ _ = none from hnew, Option.none_or]
        exact if_pos rfl

theorem Call.Recorded.mono (h : c.Recorded t) (hr : t.Records t') : c.Recorded t' := by
  cases c <;> try exact h
  case recordProcessedGroup p =>
    obtain ⟨g, hg, hm⟩ := h
    exact ⟨g, Rows.get_of_prefix _ hr.groups hg, hm⟩
  case recordTrainingBatch b =>
    obtain ⟨hargs, x, hx, hm⟩ := h
    exact ⟨hargs, x, Rows.get_of_prefix _ hr.batches hx, hm⟩

/-- **A call that repeats what is recorded changes nothing**, and returns unless it dies. -/
theorem Call.Recorded.repeated (env : Env) {w : World} (h : c.Recorded w.db.toTables) :
    (perform env c w).2.db = w.db ∧ (w.crashAfter = none → (perform env c w).1 = .ok ()) := by
  cases c <;> try exact absurd h id
  case recordProcessedGroup p =>
    obtain ⟨g, hg, hm⟩ := h
    have hret : ∀ t, Returns (recordProcessedGroupBody p t) w.db () w.db := by
      intro t
      simp only [recordProcessedGroupBody, returns_bind, returns_tables]
      refine ⟨_, w.db, ⟨rfl, rfl⟩, ?_⟩
      rw [show w.db.processedGroups.find? _ = some g from hg]
      simp only [Txn.returns_raiseIf, not_not]
      exact ⟨hm, trivial⟩
    refine ⟨?_, fun hw => ?_⟩
    · obtain ⟨_, hd⟩ | ⟨_, t, ht⟩ := @perform_settles env (.recordProcessedGroup p) _ rfl w
      · exact hd
      · rcases returns_recordProcessedGroupBody ht with ⟨he, _⟩ | ⟨hnew, _⟩
        · exact he
        · exact absurd (hg.symm.trans hnew) (by simp)
    · exact congrArg Prod.fst (transaction_ok (w := { w with reads := w.reads + 1 }) hw (hret _))
  case recordTrainingBatch b =>
    obtain ⟨hargs, x, hx, hm⟩ := h
    have hret : ∀ t, Returns (recordTrainingBatchBody b t) w.db () w.db := by
      intro t
      simp only [recordTrainingBatchBody, returns_bind, returns_tables]
      refine ⟨_, w.db, ⟨rfl, rfl⟩, ?_⟩
      rw [show w.db.batches.find? _ = some x from hx]
      simp only [Txn.returns_raiseIf, not_not]
      exact ⟨hm, trivial⟩
    refine ⟨?_, fun hw => ?_⟩
    · obtain ⟨_, hd⟩ | ⟨_, t, ht⟩ := @perform_settles env (.recordTrainingBatch b) _ rfl w
      · exact hd
      · rcases returns_recordTrainingBatchBody ht with ⟨he, _⟩ | ⟨hnew, _⟩
        · exact he
        · exact absurd (hx.symm.trans hnew) (by simp)
    · simp only [perform, Repo.recordTrainingBatch, raiseUnless_bind, if_pos hargs]
      exact congrArg Prod.fst (transaction_ok (w := { w with reads := w.reads + 1 }) hw (hret _))

/-! ## Every reached state -/

/-- **The accounts of the processed rollouts**: in every reached state each of them is pending, discarded or in one batch
at an ordinal of its own, the batches are `1..n`, and each has the members its first call passed, in order.  Every step
only adds pending rollouts and takes rollouts out of the pending ones; a training operation that does not return leaves
every table alone, one the tables refuse does not return, and one that recorded an artifact changes nothing when it is
repeated, however the run went on. -/
theorem processed_rollouts_accounted (env : Env) (steps : List Step) :
    (reached env steps).db.Placed ∧ (reached env steps).db.Numbered ∧
    (∀ x ∈ (reached env steps).db.batches, FirstRecorded env steps x) ∧
    ∀ s : Step, (reached env steps).db.Accounts (s.run env (reached env steps)).db.toTables ∧
      (s.call.trainingBody.isSome → ¬ s.Returned env (reached env steps) →
        (s.run env (reached env steps)).db = (reached env steps).db) ∧
      (s.call.Refused (reached env steps).db.toTables → ¬ s.Returned env (reached env steps)) ∧
      (s.call.records = true → s.Returned env (reached env steps) →
        ∀ (more : List Step) (again : Step), again.call = s.call →
        (again.run env (reached env (steps ++ s :: more))).db = (reached env (steps ++ s :: more)).db ∧
        (again.crashAfter = none → again.Returned env (reached env (steps ++ s :: more)))) := by
  have hok := (reached env steps).db.ok
  refine ⟨placed_of_schema hok, reached_numbered env steps, reached_firstRecorded env steps, fun s => ?_⟩
  refine ⟨?_, fun ht hno => ?_, fun href hret => ?_, fun hrec hret more again hcall => ?_⟩
  · obtain ⟨_, h⟩ := step_booked env s (reached env steps)
    exact h.accounts hok
  · obtain ⟨body, hb⟩ := Option.isSome_iff_exists.1 ht
    rcases perform_settles env hb { reached env steps with crashAfter := s.crashAfter, torn := s.torn }
      with h | ⟨hok, _⟩
    · exact h.2
    · exact absurd hok hno
  · cases hb : s.call.trainingBody with
    | none => exact href.training hb
    | some body =>
      rcases perform_settles env hb { reached env steps with crashAfter := s.crashAfter, torn := s.torn }
        with ⟨hno, _⟩ | ⟨_, now, h⟩
      · exact hno hret
      · exact not_refused_of_returns hb (reached_numbered env steps) h href
  · have hdone : s.call.Recorded (s.run env (reached env steps)).db.toTables := recorded_of_returned hrec hret
    have hrun : reached env (steps ++ s :: more) = runFrom env (s.run env (reached env steps)) more :=
      runFrom_append env _ steps (s :: more)
    have hlater := hdone.mono (runFrom_records env more _)
    rw [← hcall, ← hrun] at hlater
    have h := Call.Recorded.repeated env
      (w := { reached env (steps ++ s :: more) with crashAfter := again.crashAfter, torn := again.torn }) hlater
    exact ⟨h.1, h.2⟩

end Aether
