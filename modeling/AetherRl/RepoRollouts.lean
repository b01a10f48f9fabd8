import Mathlib.Data.List.Perm.Subperm
import Mathlib.Data.List.Nodup
import AetherRl.RepoWrites
/-!
# RepoRollouts — what the training operations commit

One law for each of `record_processed_group`, `discard_processed_rollouts` and `record_training_batch`: what its body
has checked when it returns, and the tables it leaves.  Repeated, unknown and unavailable members are found by counting
the rows an `UPDATE` touched or a `SELECT` found; `count_members` says what an equal count means.
-/
namespace Aether

open Txn (Returns returns_bind returns_pure returns_raiseIf forEach)
open Tables Repo

/-- The keys of the pending rollouts. -/
def Tables.pendingKeys (t : Tables) : List (OpaqueId × Int) :=
  (t.processedRollouts.filter ProcessedRolloutRow.pending).map ProcessedRolloutRow.key

theorem Tables.mem_pendingKeys {t : Tables} {k : OpaqueId × Int} :
    k ∈ t.pendingKeys ↔ ∃ r ∈ t.processedRollouts, r.pending = true ∧ r.key = k := by
  simp [pendingKeys, and_assoc]

theorem Tables.pendingKeys_nodup {t : Tables} (hk : SchemaOk t) : t.pendingKeys.Nodup :=
  hk.processed.key.sublist (List.filter_sublist.map _)

/-- **As many of them found as were asked for**: none repeated, none missing. -/
theorem count_members {κ : Type} [BEq κ] [LawfulBEq κ] {found members : List κ} (hn : found.Nodup)
    (hc : (found.filter (fun k => decide (k ∈ members))).length = members.length) :
    members.Nodup ∧ ∀ k ∈ members, k ∈ found := by
  have hp : (found.filter (fun k => decide (k ∈ members))).Perm members := by
    refine List.Subperm.perm_of_length_le ((hn.filter _).subperm fun k hk => ?_) hc.ge
    simpa using (List.mem_filter.1 hk).2
  exact ⟨hp.nodup_iff.1 (hn.filter _), fun k hk => List.mem_of_mem_filter (hp.mem_iff.2 hk)⟩

/-! ## Discarding -/

/-- What the discard of `members` makes of a row. -/
def discardRow (members : List (OpaqueId × Int)) (r : ProcessedRolloutRow) : ProcessedRolloutRow :=
  if r.key ∈ members ∧ r.pending then { r with discarded := true } else r

@[simp] theorem discardRow_key (members : List (OpaqueId × Int)) (r : ProcessedRolloutRow) :
    (discardRow members r).key = r.key := by
  unfold discardRow
  split <;> rfl

/-- A discarded row does not wait any more; the others wait as before. -/
theorem discardRow_pending (members : List (OpaqueId × Int)) (r : ProcessedRolloutRow) :
    (discardRow members r).pending = (r.pending && decide (r.key ∉ members)) := by
  unfold discardRow
  split
  · rename_i h
    simp [ProcessedRolloutRow.pending, h.1]
  · rename_i h
    by_cases hm : r.key ∈ members
    · simp [hm, Bool.eq_false_iff.2 (fun hp => h ⟨hm, hp⟩)]
    · simp [hm]

/-- One discard after the other is the discard of both. -/
theorem discardRow_discardRow (m : OpaqueId × Int) (ms : List (OpaqueId × Int)) (r : ProcessedRolloutRow) :
    discardRow ms (discardRow [m] r) = discardRow (m :: ms) r := by
  by_cases hp : r.pending = true
  · by_cases hm : r.key = m
    · have h₁ : discardRow [m] r = { r with discarded := true } := if_pos ⟨by simp [hm], hp⟩
      have h₂ : ({ r with discarded := true } : ProcessedRolloutRow).pending = false := by
        simp [ProcessedRolloutRow.pending]
      rw [h₁, discardRow, if_neg (fun h => by rw [h₂] at h; cases h.2), discardRow, if_pos ⟨by simp [hm], hp⟩]
    · have h₁ : discardRow [m] r = r := if_neg fun h => hm (by simpa using h.1)
      rw [h₁]
      simp [discardRow, hm]
  · have hno : ∀ l, discardRow l r = r := fun l => if_neg fun h => hp h.2
    rw [hno, hno, hno]

theorem pendingKeys_discard (members : List (OpaqueId × Int)) (t : Tables) :
    (setProcessedRollouts (discardRow members) t).pendingKeys =
      t.pendingKeys.filter (fun k => decide (k ∉ members)) := by
  simp only [pendingKeys, setProcessedRollouts_processedRollouts]
  induction t.processedRollouts with
  | nil => rfl
  | cons r l ih =>
    simp only [List.map_cons, List.filter_cons, discardRow_pending]
    by_cases hp : r.pending = true <;> by_cases hm : r.key ∈ members <;> simp [hp, hm, ih]

section
variable {d d' : Db}

theorem returns_discardOne {m : OpaqueId × Int} {n : Nat} (h : Returns (discardOne m) d n d') :
    n = d.pendingKeys.count m ∧ d'.toTables = setProcessedRollouts (discardRow [m]) d.toTables := by
  simp only [discardOne, returns_bind, returns_tables, returns_exec, returns_pure] at h
  obtain ⟨_, _, ⟨rfl, rfl⟩, _, d₁, h₁, rfl, rfl⟩ := h
  constructor
  · rw [List.count, pendingKeys, List.countP_map, List.countP_eq_length_filter, List.filter_filter]
    congr 2
    funext r
    simp [Bool.beq_eq_decide_eq]
  · rw [h₁]
    congr 1
    funext r
    simp only [discardRow, List.mem_singleton]

/-- **The rows the discard loop touched**: as many as it was given only if they all waited and none came twice. -/
theorem returns_discardEach : ∀ {members : List (OpaqueId × Int)} {d d' : Db} {n : Nat},
    Returns (discardEach members) d n d' →
      d'.toTables = setProcessedRollouts (discardRow members) d.toTables ∧ n ≤ members.length ∧
      (n = members.length → members.Nodup ∧ ∀ m ∈ members, m ∈ d.pendingKeys)
  | [], d, d', n, h => by
    rw [discardEach, returns_pure] at h
    obtain ⟨rfl, rfl⟩ := h
    refine ⟨?_, le_rfl, fun _ => ⟨List.nodup_nil, fun m hm => absurd hm List.not_mem_nil⟩⟩
    have hid : discardRow [] = id := by
      funext r
      exact if_neg fun h => absurd h.1 List.not_mem_nil
    simp [setProcessedRollouts, hid]
  | m :: ms, d, d', n, h => by
    simp only [discardEach, returns_bind, returns_pure] at h
    obtain ⟨hit, d₁, h₁, rest, d₂, h₂, rfl, rfl⟩ := h
    obtain ⟨hhit, ht₁⟩ := returns_discardOne h₁
    obtain ⟨ht₂, hle, hall⟩ := returns_discardEach h₂
    have hone : hit ≤ 1 := hhit.trans_le (List.nodup_iff_count_le_one.1 (pendingKeys_nodup d.ok) m)
    refine ⟨?_, ?_, fun hn => ?_⟩
    · rw [ht₂, ht₁]
      simp only [setProcessedRollouts, List.map_map]
      congr 2
      funext r
      exact discardRow_discardRow m ms r
    · rw [List.length_cons]
      omega
    · rw [List.length_cons] at hn
      obtain ⟨hnd, hin⟩ := hall (by omega)
      rw [ht₁, pendingKeys_discard] at hin
      have hm : m ∈ d.pendingKeys := List.one_le_count_iff.1 (by omega)
      refine ⟨List.nodup_cons.2 ⟨fun hmem => ?_, hnd⟩, fun k hk => ?_⟩
      · simpa using (List.mem_filter.1 (hin m hmem)).2
      · rcases List.mem_cons.1 hk with rfl | hk
        · exact hm
        · exact List.mem_of_mem_filter (hin k hk)

/-- **What a discard commits**: its members, all different and all waiting, are discarded. -/
theorem returns_discardBody {members : List (OpaqueId × Int)} {u : Unit} (h : Returns (discardBody members) d u d') :
    members.Nodup ∧ (∀ m ∈ members, m ∈ d.pendingKeys) ∧
      d'.toTables = setProcessedRollouts (discardRow members) d.toTables := by
  simp only [discardBody, returns_bind, returns_raiseIf, not_not] at h
  obtain ⟨n, d₁, h₁, hn, rfl⟩ := h
  obtain ⟨ht, _, hall⟩ := returns_discardEach h₁
  exact ⟨(hall hn).1, (hall hn).2, ht⟩

/-! ## Recording a group -/

def Repo.ProcessedGroupArgs.row (p : ProcessedGroupArgs) (now : Time) : ProcessedGroupRow :=
  ⟨p.groupId, p.inputDigest, p.artifactDigest, p.artifactPath, p.sizeBytes, p.tokenCounts.length, now⟩

/-- The recorded row is what the call would record. -/
def Repo.ProcessedGroupArgs.Matches (p : ProcessedGroupArgs) (g : ProcessedGroupRow) : Prop :=
  g.inputDigest = p.inputDigest ∧ g.artifactDigest = p.artifactDigest ∧ g.artifactPath = p.artifactPath ∧
    g.sizeBytes = p.sizeBytes ∧ g.rolloutCount = p.tokenCounts.length

instance (p : ProcessedGroupArgs) (g : ProcessedGroupRow) : Decidable (p.Matches g) :=
  inferInstanceAs (Decidable (_ ∧ _))

theorem Repo.ProcessedGroupArgs.matches_row (p : ProcessedGroupArgs) (now : Time) : p.Matches (p.row now) :=
  ⟨rfl, rfl, rfl, rfl, rfl⟩

/-- The row of a processed group. -/
def Tables.processedGroup? (t : Tables) (i : OpaqueId) : Option ProcessedGroupRow :=
  Rows.get (·.groupId) i t.processedGroups

/-- **What recording a group commits**: nothing when it is recorded as it is, else one row and its rollouts. -/
theorem returns_recordProcessedGroupBody {p : ProcessedGroupArgs} {now : Time} {u : Unit}
    (h : Returns (recordProcessedGroupBody p now) d u d') :
    (d' = d ∧ ∃ g, d.processedGroup? p.groupId = some g ∧ p.Matches g) ∨
    (d.processedGroup? p.groupId = none ∧ (∃ g, d.group? p.groupId = some g ∧ g.state = .ready) ∧
      ∃ f, d'.toTables = setResults f (insertProcessedRollouts (newRollouts p.groupId p.tokenCounts)
        (insertProcessedGroup (p.row now) d.toTables))) := by
  simp only [recordProcessedGroupBody, returns_bind, returns_tables] at h
  obtain ⟨_, d₀, ⟨rfl, rfl⟩, h⟩ := h
  have hget : d₀.processedGroups.find? (fun g => decide (g.groupId = p.groupId)) = d₀.processedGroup? p.groupId := rfl
  rw [hget] at h
  cases hg : d₀.processedGroup? p.groupId with
  | some g =>
    rw [hg] at h
    simp only [returns_raiseIf, not_not] at h
    exact Or.inl ⟨h.2, g, rfl, h.1⟩
  | none =>
    rw [hg] at h
    simp only [returns_bind, returns_tables, returns_raiseIf, returns_exec, not_not] at h
    obtain ⟨_, _, ⟨rfl, rfl⟩, _, _, ⟨hready, rfl⟩, _, d₁, h₁, _, d₂, h₂, _, _, ⟨rfl, rfl⟩, h₃⟩ := h
    refine Or.inr ⟨rfl, ?_, _, by rw [h₃, h₂, h₁]; rfl⟩
    rw [Option.any_eq_true] at hready
    simpa using hready

/-! ## Recording a batch -/

def Repo.TrainingBatchArgs.row (b : TrainingBatchArgs) (now : Time) : BatchRow :=
  ⟨b.step, b.artifactDigest, b.artifactPath, b.sizeBytes, b.sampleCount, now⟩

/-- The recorded row is what the call would record. -/
def Repo.TrainingBatchArgs.Matches (b : TrainingBatchArgs) (x : BatchRow) : Prop :=
  x.artifactDigest = b.artifactDigest ∧ x.artifactPath = b.artifactPath ∧ x.sizeBytes = b.sizeBytes ∧
    x.sampleCount = b.sampleCount

instance (b : TrainingBatchArgs) (x : BatchRow) : Decidable (b.Matches x) := inferInstanceAs (Decidable (_ ∧ _))

theorem Repo.TrainingBatchArgs.matches_row (b : TrainingBatchArgs) (now : Time) : b.Matches (b.row now) :=
  ⟨rfl, rfl, rfl, rfl⟩

/-- The row of a training step. -/
def Tables.batch? (t : Tables) (step : Int) : Option BatchRow := Rows.get (·.step) step t.batches

/-- What placing `members` in the batch `step`, from the ordinal `k` on, makes of a row. -/
def placeRow (step : Int) (k : Nat) (members : List (OpaqueId × Int)) (r : ProcessedRolloutRow) : ProcessedRolloutRow :=
  if r.key ∈ members ∧ r.batchStep = none then
    { r with batchStep := some step, batchOrdinal := some ((k + members.idxOf r.key : Nat) : Int) }
  else r

@[simp] theorem placeRow_key (step : Int) (k : Nat) (members : List (OpaqueId × Int)) (r : ProcessedRolloutRow) :
    (placeRow step k members r).key = r.key := by
  unfold placeRow
  split <;> rfl

/-- Placing the first member and then the others. -/
theorem placeRow_placeRow (step : Int) (k : Nat) (m : OpaqueId × Int) (ms : List (OpaqueId × Int))
    (r : ProcessedRolloutRow) :
    placeRow step (k + 1) ms (if r.key = m ∧ r.batchStep = none then
      { r with batchStep := some step, batchOrdinal := some (k : Int) } else r) = placeRow step k (m :: ms) r := by
  by_cases hb : r.batchStep = none
  · by_cases hm : r.key = m
    · rw [if_pos ⟨hm, hb⟩, placeRow, if_neg (fun h => by cases h.2), placeRow, if_pos ⟨by simp [hm], hb⟩]
      simp [hm]
    · rw [if_neg (fun h => hm h.1)]
      unfold placeRow
      by_cases hin : r.key ∈ ms
      · rw [if_pos ⟨hin, hb⟩, if_pos ⟨List.mem_cons_of_mem _ hin, hb⟩, List.idxOf_cons_ne _ (Ne.symm hm)]
        congr 3
        omega
      · rw [if_neg (fun h => hin h.1), if_neg (fun h => by simp [hm, hin] at h)]
  · rw [if_neg (fun h => hb h.2), placeRow, if_neg (fun h => hb h.2), placeRow, if_neg (fun h => hb h.2)]

/-- **The placing loop numbers the members in order.** -/
theorem returns_placeMembers (step : Int) : ∀ {members : List (OpaqueId × Int)} {k : Nat} {d d' : Db} {u : Unit},
    Returns (forEach (members.zipIdx k) (placeMember step)) d u d' →
      d'.toTables = setProcessedRollouts (placeRow step k members) d.toTables
  | [], k, d, d', u, h => by
    rw [List.zipIdx_nil, Txn.forEach_nil, returns_pure] at h
    have hid : placeRow step k [] = id := by
      funext r
      exact if_neg fun h => absurd h.1 List.not_mem_nil
    rw [h.2]
    simp [setProcessedRollouts, hid]
  | m :: ms, k, d, d', u, h => by
    rw [List.zipIdx_cons, Txn.forEach_cons, returns_bind] at h
    obtain ⟨_, d₁, h₁, h₂⟩ := h
    rw [placeMember, returns_exec] at h₁
    rw [returns_placeMembers step h₂, h₁]
    simp only [setProcessedRollouts, List.map_map]
    congr 2
    funext r
    exact placeRow_placeRow step k m ms r

/-- **What recording a batch commits**: nothing when its step is recorded with its output, else the next step and its
members, all different and all waiting, in order. -/
theorem returns_recordTrainingBatchBody {b : TrainingBatchArgs} {now : Time} {u : Unit}
    (h : Returns (recordTrainingBatchBody b now) d u d') :
    (d' = d ∧ ∃ x, d.batch? b.step = some x ∧ b.Matches x) ∨
    (d.batch? b.step = none ∧ b.step = nextTrainingBatchStep d.toTables ∧ b.members.Nodup ∧
      (∀ m ∈ b.members, m ∈ d.pendingKeys) ∧
      d'.toTables = setProcessedRollouts (placeRow b.step 0 b.members) (insertBatch (b.row now) d.toTables)) := by
  simp only [recordTrainingBatchBody, returns_bind, returns_tables] at h
  obtain ⟨_, d₀, ⟨rfl, rfl⟩, h⟩ := h
  have hget : d₀.batches.find? (fun x => decide (x.step = b.step)) = d₀.batch? b.step := rfl
  rw [hget] at h
  cases hx : d₀.batch? b.step with
  | some x =>
    rw [hx] at h
    simp only [returns_raiseIf, not_not] at h
    exact Or.inl ⟨h.2, x, rfl, h.1⟩
  | none =>
    rw [hx] at h
    simp only [returns_bind, returns_tables, returns_raiseIf, returns_exec, not_not] at h
    obtain ⟨_, _, ⟨rfl, rfl⟩, _, _, ⟨hstep, rfl⟩, _, _, ⟨_, rfl⟩, _, _, ⟨rfl, rfl⟩, _, d₀, ⟨hcount, rfl⟩, _, d₁, h₁,
      h₂⟩ := h
    have hc : (d₀.pendingKeys.filter (fun k => decide (k ∈ b.members))).length = b.members.length := by
      rw [← hcount, pendingKeys, List.filter_map, List.length_map, List.filter_filter]
      congr 2
      funext r
      simp [Bool.and_comm]
    obtain ⟨hn, hin⟩ := count_members (pendingKeys_nodup d₀.ok) hc
    exact Or.inr ⟨rfl, hstep, hn, hin, by rw [returns_placeMembers b.step h₂, h₁]; rfl⟩

end

end Aether
