import AetherRl.RepoAccounts
import AetherRl.RepoTrainingAdmits
/-!
# RepoCounts — every rollout of a recorded group has its row

A group is recorded with its rollouts in one transaction, and no rollout goes: the rows of a group are numbered from zero
up to its count, whatever has become of them.
-/
namespace Aether

open Tables Repo

variable {t t' : Tables} {now : Time} {c : Call}

/-- The rows of a group's rollouts. -/
def Tables.rolloutsOf (t : Tables) (group : OpaqueId) : List ProcessedRolloutRow :=
  t.processedRollouts.filter fun r => decide (r.groupId = group)

/-- The rollouts of every recorded group are numbered up to its count. -/
def Tables.Counted (t : Tables) : Prop :=
  ∀ g ∈ t.processedGroups, (t.rolloutsOf g.groupId).map (·.ordinal) = (List.range g.rolloutCount).map fun n : Nat => (n : Int)

theorem Tables.Counted.lt (h : t.Counted) {g : ProcessedGroupRow} (hg : g ∈ t.processedGroups) {r : ProcessedRolloutRow}
    (hr : r ∈ t.processedRollouts) (hid : r.groupId = g.groupId) : r.ordinal.toNat < g.rolloutCount := by
  have hmem : r.ordinal ∈ (t.rolloutsOf g.groupId).map (·.ordinal) :=
    List.mem_map_of_mem (List.mem_filter.2 ⟨hr, decide_eq_true hid⟩)
  rw [h g hg, List.mem_map] at hmem
  obtain ⟨n, hn, he⟩ := hmem
  rw [← he, Int.toNat_natCast]
  exact List.mem_range.1 hn

/-- An update that keeps the keys keeps the counts. -/
theorem Tables.Counted.map {f : ProcessedRolloutRow → ProcessedRolloutRow} (h : t.Counted) (hkey : ∀ r, (f r).key = r.key)
    (hg : t'.processedGroups = t.processedGroups) (hr : t'.processedRollouts = t.processedRollouts.map f) : t'.Counted := by
  have hgroup : ∀ r, (f r).groupId = r.groupId := fun r => congrArg Prod.fst (hkey r)
  have hordinal : ∀ r, (f r).ordinal = r.ordinal := fun r => congrArg Prod.snd (hkey r)
  intro g hmem
  rw [hg] at hmem
  rw [← h g hmem, rolloutsOf, hr, List.filter_map, List.map_map]
  unfold rolloutsOf
  simp only [Function.comp_def, hgroup, hordinal]

/-- **What a call books keeps the counts.** -/
theorem Booked.counted (hk : SchemaOk t) (hc : t.Counted) (h : Booked now c t t') : t'.Counted := by
  cases h with
  | idle hg hb hr => exact hc.map (f := id) (fun _ => rfl) hg (by rw [hr, List.map_id])
  | discard hm hin ht => exact hc.map (discardRow_key _) (by rw [ht]; rfl) (by rw [ht]; rfl)
  | batch hnew hn hm hin ht => exact hc.map (placeRow_key _ _ _) (by rw [ht]; rfl) (by rw [ht]; rfl)
  | @group p t t' hnew hg hb hr =>
    have hnone : ∀ g ∈ t.processedGroups, g.groupId ≠ p.groupId := (Rows.get_eq_none _).1 hnew
    intro g hmem
    rw [hg, List.mem_append, List.mem_singleton] at hmem
    rw [rolloutsOf, hr, List.filter_append, List.map_append]
    obtain hold | rfl := hmem
    · -- the new rows are another group's
      have hnil : (newRollouts p.groupId p.tokenCounts).filter (fun r => decide (r.groupId = g.groupId)) = [] :=
        List.filter_eq_nil_iff.2 fun r hr => by
          rw [decide_eq_true_eq, (newRollouts_row hr).1]
          exact (hnone g hold).symm
      rw [hnil, List.map_nil, List.append_nil]
      exact hc g hold
    · have hnil : t.processedRollouts.filter (fun r => decide (r.groupId = (p.row now).groupId)) = [] :=
        List.filter_eq_nil_iff.2 fun r hr => by
          obtain ⟨g, hg, hid⟩ := hk.processed.processed r hr
          rw [decide_eq_true_eq, ← hid]
          exact hnone g hg
      have hall : (newRollouts p.groupId p.tokenCounts).filter (fun r => decide (r.groupId = (p.row now).groupId)) =
          newRollouts p.groupId p.tokenCounts :=
        List.filter_eq_self.2 fun r hr => decide_eq_true (newRollouts_row hr).1
      have hkeys := congrArg (List.map Prod.snd) (newRollouts_key p.groupId p.tokenCounts)
      rw [List.map_map, List.map_map] at hkeys
      rw [hnil, hall, List.map_nil, List.nil_append]
      exact hkeys

theorem perform_counted (env : Env) (c : Call) {w : World} (h : w.db.toTables.Counted) :
    (perform env c w).2.db.toTables.Counted := by
  obtain ⟨now, hbooked⟩ := perform_booked env c w
  exact hbooked.counted w.db.ok h

end Aether
