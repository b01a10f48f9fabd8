import AetherRl.Rows
/-!
# Rank — numbering rows by counting

The rank of a key is how many rows' keys do not exceed it.  Rows of distinct keys are numbered by their ranks from one,
without gap and in the order of their keys, whatever order they stand in.
-/
namespace Rank

variable {ρ κ : Type} [LinearOrder κ] (key : ρ → κ)

def rank (l : List ρ) (k : κ) : Nat := l.countP fun r => decide (key r ≤ k)

variable {key} {l l' : List ρ}

theorem rank_cons (r : ρ) (l : List ρ) (k : κ) : rank key (r :: l) k = rank key l k + if key r ≤ k then 1 else 0 := by
  simp [rank, List.countP_cons]

theorem rank_of_perm (h : l.Perm l') (k : κ) : rank key l k = rank key l' k := h.countP_eq _

theorem rank_mono {k k' : κ} (h : k ≤ k') : rank key l k ≤ rank key l k' :=
  List.countP_mono_left fun _ _ hr => decide_eq_true ((of_decide_eq_true hr).trans h)

/-- **A greater key of a row has a greater rank.** -/
theorem rank_lt : ∀ {l : List ρ} {k k' : κ}, k < k' → (∃ r ∈ l, key r = k') → rank key l k < rank key l k'
  | [], _, _, _, h => by
    obtain ⟨r, hr, -⟩ := h
    cases hr
  | a :: l, k, k', hk, ⟨r, hr, he⟩ => by
    rw [rank_cons, rank_cons]
    have hmono : rank key l k ≤ rank key l k' := rank_mono hk.le
    rcases List.mem_cons.1 hr with rfl | hr
    · rw [if_pos he.le, if_neg (he ▸ hk).not_ge]
      omega
    · have ih := rank_lt hk ⟨r, hr, he⟩
      by_cases ha : key a ≤ k
      · rw [if_pos ha, if_pos (ha.trans hk.le)]
        omega
      · rw [if_neg ha]
        omega

theorem rank_lt_iff {r r' : ρ} (hr' : r' ∈ l) :
    rank key l (key r) < rank key l (key r') ↔ key r < key r' := by
  constructor
  · intro h
    by_contra hle
    have hmono : rank key l (key r') ≤ rank key l (key r) := rank_mono (not_lt.1 hle)
    omega
  · exact fun h => rank_lt h ⟨r', hr', rfl⟩

/-- Sorted rows are numbered in their order. -/
theorem map_rank_of_sorted : ∀ {l : List ρ}, l.Pairwise (fun x y => key x < key y) →
    l.map (fun r => rank key l (key r)) = List.range' 1 l.length
  | [], _ => rfl
  | a :: l, h => by
    rw [List.pairwise_cons] at h
    have hfirst : rank key l (key a) = 0 := by
      rw [rank, List.countP_eq_zero]
      intro r hr
      simpa using h.1 r hr
    have hrest : l.map (fun r => rank key (a :: l) (key r)) = (l.map fun r => rank key l (key r)).map (1 + ·) := by
      rw [List.map_map]
      refine List.map_congr_left fun r hr => ?_
      rw [rank_cons, if_pos (h.1 r hr).le]
      exact Nat.add_comm _ _
    rw [List.map_cons, rank_cons, hfirst, if_pos le_rfl, hrest, map_rank_of_sorted h.2, List.map_add_range',
      List.length_cons, List.range'_succ]

/-- **Rows of distinct keys are numbered from one without gap.** -/
theorem map_rank_perm (h : (l.map key).Nodup) :
    (l.map fun r => rank key l (key r)).Perm (List.range' 1 l.length) := by
  have hperm := Rows.orderBy_perm key l
  have hsorted : (Rows.orderBy key l).Pairwise fun x y => key x < key y := by
    have hne := List.pairwise_map.1 ((hperm.map key).nodup_iff.2 h)
    exact ((Rows.orderBy_pairwise key l).and hne).imp fun h => lt_of_le_of_ne h.1 h.2
  have hmap := map_rank_of_sorted hsorted
  rw [hperm.length_eq] at hmap
  rw [← hmap, List.map_congr_left fun r _ => rank_of_perm hperm (key r)]
  exact (hperm.map _).symm

end Rank
