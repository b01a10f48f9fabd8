import AetherRl.BatchPartition
import Mathlib.Algebra.Order.BigOperators.Group.List
import Mathlib.Algebra.Order.Ring.Nat
import Mathlib.Data.Prod.Lex
import Mathlib.Logic.Relation
import Mathlib.Order.WellFounded
/-!
# BatchBalance — what the swaps of `balanced_partition` reach

The refinement goes from the greedy partition by rounds, each of which makes the best swap there is.  A round lowers the
pair of the maximal load and the spread, so no run of rounds is infinite, and where it ends no swap lowers the pair.
-/
namespace Aether
namespace Batch

/-- The partitions of `_refine_by_swapping`, and the loads it keeps beside them. -/
structure Refinement where
  partitions : List (List Nat)
  loads : List Nat
deriving DecidableEq

/-- One round of the loop. -/
def Refinement.round (weights : List Nat) (r : Refinement) : Option Refinement :=
  (bestSwap weights r.partitions r.loads).map fun (s, loads) => ⟨swapItems r.partitions s, loads⟩

/-- So many rounds lead from one state of the loop to the other. -/
def Rounds (weights : List Nat) : Refinement → Refinement → Prop :=
  Relation.ReflTransGen fun r r' => r.round weights = some r'

def Refinement.start (weights : List Nat) (partitions : List (List Nat)) : Refinement :=
  ⟨partitions, partitionLoads weights partitions⟩

/-- The maximal load of a partition, then the spread of its loads. -/
def imbalance (weights : List Nat) (partitions : List (List Nat)) : ℕ ×ₗ ℕ :=
  toLex (score (partitionLoads weights partitions))

/-! ## The loads kept are the loads -/

theorem load_set (f : Nat → Nat) (v : Nat) : ∀ (l : List Nat) (i : Nat), i < l.length →
    ((l.set i v).map f).sum + f (l.getD i 0) = (l.map f).sum + f v
  | [], i, h => absurd h (Nat.not_lt_zero i)
  | x :: l, 0, _ => by
    simp only [List.set_cons_zero, List.map_cons, List.sum_cons, List.getD_cons_zero]
    omega
  | x :: l, i + 1, h => by
    have ih := load_set f v l i (Nat.lt_of_succ_lt_succ h)
    simp only [List.set_cons_succ, List.map_cons, List.sum_cons, List.getD_cons_succ]
    omega

theorem le_load (f : Nat → Nat) {l : List Nat} {i : Nat} (h : i < l.length) : f (l.getD i 0) ≤ (l.map f).sum := by
  rw [List.getD_eq_getElem?_getD, List.getElem?_eq_getElem h, Option.getD_some]
  exact List.single_le_sum (fun _ _ => Nat.zero_le _) _ (List.mem_map_of_mem (List.getElem_mem h))

/-- **The loads after a swap are the loads of what is swapped.** -/
theorem newLoads_eq (weights : List Nat) {partitions : List (List Nat)} {s : Swap} (hs : s ∈ swaps partitions) :
    newLoads weights partitions (partitionLoads weights partitions) s =
      partitionLoads weights (swapItems partitions s) := by
  obtain ⟨hlr, hr, hlp, hrp⟩ := mem_swaps.1 hs
  have load_getD : ∀ i, i < partitions.length → (partitionLoads weights partitions).getD i 0 =
      ((partitions.getD i []).map fun j => weights.getD j 0).sum := by
    intro i hi
    simp [partitionLoads, hi]
  have hleft := load_set (fun j => weights.getD j 0) (item partitions s.right s.rightPos)
    (partitions.getD s.left []) s.leftPos hlp
  have hright := load_set (fun j => weights.getD j 0) (item partitions s.left s.leftPos)
    (partitions.getD s.right []) s.rightPos hrp
  have hlw := le_load (fun j => weights.getD j 0) hlp
  have hrw := le_load (fun j => weights.getD j 0) hrp
  have hmap : partitionLoads weights (swapItems partitions s) =
      ((partitionLoads weights partitions).set s.left
        (((partitions.getD s.left []).set s.leftPos (item partitions s.right s.rightPos)).map
          fun j => weights.getD j 0).sum).set s.right
        (((partitions.getD s.right []).set s.rightPos (item partitions s.left s.leftPos)).map
          fun j => weights.getD j 0).sum := by
    simp only [partitionLoads, swapItems, List.map_set]
  rw [hmap, newLoads, load_getD s.left (hlr.trans hr), load_getD s.right hr]
  congr 1
  · congr 1
    simp only [item] at hleft ⊢
    omega
  · simp only [item] at hright ⊢
    omega

/-- **A round makes a swap and lowers the imbalance**, and the loads it keeps stay the loads of its partitions. -/
theorem Refinement.round_eq {weights : List Nat} {r r' : Refinement}
    (hr : r.loads = partitionLoads weights r.partitions) (h : r.round weights = some r') :
    r'.loads = partitionLoads weights r'.partitions ∧
      (∃ s ∈ swaps r.partitions, r'.partitions = swapItems r.partitions s) ∧
      imbalance weights r'.partitions < imbalance weights r.partitions := by
  obtain ⟨⟨s, loads⟩, hbest, rfl⟩ := Option.map_eq_some_iff.1 h
  obtain ⟨hs, hloads, hlt⟩ := bestSwap_eq_some hbest
  have heq : loads = partitionLoads weights (swapItems r.partitions s) := by
    rw [hloads, hr, newLoads_eq weights hs]
  refine ⟨heq, ⟨s, hs, rfl⟩, ?_⟩
  rw [imbalance, imbalance, Prod.Lex.toLex_lt_toLex, ← heq, ← hr]
  exact scoreLt_iff.1 hlt

theorem Rounds.exact {weights : List Nat} {r r' : Refinement} (h : Rounds weights r r')
    (hr : r.loads = partitionLoads weights r.partitions) : r'.loads = partitionLoads weights r'.partitions := by
  induction h with
  | refl => exact hr
  | tail _ hround ih => exact (Refinement.round_eq ih hround).1

/-- **Rounds never end in a worse partition.** -/
theorem Rounds.imbalance_le {weights : List Nat} {r r' : Refinement} (h : Rounds weights r r')
    (hr : r.loads = partitionLoads weights r.partitions) :
    imbalance weights r'.partitions ≤ imbalance weights r.partitions := by
  induction h with
  | refl => exact le_rfl
  | tail hrounds hround ih => exact (Refinement.round_eq (Rounds.exact hrounds hr) hround).2.2.le.trans ih

/-- **No run of rounds is infinite.** -/
theorem round_wellFounded (weights : List Nat) :
    WellFounded fun r' r : Refinement => r.round weights = some r' := by
  refine Subrelation.wf (r := InvImage (· < ·) fun r => toLex (score r.loads)) ?_ (InvImage.wf _ wellFounded_lt)
  intro r' r h
  obtain ⟨⟨s, loads⟩, hbest, rfl⟩ := Option.map_eq_some_iff.1 h
  exact Prod.Lex.toLex_lt_toLex.2 (scoreLt_iff.1 (bestSwap_eq_some hbest).2.2)

/-! ## Where the rounds end -/

/-- **No swap is better where none is the best.** -/
theorem bestSwap_eq_none {weights : List Nat} {partitions : List (List Nat)} {loads : List Nat}
    (h : bestSwap weights partitions loads = none) :
    ∀ s ∈ swaps partitions, ¬ scoreLt (score (newLoads weights partitions loads s)) (score loads) = true := by
  have fold : ∀ (l : List Swap) (best : Option (Swap × List Nat) × (Nat × Nat)),
      (l.foldl (fun best s =>
        let loads' := newLoads weights partitions loads s
        if scoreLt (score loads') best.2 then (some (s, loads'), score loads') else best) best).1 = none →
      best.1 = none ∧ ∀ s ∈ l, ¬ scoreLt (score (newLoads weights partitions loads s)) best.2 = true := by
    intro l
    induction l with
    | nil => exact fun best hnone => ⟨hnone, fun s hs => absurd hs List.not_mem_nil⟩
    | cons t l ih =>
      intro best hnone
      rw [List.foldl_cons] at hnone
      obtain ⟨hbest, hrest⟩ := ih _ hnone
      dsimp only at hbest hrest
      by_cases hlt : scoreLt (score (newLoads weights partitions loads t)) best.2 = true
      · rw [if_pos hlt] at hbest
        cases hbest
      · rw [if_neg hlt] at hbest hrest
        exact ⟨hbest, fun s hs => by
          rcases List.mem_cons.1 hs with rfl | hs
          · exact hlt
          · exact hrest s hs⟩
  exact (fold (swaps partitions) (none, score loads) h).2

theorem Refinement.round_eq_none {weights : List Nat} {r : Refinement}
    (hr : r.loads = partitionLoads weights r.partitions) (h : bestSwap weights r.partitions r.loads = none) :
    ∀ s ∈ swaps r.partitions,
      ¬ imbalance weights (swapItems r.partitions s) < imbalance weights r.partitions := by
  intro s hs hlt
  have hno := bestSwap_eq_none h s hs
  rw [hr, newLoads_eq weights hs] at hno
  exact hno (scoreLt_iff.2 (Prod.Lex.toLex_lt_toLex.1 hlt))

theorem refineLoop_rounds (weights : List Nat) : ∀ (n : Nat) (partitions : List (List Nat)) (loads : List Nat),
    Rounds weights ⟨partitions, loads⟩
      ⟨(refineLoop weights n partitions loads).1, (refineLoop weights n partitions loads).2⟩
  | 0, _, _ => Relation.ReflTransGen.refl
  | n + 1, partitions, loads => by
    rw [refineLoop]
    cases hb : bestSwap weights partitions loads with
    | none => exact Relation.ReflTransGen.refl
    | some p =>
      obtain ⟨s, loads'⟩ := p
      refine Relation.ReflTransGen.head ?_ (refineLoop_rounds weights n (swapItems partitions s) loads')
      simp [Refinement.round, hb]

/-- **`balanced_partition` ends in an even partition that no swap improves**: it parts the indices into `k` lists of one
size, by rounds from the greedy partition that each lower the maximal load or, at the same maximal load, the spread. -/
theorem balancedPartition_settles (weights : List Nat) (k : Nat) (hk : 0 < k) (hne : weights ≠ [])
    (hdvd : weights.length % k = 0) :
    (WellFounded fun r' r : Refinement => r.round weights = some r') ∧
    ∃ greedy parts, karmarkarKarp weights k = .ok greedy ∧ balancedPartition weights k = .ok parts ∧
      (parts.length = k ∧ (∀ p ∈ parts, p.length = weights.length / k) ∧
        parts.flatten.Perm (List.range weights.length)) ∧
      Rounds weights (.start weights greedy) (.start weights parts) ∧
      (∀ r r', Rounds weights (.start weights greedy) r → r.round weights = some r' →
        (∃ s ∈ swaps r.partitions, r'.partitions = swapItems r.partitions s) ∧
        imbalance weights r'.partitions < imbalance weights r.partitions) ∧
      imbalance weights parts ≤ imbalance weights greedy ∧
      ∀ s ∈ swaps parts, ¬ imbalance weights (swapItems parts s) < imbalance weights parts := by
  obtain ⟨greedy, hgreedy, -⟩ := karmarkarKarp_eq hk hne hdvd
  obtain ⟨parts, hparts, heven⟩ := balancedPartition_eq hk hne hdvd
  have heq : refineBySwapping weights greedy = parts := by
    have h := hparts
    rw [balancedPartition, hgreedy] at h
    exact Except.ok.inj h
  -- the loop's loads at its end are the loads of what it returns
  have hrounds := refineLoop_rounds weights (rounds (partitionLoads weights greedy)) greedy
    (partitionLoads weights greedy)
  have hexact := Rounds.exact hrounds rfl
  have hstops := refineBySwapping_stops weights greedy
  rw [refineBySwapping] at heq hstops
  dsimp only at heq hstops hexact
  rw [heq] at hexact hstops hrounds
  rw [hexact] at hstops hrounds
  refine ⟨round_wellFounded weights, greedy, parts, hgreedy, hparts, heven, hrounds, fun r r' hr hround => ?_,
    Rounds.imbalance_le hrounds rfl, Refinement.round_eq_none (r := .start weights parts) rfl hstops⟩
  exact (Refinement.round_eq (Rounds.exact hr rfl) hround).2

/-- Six costs in two parts: one swap takes the greedy partition to loads that no swap improves. -/
theorem balancedPartition_settles_sample :
    balancedPartition [3, 3, 2, 2, 2, 0] 2 = .ok [[4, 2, 3], [1, 0, 5]] ∧
      ∀ s ∈ swaps [[4, 2, 3], [1, 0, 5]], ¬ imbalance [3, 3, 2, 2, 2, 0] (swapItems [[4, 2, 3], [1, 0, 5]] s) <
        imbalance [3, 3, 2, 2, 2, 0] [[4, 2, 3], [1, 0, 5]] := by
  obtain ⟨-, greedy, parts, -, hparts, -, -, -, -, hlast⟩ :=
    balancedPartition_settles [3, 3, 2, 2, 2, 0] 2 (by decide) (by decide) (by decide)
  have heval : balancedPartition [3, 3, 2, 2, 2, 0] 2 = .ok [[4, 2, 3], [1, 0, 5]] := by decide +kernel
  obtain rfl := Except.ok.inj (hparts.symm.trans heval)
  exact ⟨heval, hlast⟩

end Batch
end Aether
