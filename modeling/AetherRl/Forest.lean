import Mathlib.Data.Finite.Defs
import Mathlib.Data.Fintype.EquivFin
import Mathlib.Data.List.Chain
import Mathlib.Logic.Relation
import Mathlib.Order.WellFounded
/-!
# Forest — nodes with parents, and the paths from roots to leaves

A forest is a parent for each node but the roots, without cycles.  Its nodes are finitely many, so that each of them is
on a path from a root to a leaf.
-/
namespace Forest

variable {ι : Type} (parent : ι → Option ι)

def Edge (i j : ι) : Prop := parent j = some i

def Acyclic : Prop := ∀ i, ¬ Relation.TransGen (Edge parent) i i

def Leaf (i : ι) : Prop := ∀ j, ¬ Edge parent i j

/-- A path from a root down to a leaf. -/
structure RootToLeaf (path : List ι) : Prop where
  root : ∃ i ∈ path.head?, parent i = none
  chain : path.IsChain (Edge parent)
  leaf : ∃ i ∈ path.getLast?, Leaf parent i

variable {parent}

/-- **A path passes no node twice.** -/
theorem RootToLeaf.nodup (h : Acyclic parent) {path : List ι} (hp : RootToLeaf parent path) : path.Nodup := by
  have hchain : path.IsChain (Relation.TransGen (Edge parent)) := hp.chain.imp fun _ _ => Relation.TransGen.single
  refine (List.isChain_iff_pairwise.1 hchain).imp ?_
  rintro i j hij rfl
  exact h i hij

theorem wellFounded_of_acyclic [Finite ι] {r : ι → ι → Prop} (h : ∀ i, ¬ Relation.TransGen r i i) : WellFounded r := by
  have hirrefl : Std.Irrefl (Relation.TransGen r) := ⟨h⟩
  exact Subrelation.wf Relation.TransGen.single (Finite.wellFounded_of_trans_of_irrefl (Relation.TransGen r))

theorem wellFounded_edge [Finite ι] (h : Acyclic parent) : WellFounded (Edge parent) := wellFounded_of_acyclic h

theorem wellFounded_flip_edge [Finite ι] (h : Acyclic parent) : WellFounded (flip (Edge parent)) :=
  wellFounded_of_acyclic fun i hi => h i (Relation.transGen_swap.1 hi)

/-- A node is reached from a root. -/
theorem exists_from_root [Finite ι] (h : Acyclic parent) (i : ι) :
    ∃ path : List ι, (∃ r ∈ path.head?, parent r = none) ∧ path.IsChain (Edge parent) ∧ path.getLast? = some i := by
  induction i using (wellFounded_edge h).induction with
  | _ i ih =>
    cases hi : parent i with
    | none => exact ⟨[i], ⟨i, rfl, hi⟩, List.isChain_singleton i, rfl⟩
    | some j =>
      obtain ⟨path, ⟨r, hr, hroot⟩, hchain, hlast⟩ := ih j hi
      refine ⟨path ++ [i], ⟨r, ?_, hroot⟩, ?_, by rw [List.getLast?_append, List.getLast?_singleton, Option.some_or]⟩
      · rw [List.head?_append, Option.mem_def.1 hr]
        rfl
      · refine List.isChain_append.2 ⟨hchain, List.isChain_singleton i, fun x hx y hy => ?_⟩
        rw [hlast] at hx
        obtain rfl := Option.some.inj hx
        obtain rfl := Option.some.inj hy
        exact hi

/-- A path that comes down to a node goes on to a leaf. -/
theorem exists_to_leaf [Finite ι] (h : Acyclic parent) (i : ι) : ∀ path : List ι,
    (∃ r ∈ path.head?, parent r = none) → path.IsChain (Edge parent) → path.getLast? = some i →
    ∃ rest, RootToLeaf parent (path ++ rest) := by
  induction i using (wellFounded_flip_edge h).induction with
  | _ i ih =>
    intro path hroot hchain hlast
    by_cases hi : Leaf parent i
    · exact ⟨[], by rw [List.append_nil]; exact ⟨hroot, hchain, i, hlast, hi⟩⟩
    · obtain ⟨j, hj⟩ := not_forall_not.1 hi
      obtain ⟨rest, hrest⟩ := ih j hj (path ++ [j])
        (by
          obtain ⟨r, hr, hroot⟩ := hroot
          refine ⟨r, ?_, hroot⟩
          rw [List.head?_append, Option.mem_def.1 hr]
          rfl)
        (List.isChain_append.2 ⟨hchain, List.isChain_singleton j, fun x hx y hy => by
          rw [hlast] at hx
          obtain rfl := Option.some.inj hx
          obtain rfl := Option.some.inj hy
          exact hj⟩)
        (by rw [List.getLast?_append, List.getLast?_singleton, Option.some_or])
      exact ⟨j :: rest, by rw [List.append_cons]; exact hrest⟩

/-- **Every node is on a path from a root to a leaf.** -/
theorem exists_rootToLeaf [Finite ι] (h : Acyclic parent) (i : ι) : ∃ path, RootToLeaf parent path ∧ i ∈ path := by
  obtain ⟨path, hroot, hchain, hlast⟩ := exists_from_root h i
  obtain ⟨rest, hrest⟩ := exists_to_leaf h i path hroot hchain hlast
  exact ⟨_, hrest, List.mem_append_left rest (List.mem_of_getLast? hlast)⟩

end Forest
