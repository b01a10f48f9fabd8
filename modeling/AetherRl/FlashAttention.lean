import AetherRl.Ulysses
import Mathlib.Algebra.Order.BigOperators.Group.List
import Mathlib.Algebra.Order.Field.Basic
import Mathlib.Analysis.SpecialFunctions.Exp
import Mathlib.Tactic.Positivity
/-!
# FlashAttention — what `flash_attn_varlen_func` documents

The kernel is not the repository's: it enters as a parameter.  `Attends` states what its documentation promises over
exact numbers and without dropout: each query head reads its own KV head, and a query gets the average of the values it
attends to, each with a positive weight that its scaled score alone decides.  `softmaxFlash` is such a kernel.
-/
namespace Aether
namespace Ulysses

open Tensor Shape

/-! ## What a query attends to -/

/-- The packed document of a position: how many boundaries lie at or before it. -/
def documentOf (cuSeqlens : List Nat) (i : Nat) : Nat := (cuSeqlens.filter fun b => decide (b ≤ i)).length

/-- `(left, right)` positions around the query; a negative bound is none. -/
def InWindow (window : Option (Int × Int)) (i j : Nat) : Prop :=
  ∀ w ∈ window, (w.1 < 0 ∨ (i : Int) - w.1 ≤ j) ∧ (w.2 < 0 ∨ (j : Int) ≤ i + w.2)

/-- The key at `j` is in the query's document, and not after it. -/
def Visible (cuSeqlens : List Nat) (causal : Bool) (i j : Nat) : Prop :=
  documentOf cuSeqlens j = documentOf cuSeqlens i ∧ (causal = true → j ≤ i)

instance (window : Option (Int × Int)) (i j : Nat) : Decidable (InWindow window i j) := by
  unfold InWindow
  infer_instance

instance (cuSeqlens : List Nat) (causal : Bool) (i j : Nat) : Decidable (Visible cuSeqlens causal i j) := by
  unfold Visible
  infer_instance

def visibleKeys (cuSeqlens : List Nat) (causal : Bool) (length i : Nat) : List Nat :=
  (List.range length).filter fun j => decide (Visible cuSeqlens causal i j)

/-- The keys the query at `i` attends to, of `length`. -/
def attended (cuSeqlens : List Nat) (causal : Bool) (window : Option (Int × Int)) (length i : Nat) : List Nat :=
  (visibleKeys cuSeqlens causal length i).filter fun j => decide (InWindow window i j)

/-- `cu_seqlens` and `max_seqlen` of `total` packed tokens. -/
structure Packed (cuSeqlens : List Nat) (maxSeqlen total : Nat) : Prop where
  first : cuSeqlens.head? = some 0
  sorted : cuSeqlens.Pairwise (· ≤ ·)
  last : cuSeqlens.getLast? = some total
  longest : cuSeqlens.IsChain fun a b => b ≤ a + maxSeqlen

section
variable {cuSeqlens : List Nat} {causal : Bool} {length i j : Nat}

theorem mem_attended {window : Option (Int × Int)} :
    j ∈ attended cuSeqlens causal window length i ↔ j < length ∧ Visible cuSeqlens causal i j ∧ InWindow window i j := by
  rw [attended, visibleKeys, List.mem_filter, List.mem_filter, List.mem_range, decide_eq_true_eq, decide_eq_true_eq,
    and_assoc]

end

/-! ## The average -/

section
variable {α : Type} [Field α]

/-- The average of the second components, by the weights of the first ones. -/
def average {β : Type} (weight : β → α) (keys : List (β × α)) : α :=
  (keys.map fun kv => weight kv.1 * kv.2).sum / (keys.map fun kv => weight kv.1).sum

variable {β : Type} {weight : β → α} {keys : List (β × α)}

theorem average_zero (h : ∀ kv ∈ keys, kv.2 = 0) : average weight keys = 0 := by
  have hsum : (keys.map fun kv => weight kv.1 * kv.2).sum = 0 := by
    refine List.sum_eq_zero fun x hx => ?_
    obtain ⟨kv, hkv, rfl⟩ := List.mem_map.1 hx
    rw [h kv hkv, mul_zero]
  rw [average, hsum, zero_div]

variable [LinearOrder α] [IsStrictOrderedRing α]

/-- **A value above zero shows** in an average of values that are not below. -/
theorem average_pos (hw : ∀ b, 0 < weight b) (h : ∀ kv ∈ keys, 0 ≤ kv.2) (hpos : ∃ kv ∈ keys, 0 < kv.2) :
    0 < average weight keys := by
  obtain ⟨kv, hkv, hv⟩ := hpos
  have hterm : ∀ x ∈ keys.map fun kv => weight kv.1 * kv.2, 0 ≤ x := by
    intro x hx
    obtain ⟨p, hp, rfl⟩ := List.mem_map.1 hx
    exact mul_nonneg (hw p.1).le (h p hp)
  have hweight : ∀ x ∈ keys.map fun kv => weight kv.1, 0 ≤ x := by
    intro x hx
    obtain ⟨p, -, rfl⟩ := List.mem_map.1 hx
    exact (hw p.1).le
  refine div_pos ?_ ?_
  · exact lt_of_lt_of_le (mul_pos (hw kv.1) hv) (List.single_le_sum hterm _ (List.mem_map.2 ⟨kv, hkv, rfl⟩))
  · exact lt_of_lt_of_le (hw kv.1) (List.single_le_sum hweight _ (List.mem_map.2 ⟨kv, hkv, rfl⟩))

end

/-! ## The kernel -/

section
variable {α : Type} [Zero α]

/-- One row of a head: the elements of a token's vector. -/
def rowOf (t : Tensor α) (i j : Nat) : List α := (List.range (t.size 2)).map fun d => t.get [i, j, d]

/-- The keys of a query in its KV head, each with the element of its value. -/
def keysOf (k v : Tensor α) (places : List Nat) (kv e : Nat) : List (List α × α) :=
  places.map fun s => (rowOf k s kv, v.get [s, kv, e])

end

/-- How much a query gives a key, by the scale and their rows. -/
abbrev Weight (α : Type) := Option α → List α → List α → α

/-- What the kernel documents of a call without dropout: heads apart from each other, and for packed self-attention the
weighted average over what a query attends to. -/
structure Attends {α : Type} [Field α] [LinearOrder α] (flashFn : FlashFn α) (weight : Weight α) : Prop where
  positive : ∀ scale q k, 0 < weight scale q k
  headwise : ∀ args, args.dropoutP = none → Headwise fun q k v => (flashFn args q k v).first
  average : ∀ (args : FlashArgs α) (cuSeqlens : List Nat) (maxSeqlen S hq hk d dv : Nat) (q k v : Tensor α),
    args.dropoutP = none → args.seqlens = .inPlace cuSeqlens cuSeqlens maxSeqlen maxSeqlen →
    Packed cuSeqlens maxSeqlen S → q.shape = [S, hq, d] → k.shape = [S, hk, d] → v.shape = [S, hk, dv] → hk ∣ hq →
    ∀ i < S, ∀ j < hq, ∀ e < dv, (flashFn args q k v).first.get [i, j, e] =
      average (weight args.softmaxScale (rowOf q i j))
        (keysOf k v (attended cuSeqlens args.causal args.windowSize S i) (j / (hq / hk)) e)

/-! ## A kernel that does so -/

section
variable {α : Type} [Field α]

def SeqlenArgs.cuSeqlensK : SeqlenArgs → List Nat
  | .inPlace _ cuSeqlensK _ _ => cuSeqlensK
  | .byKeyword _ cuSeqlensK => cuSeqlensK

/-- Attention with the given weights, as it is defined. -/
def averagingFlash (weight : Weight α) : FlashFn α := fun args q k v =>
  .tensor (ofFn [q.size 0, q.size 1, v.size 2] fun idx =>
    match idx with
    | [i, j, e] => average (weight args.softmaxScale (rowOf q i j))
        (keysOf k v (attended args.seqlens.cuSeqlensK args.causal args.windowSize (k.size 0) i)
          (j / (q.size 1 / k.size 1)) e)
    | _ => 0)

variable {weight : Weight α} {args : FlashArgs α} {q k v : Tensor α} {sq hq d sk hk dv : Nat}

theorem shape_averagingFlash (hqs : q.shape = [sq, hq, d]) (hvs : v.shape = [sk, hk, dv]) :
    (averagingFlash weight args q k v).first.shape = [sq, hq, dv] := by
  show [q.size 0, q.size 1, v.size 2] = _
  rw [size_of_shape hqs, size_of_shape hqs, size_of_shape hvs]
  rfl

theorem get_averagingFlash (hqs : q.shape = [sq, hq, d]) (hks : k.shape = [sk, hk, d]) (hvs : v.shape = [sk, hk, dv])
    {i j e : Nat} (hi : i < sq) (hj : j < hq) (he : e < dv) : (averagingFlash weight args q k v).first.get [i, j, e] =
      average (weight args.softmaxScale (rowOf q i j))
        (keysOf k v (attended args.seqlens.cuSeqlensK args.causal args.windowSize sk i) (j / (hq / hk)) e) := by
  have hq1 : q.size 1 = hq := size_of_shape hqs 1
  have hk1 : k.size 1 = hk := size_of_shape hks 1
  have hk0 : k.size 0 = sk := size_of_shape hks 0
  have hin : Inside [q.size 0, q.size 1, v.size 2] [i, j, e] := by
    rw [size_of_shape hqs, size_of_shape hqs, size_of_shape hvs]
    exact ⟨hi, hj, he, trivial⟩
  refine (get_ofFn hin).trans ?_
  simp only [hq1, hk1, hk0]

/-- One head of it. -/
def averagingHead (weight : Weight α) (args : FlashArgs α) (q k v : Tensor α) : Tensor α :=
  ofFn [q.size 0, v.size 1] fun idx =>
    match idx with
    | [i, e] => average (weight args.softmaxScale ((List.range (q.size 1)).map fun d => q.get [i, d]))
        ((attended args.seqlens.cuSeqlensK args.causal args.windowSize (k.size 0) i).map fun s =>
          ((List.range (k.size 1)).map fun d => k.get [s, d], v.get [s, e]))
    | _ => 0

theorem rowOf_select {t : Tensor α} {S H D : Nat} (ht : t.shape = [S, H, D]) (i j : Nat) :
    ((List.range ((t.select 1 j).size 1)).map fun d => (t.select 1 j).get [i, d]) = rowOf t i j := by
  rw [rowOf, size_of_shape (shape_select ht), size_of_shape ht]
  exact List.map_congr_left fun x _ => get_select ht i x

theorem averagingFlash_headwise (weight : Weight α) (args : FlashArgs α) :
    Headwise fun q k v => (averagingFlash weight args q k v).first := by
  refine ⟨averagingHead weight args, fun q k v sq hq d sk hk dv hqs hks hvs _ => ⟨shape_averagingFlash hqs hvs, ?_⟩⟩
  intro j hj
  have hout : (averagingFlash weight args q k v).first.shape = [sq, hq, dv] := shape_averagingFlash hqs hvs
  have hq1 : (q.select 1 j).shape = [sq, d] := shape_select hqs
  have hk1 : (k.select 1 (j / (hq / hk))).shape = [sk, d] := shape_select hks
  have hv1 : (v.select 1 (j / (hq / hk))).shape = [sk, dv] := shape_select hvs
  have hsizes : [(q.select 1 j).size 0, (v.select 1 (j / (hq / hk))).size 1] = [sq, dv] := by
    rw [size_of_shape hq1, size_of_shape hv1]
    rfl
  refine ext₂ (shape_select hout) hsizes fun i hi e he => ?_
  have hin : Inside [(q.select 1 j).size 0, (v.select 1 (j / (hq / hk))).size 1] [i, e] := by
    rw [hsizes]
    exact ⟨hi, he, trivial⟩
  rw [get_select hout, get_averagingFlash hqs hks hvs hi hj he]
  refine Eq.trans ?_ (get_ofFn hin).symm
  have hk0 : (k.select 1 (j / (hq / hk))).size 0 = sk := size_of_shape hk1 0
  simp only [rowOf_select hqs, rowOf_select hks, get_select hvs, hk0]
  rfl

/-- **Attention as it is defined** is what the documentation promises. -/
theorem attends_averagingFlash [LinearOrder α] (hw : ∀ scale q k, 0 < weight scale q k) :
    Attends (averagingFlash weight) weight := by
  refine ⟨hw, fun args _ => averagingFlash_headwise weight args, ?_⟩
  intro args cuSeqlens maxSeqlen S hq hk d dv q k v _ hseqlens _ hqs hks hvs _ i hi j hj e he
  rw [get_averagingFlash hqs hks hvs hi hj he, hseqlens]
  rfl

end

/-- The softmax's weight of a key; the scale is one over the root of the length unless it is given. -/
noncomputable def softmaxWeight : Weight ℝ := fun scale q k =>
  Real.exp (scale.getD (1 / Real.sqrt q.length) * (List.zipWith (· * ·) q k).sum)

noncomputable def softmaxFlash : FlashFn ℝ := averagingFlash softmaxWeight

/-- **Softmax attention** is such a kernel. -/
theorem attends_softmax : Attends softmaxFlash softmaxWeight := attends_averagingFlash fun _ _ _ => Real.exp_pos _

end Ulysses
end Aether
