import AetherRl.BatchSample
import Mathlib.Data.List.Sort
/-!
# BatchPartition — `balanced_partition` of `trainer/utils.py`

Largest differencing over groups of `k` weights, then swaps that lower the maximal load and the spread.  Whatever the
weights, the result is `k` lists of the same number of indices, and every index is in one of them once.  The heap of
states is kept in the order in which `heappop` takes them.
-/
namespace Aether
namespace Batch

open Checked

structure WeightedSet where
  total : Nat
  items : List Nat
deriving DecidableEq

def WeightedSet.merge (s t : WeightedSet) : WeightedSet := ⟨s.total + t.total, s.items ++ t.items⟩

def WeightedSet.lt (s t : WeightedSet) : Bool :=
  if s.total ≠ t.total then s.total < t.total else s.items < t.items

/-- `sets.sort(reverse=True)`. -/
def sortSets (sets : List WeightedSet) : List WeightedSet := sets.insertionSort fun s t => s.lt t = false

structure KKState where
  sets : List WeightedSet
deriving DecidableEq

def KKState.new (items : List (Nat × Nat)) (k : Nat) : KKState :=
  ⟨sortSets ((List.range k).map fun i =>
    match items[i]? with
    | some (idx, weight) => ⟨weight, [idx]⟩
    | none => ⟨0, []⟩)⟩

def KKState.spread (s : KKState) : Nat :=
  match s.sets.head?, s.sets.getLast? with
  | some first, some last => first.total - last.total
  | _, _ => 0

def KKState.merge (s t : KKState) : KKState := ⟨sortSets (s.sets.zipWith WeightedSet.merge t.sets.reverse)⟩

def KKState.partitions (s : KKState) : List (List Nat) := s.sets.map fun set => set.items.insertionSort (· ≤ ·)

/-- The larger spread comes first. -/
def KKState.lt (s t : KKState) : Bool :=
  if s.spread ≠ t.spread then t.spread < s.spread
  else match s.sets.head?, t.sets.head? with
    | some a, some b => b.lt a
    | _, _ => false

def heappush (states : List KKState) (s : KKState) : List KKState := states.orderedInsert (fun a b => b.lt a = false) s

/-- `while len(states) > 1`: each round leaves one state less. -/
def mergeStates : Nat → List KKState → List KKState
  | n + 1, s :: t :: states => mergeStates n (heappush states (s.merge t))
  | _, states => states

def weightedIndices (weights : List Nat) : List (Nat × Nat) :=
  (weights.zipIdx).insertionSort fun a b => a.1 < b.1 ∨ a.1 = b.1 ∧ a.2 ≤ b.2

/-- `l[offset : offset + k] for offset in range(0, len(l), k)`. -/
def slices {α : Type} (k : Nat) (l : List α) : List (List α) :=
  (List.range (l.length / k)).map fun j => (l.drop (j * k)).take k

def karmarkarKarp (weights : List Nat) (k : Nat) : Except Error (List (List Nat)) := do
  raiseUnless (k ≤ weights.length) (.assertion "")
  raiseUnless (weights.length % k = 0) (.assertion "")
  let states := (slices k ((weightedIndices weights).map fun (weight, idx) => (idx, weight))).foldl
    (fun states items => heappush states (KKState.new items k)) []
  match mergeStates states.length states with
  | s :: _ => .ok s.partitions
  | [] => .error .index

/-! ## Swaps -/

def partitionLoads (weights : List Nat) (partitions : List (List Nat)) : List Nat :=
  partitions.map fun partition => (partition.map fun i => weights.getD i 0).sum

/-- The maximal load, and the spread of the loads. -/
def score (loads : List Nat) : Nat × Nat :=
  let top := loads.foldr max 0
  (top, top - loads.foldr min top)

def scoreLt (a b : Nat × Nat) : Bool := a.1 < b.1 || a.1 == b.1 && a.2 < b.2

structure Swap where
  left : Nat
  right : Nat
  leftPos : Nat
  rightPos : Nat
deriving DecidableEq

def item (partitions : List (List Nat)) (rank pos : Nat) : Nat := (partitions.getD rank []).getD pos 0

/-- The swaps, in the order the loops go through them. -/
def swaps (partitions : List (List Nat)) : List Swap :=
  (List.range partitions.length).flatMap fun left =>
    ((List.range partitions.length).drop (left + 1)).flatMap fun right =>
      (List.range (partitions.getD left []).length).flatMap fun leftPos =>
        (List.range (partitions.getD right []).length).map fun rightPos => ⟨left, right, leftPos, rightPos⟩

/-- The loads after a swap; the load that gives an item holds its weight. -/
def newLoads (weights : List Nat) (partitions : List (List Nat)) (loads : List Nat) (s : Swap) : List Nat :=
  let leftWeight := weights.getD (item partitions s.left s.leftPos) 0
  let rightWeight := weights.getD (item partitions s.right s.rightPos) 0
  (loads.set s.left (loads.getD s.left 0 - leftWeight + rightWeight)).set s.right
    (loads.getD s.right 0 - rightWeight + leftWeight)

/-- The first swap of the best score, if one is better than the score there is. -/
def bestSwap (weights : List Nat) (partitions : List (List Nat)) (loads : List Nat) : Option (Swap × List Nat) :=
  ((swaps partitions).foldl (fun best s =>
    let loads' := newLoads weights partitions loads s
    if scoreLt (score loads') best.2 then (some (s, loads'), score loads') else best) (none, score loads)).1

def swapItems (partitions : List (List Nat)) (s : Swap) : List (List Nat) :=
  let leftItem := item partitions s.left s.leftPos
  let rightItem := item partitions s.right s.rightPos
  (partitions.set s.left ((partitions.getD s.left []).set s.leftPos rightItem)).set s.right
    ((partitions.getD s.right []).set s.rightPos leftItem)

/-- `while True`, for so many rounds. -/
def refineLoop (weights : List Nat) : Nat → List (List Nat) → List Nat → List (List Nat) × List Nat
  | 0, partitions, loads => (partitions, loads)
  | n + 1, partitions, loads =>
    match bestSwap weights partitions loads with
    | none => (partitions, loads)
    | some (s, loads') => refineLoop weights n (swapItems partitions s) loads'

/-- More rounds than the score can fall in. -/
def rounds (loads : List Nat) : Nat := ((score loads).1 + 1) * ((score loads).1 + 1)

def refineBySwapping (weights : List Nat) (partitions : List (List Nat)) : List (List Nat) :=
  let loads := partitionLoads weights partitions
  (refineLoop weights (rounds loads) partitions loads).1

def balancedPartition (weights : List Nat) (k : Nat) : Except Error (List (List Nat)) :=
  refineBySwapping weights <$> karmarkarKarp weights k

/-! ## Every index once, and as many in every part -/

def KKState.items (s : KKState) : List Nat := s.sets.flatMap WeightedSet.items

/-- The state has `k` sets, all of one size. -/
structure KKState.Even (k : Nat) (s : KKState) : Prop where
  sets : s.sets.length = k
  even : ∃ c, ∀ t ∈ s.sets, t.items.length = c

theorem sortSets_perm (sets : List WeightedSet) : (sortSets sets).Perm sets := List.perm_insertionSort _ sets

/-- **Lists merged pairwise hold what both hold.** -/
theorem zipWith_perm {α β : Type} {f : α → α → α} {items : α → List β} (hf : ∀ a b, items (f a b) = items a ++ items b) :
    ∀ l l' : List α, l.length = l'.length →
      ((l.zipWith f l').flatMap items).Perm (l.flatMap items ++ l'.flatMap items)
  | [], l', h => by
    rw [List.length_nil] at h
    rw [List.length_eq_zero_iff.1 h.symm]
    rfl
  | a :: l, [], h => by simp at h
  | a :: l, b :: l', h => by
    have ih := zipWith_perm hf l l' (Nat.succ.inj h)
    rw [List.zipWith_cons_cons, List.flatMap_cons, List.flatMap_cons, List.flatMap_cons]
    refine (ih.append_left _).trans ?_
    rw [hf, List.append_assoc, List.append_assoc]
    refine List.Perm.append_left _ ?_
    rw [← List.append_assoc, ← List.append_assoc]
    exact List.perm_append_comm.append_right _

/-- **A merge keeps the sets of one size, and every item.** -/
theorem KKState.merge_even {k : Nat} {s t : KKState} (hs : s.Even k) (ht : t.Even k) :
    (s.merge t).Even k ∧ (s.merge t).items.Perm (s.items ++ t.items) := by
  obtain ⟨c, hc⟩ := hs.even
  obtain ⟨d, hd⟩ := ht.even
  have hlen : s.sets.length = t.sets.reverse.length := by rw [List.length_reverse, hs.sets, ht.sets]
  have hperm := sortSets_perm (s.sets.zipWith WeightedSet.merge t.sets.reverse)
  refine ⟨⟨?_, c + d, fun u hu => ?_⟩, ?_⟩
  · rw [merge, hperm.length_eq, List.length_zipWith, ← hlen, Nat.min_self, hs.sets]
  · obtain ⟨i, hi, rfl⟩ := List.mem_iff_getElem.1 (hperm.mem_iff.1 hu)
    rw [List.getElem_zipWith, WeightedSet.merge, List.length_append, hc _ (List.getElem_mem _),
      hd _ (List.mem_reverse.1 (List.getElem_mem _))]
  · refine (hperm.flatMap_right _).trans ((zipWith_perm (fun _ _ => rfl) _ _ hlen).trans ?_)
    exact List.Perm.append_left _ ((List.reverse_perm _).flatMap_right _)

theorem heappush_perm (states : List KKState) (s : KKState) : (heappush states s).Perm (s :: states) :=
  List.perm_orderedInsert _ s states

/-- **The merges leave one state, with every item.** -/
theorem mergeStates_eq {k : Nat} : ∀ (n : Nat) (states : List KKState), states ≠ [] → states.length ≤ n + 1 →
    (∀ s ∈ states, s.Even k) →
    ∃ s, mergeStates n states = [s] ∧ s.Even k ∧ s.items.Perm (states.flatMap KKState.items)
  | _, [], hne, _, _ => absurd rfl hne
  | n, [s], _, _, he => by
    refine ⟨s, by cases n <;> rfl, he s List.mem_cons_self, ?_⟩
    rw [List.flatMap_singleton]
  | 0, s :: t :: states, _, hlen, _ => by simp at hlen
  | n + 1, s :: t :: states, _, hlen, he => by
    have hst := KKState.merge_even (he s List.mem_cons_self) (he t (by simp))
    have hperm := heappush_perm states (s.merge t)
    obtain ⟨u, hu, heven, hitems⟩ := mergeStates_eq n (heappush states (s.merge t))
      (by rw [← List.length_pos_iff, hperm.length_eq]; exact Nat.succ_pos _)
      (by rw [hperm.length_eq]; simpa using hlen) (fun v hv => by
        rcases List.mem_cons.1 (hperm.mem_iff.1 hv) with rfl | hv
        · exact hst.1
        · exact he v (by simp [hv]))
    refine ⟨u, hu, heven, hitems.trans ((hperm.flatMap_right _).trans ?_)⟩
    rw [List.flatMap_cons, List.flatMap_cons, List.flatMap_cons, ← List.append_assoc]
    exact hst.2.append_right _

theorem map_getElem?_range {α β : Type} (f : Option α → β) (l : List α) :
    (List.range l.length).map (fun i => f l[i]?) = l.map fun a => f (some a) := by
  refine List.ext_getElem (by rw [List.length_map, List.length_map, List.length_range]) fun i h₁ h₂ => ?_
  have hi : i < l.length := by simpa using h₂
  rw [List.getElem_map, List.getElem_map, List.getElem_range, List.getElem?_eq_getElem hi]

theorem new_sets (items : List (Nat × Nat)) : (KKState.new items items.length).sets =
    sortSets (items.map fun p => ⟨p.2, [p.1]⟩) :=
  congrArg sortSets (map_getElem?_range (fun o => match o with
    | some (idx, weight) => (⟨weight, [idx]⟩ : WeightedSet)
    | none => ⟨0, []⟩) items)

theorem new_even {items : List (Nat × Nat)} {k : Nat} (h : items.length = k) :
    (KKState.new items k).Even k ∧ (KKState.new items k).items.Perm (items.map Prod.fst) := by
  subst h
  have hperm := sortSets_perm (items.map fun p => ⟨p.2, [p.1]⟩)
  refine ⟨⟨?_, 1, fun t ht => ?_⟩, ?_⟩
  · rw [new_sets, hperm.length_eq, List.length_map]
  · rw [new_sets] at ht
    obtain ⟨p, -, rfl⟩ := List.mem_map.1 (hperm.mem_iff.1 ht)
    rfl
  · rw [KKState.items, new_sets]
    refine (hperm.flatMap_right _).trans ?_
    rw [List.flatMap_map]
    exact List.Perm.of_eq (List.map_eq_flatMap ..).symm

theorem slices_flatten {α : Type} (k : Nat) (l : List α) : ∀ m : Nat,
    ((List.range m).map fun j => (l.drop (j * k)).take k).flatten = l.take (m * k)
  | 0 => by simp
  | m + 1 => by
    rw [List.range_succ, List.map_append, List.flatten_append, slices_flatten k l m, List.map_singleton,
      List.flatten_singleton, Nat.succ_mul, List.take_add]

theorem flatten_slices {α : Type} {k : Nat} {l : List α} (h : l.length % k = 0) : (slices k l).flatten = l := by
  rw [slices, slices_flatten, Nat.div_mul_cancel (Nat.dvd_of_mod_eq_zero h), List.take_length]

theorem length_of_mem_slices {α : Type} {k : Nat} {l s : List α} (hs : s ∈ slices k l) : s.length = k := by
  obtain ⟨j, hj, rfl⟩ := List.mem_map.1 hs
  have hj : (j + 1) * k ≤ l.length :=
    (Nat.mul_le_mul_right k (List.mem_range.1 hj)).trans (Nat.div_mul_le_self l.length k)
  rw [Nat.succ_mul] at hj
  rw [List.length_take, List.length_drop]
  omega

theorem foldl_heappush_perm (k : Nat) : ∀ (xs : List (List (Nat × Nat))) (acc : List KKState),
    (xs.foldl (fun states items => heappush states (KKState.new items k)) acc).Perm
      (xs.map (fun items => KKState.new items k) ++ acc)
  | [], acc => List.Perm.refl _
  | x :: xs, acc => by
    rw [List.foldl_cons]
    refine (foldl_heappush_perm k xs _).trans ?_
    refine ((heappush_perm acc _).append_left _).trans ?_
    rw [List.map_cons, List.cons_append]
    exact List.perm_middle

theorem weightedIndices_items (weights : List Nat) :
    (((weightedIndices weights).map fun (weight, idx) => (idx, weight)).map Prod.fst).Perm
      (List.range weights.length) := by
  rw [List.map_map]
  refine ((List.perm_insertionSort _ weights.zipIdx).map _).trans (List.Perm.of_eq ?_)
  rw [List.range_eq_range', ← List.zipIdx_map_snd 0 weights]
  rfl

/-- **Largest differencing parts the indices evenly.** -/
theorem karmarkarKarp_eq {weights : List Nat} {k : Nat} (hk : 0 < k) (hne : weights ≠ [])
    (hdvd : weights.length % k = 0) : ∃ parts, karmarkarKarp weights k = .ok parts ∧ parts.length = k ∧
      (∀ p ∈ parts, p.length = weights.length / k) ∧ parts.flatten.Perm (List.range weights.length) := by
  set l := (weightedIndices weights).map fun (weight, idx) => (idx, weight) with hl
  have hlen : l.length = weights.length := by
    rw [hl, List.length_map, weightedIndices, List.length_insertionSort, List.length_zipIdx]
  have hle : k ≤ weights.length :=
    Nat.le_of_dvd (List.length_pos_iff.2 hne) (Nat.dvd_of_mod_eq_zero hdvd)
  set states := (slices k l).foldl (fun states items => heappush states (KKState.new items k)) [] with hstates
  have hperm : states.Perm ((slices k l).map fun items => KKState.new items k) := by
    simpa using foldl_heappush_perm k (slices k l) []
  have hstate : ∀ s ∈ states, s.Even k := by
    intro s hs
    obtain ⟨items, hi, rfl⟩ := List.mem_map.1 (hperm.mem_iff.1 hs)
    exact (new_even (length_of_mem_slices hi)).1
  have hpos : states ≠ [] := by
    rw [← List.length_pos_iff, hperm.length_eq, List.length_map, slices, List.length_map, List.length_range, hlen]
    exact Nat.div_pos hle hk
  have hitems : (states.flatMap KKState.items).Perm (List.range weights.length) := by
    refine (hperm.flatMap_right _).trans ?_
    rw [List.flatMap_map]
    have each : ∀ xs : List (List (Nat × Nat)), (∀ x ∈ xs, x.length = k) →
        (xs.flatMap fun items => (KKState.new items k).items).Perm (xs.flatten.map Prod.fst) := by
      intro xs
      induction xs with
      | nil => exact fun _ => List.Perm.refl _
      | cons x xs ih =>
        intro h
        rw [List.flatMap_cons, List.flatten_cons, List.map_append]
        exact (new_even (h x List.mem_cons_self)).2.append (ih fun y hy => h y (List.mem_cons_of_mem x hy))
    refine (each _ fun x hx => length_of_mem_slices hx).trans ?_
    rw [flatten_slices (by rw [hlen, hdvd])]
    exact weightedIndices_items weights
  obtain ⟨s, hs, heven, hs'⟩ := mergeStates_eq states.length states hpos (Nat.le_succ _) hstate
  have hflat : s.partitions.flatten.Perm s.items := by
    rw [KKState.partitions, KKState.items, List.flatMap]
    refine List.Perm.flatten_congr ?_
    exact List.forall₂_map_left_iff.2 (List.forall₂_map_right_iff.2
      (List.forall₂_same.2 fun t _ => List.perm_insertionSort _ t.items))
  refine ⟨s.partitions, ?_, ?_, fun p hp => ?_, hflat.trans (hs'.trans hitems)⟩
  · rw [karmarkarKarp, raiseUnless_of _ hle, ok_bind, raiseUnless_of _ hdvd, ok_bind]
    simp only [← hl, ← hstates, hs]
  · rw [KKState.partitions, List.length_map, heven.sets]
  · obtain ⟨c, hc⟩ := heven.even
    obtain ⟨t, ht, rfl⟩ := List.mem_map.1 hp
    -- `k` sets of `c` items hold every index
    have hsum : k * c = weights.length := by
      have hcount := (hs'.trans hitems).length_eq
      rw [List.length_range, KKState.items, List.length_flatMap, List.map_congr_left hc, List.map_const',
        List.sum_replicate_nat, heven.sets] at hcount
      exact hcount
    rw [List.length_insertionSort, hc t ht, ← hsum, Nat.mul_div_cancel_left c hk]

/-! ## What a swap keeps -/

theorem mem_swaps {partitions : List (List Nat)} {s : Swap} : s ∈ swaps partitions ↔
    s.left < s.right ∧ s.right < partitions.length ∧ s.leftPos < (partitions.getD s.left []).length ∧
      s.rightPos < (partitions.getD s.right []).length := by
  simp only [swaps, List.mem_flatMap, List.mem_map, List.mem_range]
  constructor
  · rintro ⟨left, hl, right, hr, leftPos, hlp, rightPos, hrp, rfl⟩
    obtain ⟨i, hi, rfl⟩ := List.mem_iff_getElem.1 hr
    simp only [List.length_drop, List.length_range, List.getElem_drop, List.getElem_range] at hi hlp hrp ⊢
    exact ⟨by omega, by omega, hlp, hrp⟩
  · obtain ⟨left, right, leftPos, rightPos⟩ := s
    rintro ⟨hlr, hr, hlp, hrp⟩
    refine ⟨left, lt_trans hlr hr, right, List.mem_iff_getElem.2 ⟨right - (left + 1), ?_, ?_⟩, leftPos, hlp, rightPos,
      hrp, rfl⟩
    · rw [List.length_drop, List.length_range]
      dsimp only at hlr hr
      omega
    · rw [List.getElem_drop, List.getElem_range]
      dsimp only at hlr
      omega

theorem count_flatten_set (c : Nat) : ∀ (l : List (List Nat)) (i : Nat) (p : List Nat), i < l.length →
    (l.set i p).flatten.count c + (l.getD i []).count c = l.flatten.count c + p.count c
  | [], i, p, h => absurd h (Nat.not_lt_zero i)
  | x :: l, 0, p, _ => by
    simp only [List.set_cons_zero, List.flatten_cons, List.count_append, List.getD_cons_zero]
    omega
  | x :: l, i + 1, p, h => by
    have ih := count_flatten_set c l i p (Nat.lt_of_succ_lt_succ h)
    simp only [List.set_cons_succ, List.flatten_cons, List.count_append, List.getD_cons_succ]
    omega

theorem count_set_getD (c v : Nat) : ∀ (l : List Nat) (i : Nat), i < l.length →
    (l.set i v).count c + [l.getD i 0].count c = l.count c + [v].count c
  | [], i, h => absurd h (Nat.not_lt_zero i)
  | x :: l, 0, _ => by
    rw [List.set_cons_zero, List.getD_cons_zero, List.count_cons (l := l), List.count_cons (l := l)]
    simp only [List.count_singleton]
    omega
  | x :: l, i + 1, h => by
    have ih := count_set_getD c v l i (Nat.lt_of_succ_lt_succ h)
    rw [List.set_cons_succ, List.getD_cons_succ, List.count_cons (l := l.set i v), List.count_cons (l := l)]
    omega

/-- **A swap keeps every item, and the size of every part.** -/
theorem swapItems_perm {partitions : List (List Nat)} {s : Swap} (hs : s ∈ swaps partitions) :
    (swapItems partitions s).flatten.Perm partitions.flatten ∧
      (swapItems partitions s).map List.length = partitions.map List.length := by
  obtain ⟨hlr, hr, hlp, hrp⟩ := mem_swaps.1 hs
  have hl : s.left < partitions.length := lt_trans hlr hr
  set first := (partitions.getD s.left []).set s.leftPos (item partitions s.right s.rightPos) with hfirst
  set second := (partitions.getD s.right []).set s.rightPos (item partitions s.left s.leftPos) with hsecond
  have heq : swapItems partitions s = (partitions.set s.left first).set s.right second := rfl
  have hright : (partitions.set s.left first).getD s.right [] = partitions.getD s.right [] := by
    rw [List.getD_eq_getElem?_getD, List.getElem?_set_ne (Nat.ne_of_lt hlr), ← List.getD_eq_getElem?_getD]
  constructor
  · refine List.perm_iff_count.2 fun c => ?_
    have h₁ := count_flatten_set c partitions s.left first hl
    have h₂ := count_flatten_set c (partitions.set s.left first) s.right second (by rwa [List.length_set])
    have h₃ := count_set_getD c (item partitions s.right s.rightPos) (partitions.getD s.left []) s.leftPos hlp
    have h₄ := count_set_getD c (item partitions s.left s.leftPos) (partitions.getD s.right []) s.rightPos hrp
    rw [hright] at h₂
    rw [heq]
    change first.count c + [item partitions s.left s.leftPos].count c = _ at h₃
    change second.count c + [item partitions s.right s.rightPos].count c = _ at h₄
    omega
  · have same : ∀ (l : List (List Nat)) (i : Nat) (p : List Nat), i < l.length →
        p.length = (l.getD i []).length → (l.set i p).map List.length = l.map List.length := by
      intro l i p hi hp
      refine List.ext_getElem (by rw [List.length_map, List.length_map, List.length_set]) fun j h₁ h₂ => ?_
      have hj : j < l.length := by rwa [List.length_map] at h₂
      rw [List.getElem_map, List.getElem_map, List.getElem_set]
      split
      · rename_i hij
        subst hij
        rw [hp, List.getD_eq_getElem?_getD, List.getElem?_eq_getElem hi, Option.getD_some]
      · rfl
    rw [heq, same _ _ _ (by rwa [List.length_set]) (by rw [hright, hsecond, List.length_set]),
      same _ _ _ hl (by rw [hfirst, List.length_set])]

theorem scoreLt_trans {a b c : Nat × Nat} (hab : scoreLt a b = true) (hbc : scoreLt b c = true) :
    scoreLt a c = true := by
  simp only [scoreLt, Bool.or_eq_true, Bool.and_eq_true, decide_eq_true_eq, beq_iff_eq] at hab hbc ⊢
  omega

theorem scoreLt_iff {a b : Nat × Nat} : scoreLt a b = true ↔ a.1 < b.1 ∨ a.1 = b.1 ∧ a.2 < b.2 := by
  simp [scoreLt]

/-- **The best swap is a swap, and better than none.** -/
theorem bestSwap_eq_some {weights : List Nat} {partitions : List (List Nat)} {loads loads' : List Nat} {s : Swap}
    (h : bestSwap weights partitions loads = some (s, loads')) :
    s ∈ swaps partitions ∧ loads' = newLoads weights partitions loads s ∧
      scoreLt (score loads') (score loads) = true := by
  have fold : ∀ (l : List Swap) (best : Option (Swap × List Nat) × (Nat × Nat)), (∀ s ∈ l, s ∈ swaps partitions) →
      (best.2 = score loads ∨ scoreLt best.2 (score loads) = true) →
      (∀ p, best.1 = some p → p.1 ∈ swaps partitions ∧ p.2 = newLoads weights partitions loads p.1 ∧
        best.2 = score p.2 ∧ scoreLt best.2 (score loads) = true) →
      ∀ p, (l.foldl (fun best s =>
        let loads' := newLoads weights partitions loads s
        if scoreLt (score loads') best.2 then (some (s, loads'), score loads') else best) best).1 = some p →
        p.1 ∈ swaps partitions ∧ p.2 = newLoads weights partitions loads p.1 ∧
          scoreLt (score p.2) (score loads) = true := by
    intro l
    induction l with
    | nil =>
      intro best _ _ hbest p hp
      obtain ⟨hmem, hloads, hscore, hlt⟩ := hbest p hp
      exact ⟨hmem, hloads, hscore ▸ hlt⟩
    | cons t l ih =>
      intro best hmem hle hbest p hp
      rw [List.foldl_cons] at hp
      refine ih _ (fun u hu => hmem u (List.mem_cons_of_mem t hu)) ?_ ?_ p hp
      all_goals
        dsimp only
        split
      · rename_i hlt
        right
        rcases hle with heq | hle
        · rwa [← heq]
        · exact scoreLt_trans hlt hle
      · exact hle
      · rename_i hlt
        rintro q hq
        cases hq
        refine ⟨hmem t List.mem_cons_self, rfl, rfl, ?_⟩
        rcases hle with heq | hle
        · rwa [← heq]
        · exact scoreLt_trans hlt hle
      · exact hbest
  exact fold (swaps partitions) (none, score loads) (fun _ hs => hs) (.inl rfl) (fun p hp => by cases hp) (s, loads') h

/-- **The swaps keep every item, and the size of every part.** -/
theorem refineLoop_perm (weights : List Nat) : ∀ (n : Nat) (partitions : List (List Nat)) (loads : List Nat),
    (refineLoop weights n partitions loads).1.flatten.Perm partitions.flatten ∧
      (refineLoop weights n partitions loads).1.map List.length = partitions.map List.length
  | 0, _, _ => ⟨List.Perm.refl _, rfl⟩
  | n + 1, partitions, loads => by
    rw [refineLoop]
    cases hb : bestSwap weights partitions loads with
    | none => exact ⟨List.Perm.refl _, rfl⟩
    | some p =>
      obtain ⟨s, loads'⟩ := p
      have hs := swapItems_perm (bestSwap_eq_some hb).1
      have ih := refineLoop_perm weights n (swapItems partitions s) loads'
      exact ⟨ih.1.trans hs.1, ih.2.trans hs.2⟩

theorem spread_le (loads : List Nat) : (score loads).2 ≤ (score loads).1 := Nat.sub_le _ _

/-- **The loop stops where no swap is better, within its rounds.** -/
theorem refineLoop_stops (weights : List Nat) (top : Nat) : ∀ (n : Nat) (partitions : List (List Nat))
    (loads : List Nat), (score loads).1 ≤ top → (score loads).1 * (top + 1) + (score loads).2 < n →
    bestSwap weights (refineLoop weights n partitions loads).1 (refineLoop weights n partitions loads).2 = none
  | 0, _, _, _, h => absurd h (Nat.not_lt_zero _)
  | n + 1, partitions, loads, htop, h => by
    rw [refineLoop]
    cases hb : bestSwap weights partitions loads with
    | none => exact hb
    | some p =>
      obtain ⟨s, loads'⟩ := p
      have hlt := (bestSwap_eq_some hb).2.2
      rw [scoreLt_iff] at hlt
      have hspread := spread_le loads'
      refine refineLoop_stops weights top n (swapItems partitions s) loads' (by omega) ?_
      rcases hlt with hlt | ⟨heq, hlt⟩
      · have hmul : ((score loads').1 + 1) * (top + 1) ≤ (score loads).1 * (top + 1) := Nat.mul_le_mul_right _ hlt
        rw [Nat.succ_mul] at hmul
        omega
      · rw [heq]
        omega

/-- **The refined partition admits no better swap.** -/
theorem refineBySwapping_stops (weights : List Nat) (partitions : List (List Nat)) :
    let loads := partitionLoads weights partitions
    bestSwap weights (refineBySwapping weights partitions) (refineLoop weights (rounds loads) partitions loads).2 =
      none := by
  refine refineLoop_stops weights (score (partitionLoads weights partitions)).1 _ partitions _ le_rfl ?_
  have hspread := spread_le (partitionLoads weights partitions)
  rw [rounds, Nat.succ_mul]
  omega

/-- **`balanced_partition` parts the indices evenly.** -/
theorem balancedPartition_eq {weights : List Nat} {k : Nat} (hk : 0 < k) (hne : weights ≠ [])
    (hdvd : weights.length % k = 0) : ∃ parts, balancedPartition weights k = .ok parts ∧ parts.length = k ∧
      (∀ p ∈ parts, p.length = weights.length / k) ∧ parts.flatten.Perm (List.range weights.length) := by
  obtain ⟨parts, hparts, hlen, heven, hperm⟩ := karmarkarKarp_eq hk hne hdvd
  obtain ⟨hitems, hsizes⟩ := refineLoop_perm weights (rounds (partitionLoads weights parts)) parts
    (partitionLoads weights parts)
  refine ⟨refineBySwapping weights parts, by rw [balancedPartition, hparts]; rfl, ?_, fun p hp => ?_,
    hitems.trans hperm⟩
  · have hcount := congrArg List.length hsizes
    rw [List.length_map, List.length_map, hlen] at hcount
    exact hcount
  · have hmem : p.length ∈ parts.map List.length := hsizes ▸ List.mem_map_of_mem hp
    obtain ⟨q, hq, hqp⟩ := List.mem_map.1 hmem
    rw [← hqp, heven q hq]

end Batch
end Aether
