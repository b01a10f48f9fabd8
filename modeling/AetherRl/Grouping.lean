import Mathlib.Data.List.MinMax
import Mathlib.Algebra.BigOperators.Group.List.Basic
/-!
# Grouping — a list split by a key, and its shortest prefixes

`group` reads a list once and keeps, for every key met, where it was first met, the elements that have it and the sum of
their weights; `mem_group` says what the groups are.  `takeUntil` is the shortest prefix at which a condition on its
length and its weight holds, when there is one.
-/
namespace Grouping

variable {κ α μ : Type} [AddMonoid μ]

structure Group (κ α μ : Type) where
  key : κ
  first : Nat
  members : List α
  weight : μ

section
variable [DecidableEq κ]

/-- One element joins the group of its key, or begins it. -/
def insert (k : κ) (i : Nat) (a : α) (m : μ) (gs : List (Group κ α μ)) : List (Group κ α μ) :=
  if k ∈ gs.map (·.key) then
    gs.map fun g => if g.key = k then { g with members := g.members ++ [a], weight := g.weight + m } else g
  else gs ++ [⟨k, i, [a], m⟩]

def groupFrom (key : α → κ) (weight : α → μ) : Nat → List (Group κ α μ) → List α → List (Group κ α μ)
  | _, gs, [] => gs
  | i, gs, a :: l => groupFrom key weight (i + 1) (insert (key a) i a (weight a) gs) l

def group (key : α → κ) (weight : α → μ) (l : List α) : List (Group κ α μ) := groupFrom key weight 0 [] l

/-- The group of the key `k` in `l`. -/
def groupOf (key : α → κ) (weight : α → μ) (l : List α) (k : κ) : Group κ α μ where
  key := k
  first := l.findIdx (fun a => decide (key a = k))
  members := l.filter (fun a => decide (key a = k))
  weight := ((l.filter (fun a => decide (key a = k))).map weight).sum

/-- `gs` are the groups of `l`: one for each key met. -/
def Groups (key : α → κ) (weight : α → μ) (l : List α) (gs : List (Group κ α μ)) : Prop :=
  ∀ g, g ∈ gs ↔ ∃ a ∈ l, g = groupOf key weight l (key a)

variable {key : α → κ} {weight : α → μ}

/-- The group of a key met before grows by the elements that have it. -/
theorem groupOf_append_of_mem {l : List α} {k : κ} (h : ∃ a ∈ l, key a = k) (b : α) :
    groupOf key weight (l ++ [b]) k = if k = key b then
      { groupOf key weight l k with
        members := (groupOf key weight l k).members ++ [b], weight := (groupOf key weight l k).weight + weight b }
      else groupOf key weight l k := by
  obtain ⟨a, ha, hk⟩ := h
  have hidx : (l ++ [b]).findIdx (fun a => decide (key a = k)) = l.findIdx (fun a => decide (key a = k)) := by
    rw [List.findIdx_append, if_pos (List.findIdx_lt_length_of_exists ⟨a, ha, by simpa using hk⟩)]
  by_cases hb : k = key b
  · subst hb
    simp [groupOf, hidx]
  · simp [groupOf, hidx, hb, Ne.symm hb]

/-- The group of a new key is its first element. -/
theorem groupOf_append_of_not_mem {l : List α} {b : α} (h : ∀ a ∈ l, key a ≠ key b) :
    groupOf key weight (l ++ [b]) (key b) = ⟨key b, l.length, [b], weight b⟩ := by
  have hfil : l.filter (fun a => decide (key a = key b)) = [] :=
    List.filter_eq_nil_iff.2 fun a ha => by simpa using h a ha
  have hidx : l.findIdx (fun a => decide (key a = key b)) = l.length :=
    List.findIdx_eq_length_of_false fun a ha => by simpa using h a ha
  simp [groupOf, hfil, List.findIdx_append, hidx]

/-- **One more element keeps the groups.** -/
theorem Groups.insert {l : List α} {gs : List (Group κ α μ)} (h : Groups key weight l gs) (b : α) :
    Groups key weight (l ++ [b]) (insert (key b) l.length b (weight b) gs) := by
  have hkeys : key b ∈ gs.map (·.key) ↔ ∃ a ∈ l, key a = key b := by
    rw [List.mem_map]
    constructor
    · rintro ⟨g, hg, hk⟩
      obtain ⟨a, ha, rfl⟩ := (h g).1 hg
      exact ⟨a, ha, hk⟩
    · rintro ⟨a, ha, hk⟩
      exact ⟨groupOf key weight l (key a), (h _).2 ⟨a, ha, rfl⟩, hk⟩
  intro g
  unfold Grouping.insert
  by_cases hb : ∃ a ∈ l, key a = key b
  · rw [if_pos (hkeys.2 hb), List.mem_map]
    constructor
    · rintro ⟨g₀, hg₀, rfl⟩
      obtain ⟨a, ha, rfl⟩ := (h g₀).1 hg₀
      refine ⟨a, List.mem_append_left _ ha, ?_⟩
      rw [groupOf_append_of_mem ⟨a, ha, rfl⟩]
      rfl
    · rintro ⟨a, ha, rfl⟩
      have hin : ∃ a' ∈ l, key a' = key a := by
        rcases List.mem_append.1 ha with ha | ha
        · exact ⟨a, ha, rfl⟩
        · rw [List.mem_singleton.1 ha]
          exact hb
      obtain ⟨a', ha', hk⟩ := hin
      refine ⟨groupOf key weight l (key a), (h _).2 ⟨a', ha', by rw [hk]⟩, ?_⟩
      rw [groupOf_append_of_mem ⟨a', ha', hk⟩]
      rfl
  · rw [if_neg (fun hk => hb (hkeys.1 hk)), List.mem_append, List.mem_singleton]
    have hno : ∀ a ∈ l, key a ≠ key b := fun a ha hk => hb ⟨a, ha, hk⟩
    have hsame : ∀ a ∈ l, groupOf key weight (l ++ [b]) (key a) = groupOf key weight l (key a) := fun a ha => by
      rw [groupOf_append_of_mem ⟨a, ha, rfl⟩, if_neg (hno a ha)]
    constructor
    · rintro (hg | rfl)
      · obtain ⟨a, ha, rfl⟩ := (h g).1 hg
        exact ⟨a, List.mem_append_left _ ha, (hsame a ha).symm⟩
      · exact ⟨b, by simp, (groupOf_append_of_not_mem hno).symm⟩
    · rintro ⟨a, ha, rfl⟩
      rcases List.mem_append.1 ha with ha | ha
      · exact Or.inl ((h _).2 ⟨a, ha, hsame a ha⟩)
      · rw [List.mem_singleton.1 ha]
        exact Or.inr (groupOf_append_of_not_mem hno)

theorem Groups.run : ∀ {l : List α} {done : List α} {gs : List (Group κ α μ)}, Groups key weight done gs →
    Groups key weight (done ++ l) (groupFrom key weight done.length gs l)
  | [], done, gs, h => by
    rw [List.append_nil]
    exact h
  | b :: l, done, gs, h => by
    have hnext := Groups.run (l := l) (h.insert b)
    rw [List.append_assoc, List.length_append] at hnext
    exact hnext

/-- **The groups of a list**: for each of its keys, the first place, the elements and the weight of that key. -/
theorem mem_group {l : List α} {g : Group κ α μ} :
    g ∈ group key weight l ↔ ∃ a ∈ l, g = groupOf key weight l (key a) := by
  have hnil : Groups key weight ([] : List α) [] := fun _ => by simp
  exact hnil.run g

end

/-! ## The shortest prefix -/

/-- Elements are taken until `enough` holds of how many they are and what they weigh. -/
def takeFrom (weight : α → μ) (enough : Nat → μ → Bool) : Nat → μ → List α → List α
  | _, _, [] => []
  | n, m, a :: l => a :: if enough (n + 1) (m + weight a) then [] else takeFrom weight enough (n + 1) (m + weight a) l

def takeUntil (weight : α → μ) (enough : Nat → μ → Bool) (l : List α) : List α := takeFrom weight enough 0 0 l

variable {weight : α → μ} {enough : Nat → μ → Bool}

theorem takeFrom_prefix : ∀ (l : List α) (n : Nat) (m : μ), takeFrom weight enough n m l <+: l
  | [], n, m => List.prefix_rfl
  | a :: l, n, m => by
    rw [takeFrom, List.cons_prefix_cons]
    refine ⟨rfl, ?_⟩
    split
    · exact List.nil_prefix
    · exact takeFrom_prefix l (n + 1) (m + weight a)

/-- **No prefix reaches earlier**: what is taken is a prefix of every prefix, not empty, at which there is enough. -/
theorem takeFrom_shortest : ∀ {l p : List α} {n : Nat} {m : μ}, p <+: l → p ≠ [] →
    enough (n + p.length) (m + (p.map weight).sum) = true → takeFrom weight enough n m l <+: p
  | [], p, n, m, hp, hne, _ => absurd (List.prefix_nil.1 hp) hne
  | a :: l, [], n, m, _, hne, _ => absurd rfl hne
  | a :: l, b :: p, n, m, h, _, he => by
    obtain ⟨rfl, hp⟩ := List.cons_prefix_cons.1 h
    rw [takeFrom, List.cons_prefix_cons]
    refine ⟨rfl, ?_⟩
    split
    · exact List.nil_prefix
    · rename_i hno
      by_cases hnil : p = []
      · subst hnil
        simp [hno] at he
      · refine takeFrom_shortest hp hnil ?_
        rw [List.length_cons, List.map_cons, List.sum_cons, ← add_assoc, ← add_assoc, add_right_comm] at he
        exact he

/-- **There is enough in what is taken** when there is in the whole list. -/
theorem takeFrom_enough : ∀ {l : List α} {n : Nat} {m : μ}, l ≠ [] →
    enough (n + l.length) (m + (l.map weight).sum) = true →
    enough (n + (takeFrom weight enough n m l).length) (m + ((takeFrom weight enough n m l).map weight).sum) = true
  | [], n, m, hne, _ => absurd rfl hne
  | a :: l, n, m, _, he => by
    rw [takeFrom]
    split
    · rename_i hyes
      simpa using hyes
    · rename_i hno
      by_cases hnil : l = []
      · subst hnil
        simp [hno] at he
      · rw [List.length_cons, List.map_cons, List.sum_cons, ← add_assoc, ← add_assoc, add_right_comm] at he
        rw [List.length_cons, List.map_cons, List.sum_cons, ← add_assoc, ← add_assoc, add_right_comm]
        exact takeFrom_enough hnil he

theorem takeUntil_prefix (l : List α) : takeUntil weight enough l <+: l := takeFrom_prefix l 0 0

theorem takeUntil_shortest {l p : List α} (hp : p <+: l) (hne : p ≠ []) (he : enough p.length (p.map weight).sum = true) :
    takeUntil weight enough l <+: p :=
  takeFrom_shortest hp hne (by simpa using he)

theorem takeUntil_enough {l : List α} (hne : l ≠ []) (he : enough l.length (l.map weight).sum = true) :
    enough (takeUntil weight enough l).length ((takeUntil weight enough l).map weight).sum = true := by
  have h := takeFrom_enough (n := 0) (m := (0 : μ)) hne (by simpa using he)
  simpa [takeUntil] using h

end Grouping
