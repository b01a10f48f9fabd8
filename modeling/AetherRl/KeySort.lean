import Mathlib.Data.List.Pairwise
import Mathlib.Data.List.Perm.Basic
import AetherRl.Rows
/-!
# KeySort — sorting by keys that may not compare

Keys come in kinds: two of one kind compare by their rank, two of different kinds do not compare and the comparison
raises (`none`).  Sorting entries by their keys compares as an insertion sort does; `sortItems_eq` says when it raises and what it
returns, and then that neither depends on the order the entries came in.
-/
namespace KeySort

variable {κ ι ρ β γ : Type}

/-- What keys compare by. -/
structure KeyType (κ ι ρ : Type) where
  kind : κ → ι
  rank : κ → ρ

/-- Two keys a mapping can have both: of different kinds, or of different rank. -/
def KeyType.Apart (K : KeyType κ ι ρ) (a b : κ) : Prop := K.kind a = K.kind b → K.rank a ≠ K.rank b

/-- **Entries whose keys are apart are told apart by them.** -/
theorem eq_of_apart {K : KeyType κ ι ρ} {l : List (κ × β)} (hd : l.Pairwise fun x y => K.Apart x.1 y.1) {x y : κ × β}
    (hx : x ∈ l) (hy : y ∈ l) (hk : K.kind x.1 = K.kind y.1) (hr : K.rank x.1 = K.rank y.1) : x = y := by
  by_contra hne
  have hsym : Std.Symm fun x y : κ × β => K.Apart x.1 y.1 := ⟨fun a b hab hk he => hab hk.symm he.symm⟩
  exact hd.forall hx hy hne hk hr

section
variable [DecidableEq ι] [LinearOrder ρ] (K : KeyType κ ι ρ)

/-- `a < b`, which raises for keys of different kinds. -/
def less (a b : κ) : Option Bool := if K.kind a = K.kind b then some (decide (K.rank a < K.rank b)) else none

def insertItem (x : κ × β) : List (κ × β) → Option (List (κ × β))
  | [] => some [x]
  | y :: l => do
    let before ← less K y.1 x.1
    if before then do
      let rest ← insertItem x l
      pure (y :: rest)
    else pure (x :: y :: l)

def sortItems : List (κ × β) → Option (List (κ × β))
  | [] => some []
  | x :: l => do
    let sorted ← sortItems l
    insertItem K x sorted

/-- All the keys are of one kind. -/
def OneKind (l : List (κ × β)) : Prop := ∀ x ∈ l, ∀ y ∈ l, K.kind x.1 = K.kind y.1

variable {K}

omit [DecidableEq ι] [LinearOrder ρ] in
theorem oneKind_iff_keys {l : List (κ × β)} :
    OneKind K l ↔ ∀ a ∈ l.map Prod.fst, ∀ b ∈ l.map Prod.fst, K.kind a = K.kind b := by
  simp only [OneKind, List.forall_mem_map]

theorem insertItem_of_kind {x : κ × β} : ∀ {l : List (κ × β)}, (∀ y ∈ l, K.kind y.1 = K.kind x.1) →
    insertItem K x l = some (l.orderedInsert (fun a b => K.rank a.1 ≤ K.rank b.1) x)
  | [], _ => rfl
  | y :: l, h => by
    have hy := h y List.mem_cons_self
    rw [insertItem, less, if_pos hy, Option.bind_eq_bind, Option.bind_some, List.orderedInsert_cons]
    by_cases hlt : K.rank y.1 < K.rank x.1
    · rw [if_pos (by simpa using hlt), insertItem_of_kind fun z hz => h z (List.mem_cons_of_mem _ hz), if_neg hlt.not_ge]
      rfl
    · rw [if_neg (by simpa using hlt), if_pos (not_lt.1 hlt)]
      rfl

theorem insertItem_of_ne {x y : κ × β} {l : List (κ × β)} (h : K.kind y.1 ≠ K.kind x.1) :
    insertItem K x (y :: l) = none := by
  rw [insertItem, less, if_neg h]
  rfl

/-- **Sorting orders entries of one kind, and raises where there are two.** -/
theorem sortItems_eq : ∀ l : List (κ × β),
    (OneKind K l → sortItems K l = some (Rows.orderBy (fun x => K.rank x.1) l)) ∧
      (¬ OneKind K l → sortItems K l = none)
  | [] => ⟨fun _ => rfl, fun h => absurd (fun x hx => absurd hx List.not_mem_nil) h⟩
  | x :: l => by
    obtain ⟨hone, hmixed⟩ := sortItems_eq l
    by_cases hl : OneKind K l
    · rw [sortItems, hone hl, Option.bind_eq_bind, Option.bind_some]
      constructor
      · intro h
        rw [insertItem_of_kind fun y hy => ?_]
        · rfl
        · exact h y (List.mem_cons_of_mem _ ((Rows.mem_orderBy _ l y).1 hy)) x List.mem_cons_self
      · intro h
        have hother : ∃ y ∈ l, K.kind y.1 ≠ K.kind x.1 := by
          by_contra hall
          push Not at hall
          refine h fun a ha b hb => ?_
          have hkind : ∀ c ∈ x :: l, K.kind c.1 = K.kind x.1 := fun c hc => by
            rcases List.mem_cons.1 hc with rfl | hc
            · rfl
            · exact hall c hc
          exact (hkind a ha).trans (hkind b hb).symm
        obtain ⟨y, hy, hne⟩ := hother
        cases hs : Rows.orderBy (fun x => K.rank x.1) l with
        | nil =>
          have hy' := (Rows.mem_orderBy (fun x => K.rank x.1) l y).2 hy
          rw [hs] at hy'
          exact absurd hy' List.not_mem_nil
        | cons z s =>
          have hz : z ∈ l := (Rows.mem_orderBy (fun x => K.rank x.1) l z).1 (hs ▸ List.mem_cons_self)
          exact insertItem_of_ne (hl z hz y hy ▸ hne)
    · rw [sortItems, hmixed hl]
      refine ⟨fun h => absurd (fun a ha b hb => ?_) hl, fun _ => rfl⟩
      exact h a (List.mem_cons_of_mem _ ha) b (List.mem_cons_of_mem _ hb)

/-- **Sorting returns exactly where the keys are of one kind.** -/
theorem sortItems_returns {l : List (κ × β)} : (∃ s, sortItems K l = some s) ↔ OneKind K l := by
  obtain ⟨hone, hmixed⟩ := sortItems_eq (K := K) l
  refine ⟨fun ⟨s, hs⟩ => ?_, fun hl => ⟨_, hone hl⟩⟩
  by_contra hl
  rw [hmixed hl] at hs
  cases hs

theorem sortItems_perm {l s : List (κ × β)} (h : sortItems K l = some s) : s.Perm l := by
  obtain ⟨hone, hmixed⟩ := sortItems_eq (K := K) l
  by_cases hl : OneKind K l
  · rw [hone hl] at h
    rw [← Option.some.inj h]
    exact Rows.orderBy_perm _ l
  · rw [hmixed hl] at h
    cases h

/-- **The order the entries came in does not matter**, to what is returned or whether it raises. -/
theorem sortItems_of_perm {l l' : List (κ × β)} (hp : l.Perm l') (hd : l.Pairwise fun x y => K.Apart x.1 y.1) :
    sortItems K l = sortItems K l' := by
  obtain ⟨hone, hmixed⟩ := sortItems_eq (K := K) l
  obtain ⟨hone', hmixed'⟩ := sortItems_eq (K := K) l'
  by_cases hl : OneKind K l
  · have hl' : OneKind K l' := fun x hx y hy => hl x (hp.mem_iff.2 hx) y (hp.mem_iff.2 hy)
    rw [hone hl, hone' hl']
    refine congrArg some (List.Perm.eq_of_pairwise ?_ (Rows.orderBy_pairwise (fun x => K.rank x.1) l)
      (Rows.orderBy_pairwise (fun x => K.rank x.1) l')
      ((Rows.orderBy_perm _ l).trans (hp.trans (Rows.orderBy_perm _ l').symm)))
    intro x y hx hy hxy hyx
    have hxl : x ∈ l := (Rows.mem_orderBy _ l x).1 hx
    have hyl : y ∈ l := hp.mem_iff.2 ((Rows.mem_orderBy _ l' y).1 hy)
    exact eq_of_apart hd hxl hyl (hl x hxl y hyl) (le_antisymm hxy hyx)
  · have hl' : ¬ OneKind K l' := fun h => hl fun x hx y hy => h x (hp.mem_iff.1 hx) y (hp.mem_iff.1 hy)
    rw [hmixed hl, hmixed' hl']

/-- **Sorting sees the keys only.** -/
theorem sortItems_map {f : κ × β → κ × γ} (hf : ∀ x, (f x).1 = x.1) (l : List (κ × β)) :
    sortItems K (l.map f) = (sortItems K l).map (List.map f) := by
  have hinsert : ∀ (x : κ × β) (l : List (κ × β)),
      insertItem K (f x) (l.map f) = (insertItem K x l).map (List.map f) := by
    intro x l
    induction l with
    | nil => rfl
    | cons y l ih =>
      rw [List.map_cons, insertItem, insertItem, hf, hf, ih]
      cases hless : less K y.1 x.1 with
      | none => rfl
      | some before =>
        cases before with
        | true => cases insertItem K x l <;> rfl
        | false => rfl
  induction l with
  | nil => rfl
  | cons x l ih =>
    rw [List.map_cons, sortItems, sortItems, ih]
    cases hs : sortItems K l with
    | none => rfl
    | some s => exact hinsert x s

end

end KeySort
