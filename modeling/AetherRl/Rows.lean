import Mathlib.Data.List.Nodup
import Mathlib.Data.List.Sort
import Mathlib.Data.Prod.Lex
import Mathlib.Data.String.Basic
/-!
# Rows — lists of rows under a key

A table is its rows in insertion order.  `get` reads the row of a key, `set` is `UPDATE … WHERE key = k`, and a key that
occurs once (`Nodup` of the mapped keys) makes the two inverse: `get_set`, `mem_set`.  `orderBy` is `ORDER BY`: a stable
sort on a key into a linear order.
-/
namespace Rows

variable {ρ κ ι : Type} [DecidableEq κ] (key : ρ → κ)

def get (k : κ) (l : List ρ) : Option ρ := l.find? (fun r => decide (key r = k))

def set (k : κ) (f : ρ → ρ) (l : List ρ) : List ρ := l.map (fun r => if key r = k then f r else r)

/-- `ORDER BY key`. -/
def orderBy [LinearOrder ι] (key : ρ → ι) (l : List ρ) : List ρ := l.insertionSort (fun x y => key x ≤ key y)

@[simp] theorem mem_orderBy [LinearOrder ι] (key : ρ → ι) (l : List ρ) (r : ρ) : r ∈ orderBy key l ↔ r ∈ l :=
  (List.perm_insertionSort _ l).mem_iff

theorem orderBy_perm [LinearOrder ι] (key : ρ → ι) (l : List ρ) : (orderBy key l).Perm l :=
  List.perm_insertionSort _ l

theorem orderBy_pairwise [LinearOrder ι] (key : ρ → ι) (l : List ρ) :
    (orderBy key l).Pairwise (fun x y => key x ≤ key y) :=
  haveI : Std.Total (fun x y : ρ => key x ≤ key y) := ⟨fun x y => le_total (key x) (key y)⟩
  haveI : IsTrans ρ (fun x y => key x ≤ key y) := ⟨fun _ _ _ => le_trans⟩
  List.pairwise_insertionSort _ l

theorem mem_of_get {k : κ} {l : List ρ} {r : ρ} (h : get key k l = some r) : r ∈ l :=
  List.mem_of_find?_eq_some h

theorem key_of_get {k : κ} {l : List ρ} {r : ρ} (h : get key k l = some r) : key r = k := by
  simpa using List.find?_some h

theorem get_eq_none {k : κ} {l : List ρ} : get key k l = none ↔ ∀ r ∈ l, key r ≠ k := by
  simp [get, List.find?_eq_none]

/-- **Under a key that occurs once, the row of a key is the row with that key.** -/
theorem get_eq_some {k : κ} {l : List ρ} {r : ρ} (hn : (l.map key).Nodup) :
    get key k l = some r ↔ r ∈ l ∧ key r = k := by
  constructor
  · exact fun h => ⟨mem_of_get key h, key_of_get key h⟩
  · rintro ⟨hr, rfl⟩
    cases hg : get key (key r) l with
    | none => exact absurd rfl ((get_eq_none key).1 hg r hr)
    | some r' =>
      rw [List.inj_on_of_nodup_map hn (mem_of_get key hg) hr (key_of_get key hg)]

theorem get_of_mem {l : List ρ} {r : ρ} (hn : (l.map key).Nodup) (hr : r ∈ l) : get key (key r) l = some r :=
  (get_eq_some key hn).2 ⟨hr, rfl⟩

omit [DecidableEq κ] in
theorem eq_of_key {l : List ρ} {r r' : ρ} (hn : (l.map key).Nodup) (hr : r ∈ l) (hr' : r' ∈ l) (h : key r = key r') :
    r = r' := List.inj_on_of_nodup_map hn hr hr' h

omit [DecidableEq κ] in
/-- **Under a partial key that occurs once**, rows that have it in common are the same. -/
theorem eq_of_filterMap (f : ρ → Option κ) : ∀ {l : List ρ} {r r' : ρ} {k : κ}, (l.filterMap f).Nodup → r ∈ l → r' ∈ l →
    f r = some k → f r' = some k → r = r'
  | a :: l, r, r', k, hn, hr, hr', hk, hk' => by
    rw [List.filterMap_cons] at hn
    have hout : ∀ x ∈ l, ∀ j, f a = some j → f x ≠ some j := by
      intro x hx j haj hxj
      rw [haj, List.nodup_cons] at hn
      exact hn.1 (List.mem_filterMap.2 ⟨x, hx, hxj⟩)
    have hl : (l.filterMap f).Nodup := by
      cases hfa : f a with
      | none => rwa [hfa] at hn
      | some j => rw [hfa] at hn; exact (List.nodup_cons.1 hn).2
    rcases List.mem_cons.1 hr with he | hm <;> rcases List.mem_cons.1 hr' with he' | hm'
    · exact he.trans he'.symm
    · exact absurd hk' (hout _ hm' k (he ▸ hk))
    · exact absurd hk (hout _ hm k (he' ▸ hk'))
    · exact eq_of_filterMap f hl hm hm' hk hk'

omit [DecidableEq κ] in
/-- **The one row of a table whose rows differ.** -/
theorem eq_singleton {l : List ρ} {r : ρ} (hn : l.Nodup) (hr : r ∈ l) (h : ∀ r' ∈ l, r' = r) : l = [r] := by
  rw [← List.perm_singleton, List.perm_ext_iff_of_nodup hn (List.nodup_singleton r)]
  intro r'
  rw [List.mem_singleton]
  exact ⟨h r', fun he => he ▸ hr⟩

/-! ## `UPDATE` -/

@[simp] theorem set_nil (k : κ) (f : ρ → ρ) : set key k f [] = [] := rfl

theorem mem_set {k : κ} {f : ρ → ρ} {l : List ρ} {r : ρ} :
    r ∈ set key k f l ↔ (∃ r₀ ∈ l, key r₀ = k ∧ r = f r₀) ∨ (r ∈ l ∧ key r ≠ k) := by
  simp only [set, List.mem_map]
  constructor
  · rintro ⟨r₀, hr₀, h⟩
    by_cases hk : key r₀ = k
    · rw [if_pos hk] at h
      exact Or.inl ⟨r₀, hr₀, hk, h.symm⟩
    · rw [if_neg hk] at h
      exact Or.inr ⟨h ▸ hr₀, h ▸ hk⟩
  · rintro (⟨r₀, hr₀, hk, h⟩ | ⟨hr, hk⟩)
    · exact ⟨r₀, hr₀, by rw [if_pos hk]; exact h.symm⟩
    · exact ⟨r, hr, by rw [if_neg hk]⟩

/-- **An update that keeps a column keeps the column of the whole table.** -/
theorem map_set {γ : Type} (g : ρ → γ) (k : κ) (f : ρ → ρ) (l : List ρ) (h : ∀ r ∈ l, key r = k → g (f r) = g r) :
    (set key k f l).map g = l.map g := by
  rw [set, List.map_map]
  apply List.map_congr_left
  intro r hr
  simp only [Function.comp_apply]
  split
  · rename_i hk; exact h r hr hk
  · rfl

/-- **An update of a key no row has changes nothing.** -/
theorem set_of_not_mem {k : κ} {f : ρ → ρ} {l : List ρ} (h : ∀ r ∈ l, key r ≠ k) : set key k f l = l := by
  rw [set]
  conv => rhs; rw [← List.map_id l]
  exact List.map_congr_left (fun r hr => by rw [if_neg (h r hr)]; rfl)

theorem set_of_same {k : κ} {f : ρ → ρ} {l : List ρ} (h : ∀ r ∈ l, key r = k → f r = r) : set key k f l = l := by
  rw [set]
  conv => rhs; rw [← List.map_id l]
  refine List.map_congr_left fun r hr => ?_
  by_cases hk : key r = k
  · rw [if_pos hk, h r hr hk]
    rfl
  · rw [if_neg hk]
    rfl

/-- **A condition the update does not touch selects the updated rows of those it selected.** -/
theorem filter_set (p : ρ → Bool) (k : κ) (f : ρ → ρ) (l : List ρ) (h : ∀ r ∈ l, key r = k → p (f r) = p r) :
    (set key k f l).filter p = set key k f (l.filter p) := by
  induction l with
  | nil => rfl
  | cons r l ih =>
    have ih := ih (fun r' hr' => h r' (List.mem_cons_of_mem _ hr'))
    have hr := h r List.mem_cons_self
    simp only [set, List.map_cons, List.filter_cons] at ih ⊢
    by_cases hk : key r = k
    · rw [if_pos hk, hr hk, ih]
      by_cases hp : p r = true
      · rw [if_pos hp, if_pos hp, List.map_cons, if_pos hk]
      · rw [if_neg hp, if_neg hp]
    · rw [if_neg hk, ih]
      by_cases hp : p r = true
      · rw [if_pos hp, if_pos hp, List.map_cons, if_neg hk]
      · rw [if_neg hp, if_neg hp]

/-- Reading after an update. -/
theorem get_set {k j : κ} {f : ρ → ρ} {l : List ρ} (hf : ∀ r ∈ l, key r = k → key (f r) = key r) :
    get key j (set key k f l) = if j = k then (get key j l).map f else get key j l := by
  induction l with
  | nil => simp [get]
  | cons r l ih =>
    have ih := ih (fun r' hr' => hf r' (List.mem_cons_of_mem _ hr'))
    have hr := hf r List.mem_cons_self
    simp only [get, set, List.map_cons, List.find?_cons] at ih ⊢
    by_cases hk : key r = k
    · rw [if_pos hk, hr hk]
      by_cases hj : key r = j
      · rw [if_pos (hj.symm.trans hk)]
        simp [hj]
      · simp only [hj, decide_false]
        exact ih
    · rw [if_neg hk]
      by_cases hj : key r = j
      · rw [if_neg (fun h => hk (hj.trans h))]
        simp [hj]
      · simp only [hj, decide_false]
        exact ih

theorem length_set (k : κ) (f : ρ → ρ) (l : List ρ) : (set key k f l).length = l.length := by
  simp [set]

/-! ## `INSERT` -/

theorem get_append {k : κ} {l : List ρ} {r : ρ} :
    get key k (l ++ [r]) = (get key k l).or (if key r = k then some r else none) := by
  simp only [get, List.find?_append]
  congr 1
  by_cases hk : key r = k <;> simp [hk]

/-- **A table that grows keeps the row of a key.** -/
theorem get_of_prefix {k : κ} {l l' : List ρ} {r : ρ} (h : l <+: l') (hr : get key k l = some r) :
    get key k l' = some r := by
  obtain ⟨new, rfl⟩ := h
  rw [get, List.find?_append, show l.find? _ = some r from hr, Option.some_or]

/-! ## Columns an update leaves alone -/

section
variable {fixed : ρ → ρ} {l l' : List ρ} (h : l'.map fixed = l.map fixed)
include h

/-- What is read off the fixed columns stays. -/
theorem map_of_fixed {γ : Type} {g : ρ → γ} (hg : ∀ r, g (fixed r) = g r) : l'.map g = l.map g := by
  have hm := congrArg (List.map g) h
  simpa only [List.map_map, Function.comp_def, hg] using hm

theorem forall_of_fixed {P : ρ → Prop} (hP : ∀ r, P (fixed r) ↔ P r) (hl : ∀ r ∈ l, P r) : ∀ r ∈ l', P r := by
  intro r hr
  obtain ⟨r₀, hr₀, he⟩ := List.mem_map.1 (h ▸ List.mem_map_of_mem hr)
  rw [← hP, ← he, hP]
  exact hl r₀ hr₀

theorem exists_of_fixed {P : ρ → Prop} (hP : ∀ r, P (fixed r) ↔ P r) (hl : ∃ r ∈ l, P r) : ∃ r ∈ l', P r := by
  obtain ⟨r, hr, hp⟩ := hl
  obtain ⟨r', hr', he⟩ := List.mem_map.1 (h.symm ▸ List.mem_map_of_mem hr)
  exact ⟨r', hr', by rw [← hP, he, hP]; exact hp⟩

end

end Rows
