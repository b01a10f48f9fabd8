import Mathlib.Data.List.Perm.Basic
import Mathlib.Data.List.Forall2
/-!
# Checked — computations that may raise

Rules to read `Except` one step at a time: what a sequence, a check or a traversal returned.
-/
namespace Checked

variable {ε α β : Type}

/-- A check that raises. -/
def raiseUnless (p : Prop) [Decidable p] (e : ε) : Except ε Unit := if p then .ok () else .error e

theorem raiseUnless_eq_ok {p : Prop} [Decidable p] {e : ε} {u : Unit} : raiseUnless p e = .ok u ↔ p := by
  unfold raiseUnless
  by_cases hp : p <;> simp [hp]

theorem raiseUnless_of {p : Prop} [Decidable p] (e : ε) (hp : p) : raiseUnless p e = .ok () :=
  raiseUnless_eq_ok.2 hp

theorem raiseUnless_eq_error {p : Prop} [Decidable p] {e e' : ε} : raiseUnless p e = .error e' ↔ ¬ p ∧ e = e' := by
  unfold raiseUnless
  by_cases hp : p <;> simp [hp]

/-- **A sequence returns when its first part does and its second, from there.** -/
theorem bind_eq_ok {x : Except ε α} {f : α → Except ε β} {b : β} :
    (x >>= f) = .ok b ↔ ∃ a, x = .ok a ∧ f a = .ok b := by
  cases x with
  | error e => simp [bind, Except.bind]
  | ok a => simp [bind, Except.bind]

/-- **A sequence raises when** its first part does, or its second, from there. -/
theorem bind_eq_error {x : Except ε α} {f : α → Except ε β} {e : ε} :
    (x >>= f) = .error e ↔ x = .error e ∨ ∃ a, x = .ok a ∧ f a = .error e := by
  cases x with
  | error _ => simp [bind, Except.bind]
  | ok _ => simp [bind, Except.bind]

theorem pure_eq_ok {a b : α} : (pure a : Except ε α) = .ok b ↔ a = b := by
  simp [pure, Except.pure]

theorem ok_bind (a : α) (f : α → Except ε β) : ((Except.ok a : Except ε α) >>= f) = f a := rfl

/-- **A traversal returns when each element does.** -/
theorem mapM_eq_ok {f : α → Except ε β} : ∀ {xs : List α} {ys : List β},
    xs.mapM f = .ok ys ↔ List.Forall₂ (fun x y => f x = .ok y) xs ys
  | [], ys => by
    rw [List.mapM_nil, pure_eq_ok, List.forall₂_nil_left_iff]
    exact eq_comm
  | x :: xs, ys => by
    rw [List.mapM_cons, bind_eq_ok, List.forall₂_cons_left_iff]
    constructor
    · rintro ⟨y, hy, h⟩
      obtain ⟨zs, hzs, h⟩ := bind_eq_ok.1 h
      exact ⟨y, zs, hy, mapM_eq_ok.1 hzs, (pure_eq_ok.1 h).symm⟩
    · rintro ⟨y, zs, hy, hzs, rfl⟩
      exact ⟨y, hy, bind_eq_ok.2 ⟨zs, mapM_eq_ok.2 hzs, rfl⟩⟩

theorem forall₂_mem_right {R : α → β → Prop} : ∀ {xs : List α} {ys : List β}, List.Forall₂ R xs ys →
    ∀ y ∈ ys, ∃ x ∈ xs, R x y
  | _, _, .nil, y, hy => by cases hy
  | x :: _, _, .cons hx h, z, hz => by
    rcases List.mem_cons.1 hz with rfl | hz
    · exact ⟨x, List.mem_cons_self, hx⟩
    · obtain ⟨u, hu, hr⟩ := forall₂_mem_right h z hz
      exact ⟨u, List.mem_cons_of_mem x hu, hr⟩

theorem forall₂_mem_left {R : α → β → Prop} {xs : List α} {ys : List β} (h : List.Forall₂ R xs ys) :
    ∀ x ∈ xs, ∃ y ∈ ys, R x y :=
  forall₂_mem_right h.flip

theorem flatMap_eq_of_forall₂ {γ : Type} {f : α → List γ} {g : β → List γ} : ∀ {xs : List α} {ys : List β},
    List.Forall₂ (fun x y => g y = f x) xs ys → ys.flatMap g = xs.flatMap f
  | _, _, .nil => rfl
  | _, _, .cons hx h => by rw [List.flatMap_cons, List.flatMap_cons, hx, flatMap_eq_of_forall₂ h]

/-- What a traversal returned comes from an element. -/
theorem mapM_mem {f : α → Except ε β} {xs : List α} {ys : List β} (h : xs.mapM f = .ok ys) :
    ∀ y ∈ ys, ∃ x ∈ xs, f x = .ok y :=
  forall₂_mem_right (mapM_eq_ok.1 h)

/-- Each element returned something. -/
theorem mapM_of_mem {f : α → Except ε β} {xs : List α} {ys : List β} (h : xs.mapM f = .ok ys) :
    ∀ x ∈ xs, ∃ y ∈ ys, f x = .ok y :=
  forall₂_mem_left (mapM_eq_ok.1 h)

theorem mapM_of_forall {f : α → Except ε β} {g : α → β} {xs : List α} (h : ∀ x ∈ xs, f x = .ok (g x)) :
    xs.mapM f = .ok (xs.map g) := by
  refine mapM_eq_ok.2 (List.forall₂_map_right_iff.2 (List.forall₂_same.2 h))

theorem mapM_isOk {f : α → Except ε β} {xs : List α} (h : ∀ x ∈ xs, ∃ y, f x = .ok y) : ∃ ys, xs.mapM f = .ok ys := by
  induction xs with
  | nil => exact ⟨[], rfl⟩
  | cons x xs ih =>
    obtain ⟨y, hy⟩ := h x List.mem_cons_self
    obtain ⟨ys, hys⟩ := ih fun z hz => h z (List.mem_cons_of_mem x hz)
    exact ⟨y :: ys, mapM_eq_ok.2 (.cons hy (mapM_eq_ok.1 hys))⟩

/-- Two relations after each other, element by element. -/
theorem forall₂_comp {γ : Type} {R : α → β → Prop} {S : β → γ → Prop} : ∀ {xs : List α} {ys : List β} {zs : List γ},
    List.Forall₂ R xs ys → List.Forall₂ S ys zs → List.Forall₂ (fun x z => ∃ y, R x y ∧ S y z) xs zs
  | _, _, _, .nil, .nil => .nil
  | _, _, _, .cons hx h, .cons hy h' => .cons ⟨_, hx, hy⟩ (forall₂_comp h h')

/-- One pass after the other, element by element. -/
theorem mapM_comp {γ : Type} {f : α → Except ε β} {g : β → Except ε γ} {xs : List α} {ys : List β} {zs : List γ}
    (hf : xs.mapM f = .ok ys) (hg : ys.mapM g = .ok zs) :
    List.Forall₂ (fun x z => ∃ y, f x = .ok y ∧ g y = .ok z) xs zs :=
  forall₂_comp (mapM_eq_ok.1 hf) (mapM_eq_ok.1 hg)

/-! ## Traversals that may find nothing -/

theorem mapM_eq_some {f : α → Option β} : ∀ {xs : List α} {ys : List β},
    xs.mapM f = some ys ↔ List.Forall₂ (fun x y => f x = some y) xs ys
  | [], ys => by
    rw [List.mapM_nil, List.forall₂_nil_left_iff]
    exact ⟨fun h => (Option.some.inj h).symm, fun h => h ▸ rfl⟩
  | x :: xs, ys => by
    rw [List.mapM_cons, List.forall₂_cons_left_iff]
    constructor
    · intro h
      obtain ⟨y, hy, h⟩ := Option.bind_eq_some_iff.1 h
      obtain ⟨zs, hzs, h⟩ := Option.bind_eq_some_iff.1 h
      exact ⟨y, zs, hy, mapM_eq_some.1 hzs, (Option.some.inj h).symm⟩
    · rintro ⟨y, zs, hy, hzs, rfl⟩
      rw [hy, mapM_eq_some.2 hzs]
      rfl

/-- Over the numbers below `n`, what reads the entries of a list gathers the list. -/
theorem mapM_range_eq {f : Nat → Option α} {l l' : List α} {n : Nat} (hn : l.length = n)
    (hf : ∀ k < n, f k = l[k]?) (h : (List.range n).mapM f = some l') : l' = l := by
  have hall := mapM_eq_some.1 h
  have hlen : l'.length = n := by rw [← hall.length_eq, List.length_range]
  refine List.ext_getElem (by rw [hlen, hn]) fun k hk' hk => ?_
  have hkn : k < n := hn ▸ hk
  have hget := List.Forall₂.get hall (by rw [List.length_range]; exact hkn) hk'
  simp only [List.get_eq_getElem, List.getElem_range] at hget
  rw [hf k hkn, List.getElem?_eq_getElem hk, Option.some.injEq] at hget
  exact hget.symm

/-- **A traversal of a permuted list finds the permuted values.** -/
theorem mapM_perm {f : α → Option β} {xs xs' : List α} {ys : List β} (hp : xs.Perm xs') (h : xs.mapM f = some ys) :
    ∃ ys', xs'.mapM f = some ys' ∧ ys'.Perm ys := by
  obtain ⟨ys', h', hys⟩ := List.perm_comp_forall₂ hp.symm (mapM_eq_some.1 h)
  exact ⟨ys', mapM_eq_some.2 h', hys⟩

end Checked
