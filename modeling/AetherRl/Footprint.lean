import AetherRl.Txn
/-!
# Footprint — what a program may write

A store is read as a family of tables, `rows s k`.  `Writes rows S` says of a body that every table outside `S` is
left as it was; it composes along the program, and `grind` follows the program's text with the lemmas tagged here.
-/
namespace Txn

variable {σ ε α β κ : Type} {ρ : κ → Type} {rows : σ → (k : κ) → ρ k} {S : List κ}

/-- **A body that returns leaves every table outside `S` alone.** -/
def Writes (rows : σ → (k : κ) → ρ k) (S : List κ) (m : Body σ ε α) : Prop :=
  ∀ s a s', Returns m s a s' → ∀ k, k ∉ S → rows s' k = rows s k

theorem Writes.mono {m : Body σ ε α} {S' : List κ} (h : Writes rows S m) (hs : S ⊆ S') : Writes rows S' m :=
  fun s a s' hm k hk => h s a s' hm k (fun hk' => hk (hs hk'))

@[grind .] theorem Writes.bind {x : Body σ ε α} {f : α → Body σ ε β} (hx : Writes rows S x)
    (hf : ∀ a, Writes rows S (f a)) : Writes rows S (x >>= f) := by
  intro s b s'' h k hk
  obtain ⟨a, s', h₁, h₂⟩ := (returns_bind x f s s'' b).1 h
  rw [hf a s' b s'' h₂ k hk, hx s a s' h₁ k hk]

@[grind .] theorem Writes.map {x : Body σ ε α} (f : α → β) (hx : Writes rows S x) : Writes rows S (f <$> x) := by
  intro s b s' h
  obtain ⟨a, h₁, _⟩ := (returns_map f x s s' b).1 h
  exact hx s a s' h₁

@[grind .] theorem Writes.pure (a : α) : Writes rows S (pure a : Body σ ε α) := by
  intro s b s' h k _
  rw [returns_pure] at h
  rw [h.2]

@[grind .] theorem Writes.throw (e : ε) : Writes rows S (throw e : Body σ ε α) := by
  intro s b s' h
  exact ((returns_throw e s s' b).1 h).elim

@[grind .] theorem Writes.raiseIf (c : Prop) [Decidable c] (e : ε) : Writes rows S (raiseIf c e : Body σ ε Unit) := by
  intro s b s' h k _
  rw [returns_raiseIf] at h
  rw [h.2]

@[grind .] theorem Writes.orRaise (o : Option α) (e : ε) : Writes rows S (orRaise o e : Body σ ε α) := by
  intro s b s' h k _
  rw [returns_orRaise] at h
  rw [h.2]

@[grind .] theorem Writes.orThrow (r : Except ε α) : Writes rows S (orThrow r : Body σ ε α) := by
  intro s b s' h k _
  rw [returns_orThrow] at h
  rw [h.2]

@[grind .] theorem Writes.forEach {f : α → Body σ ε Unit} :
    ∀ (l : List α), (∀ a, Writes rows S (f a)) → Writes rows S (forEach l f)
  | [], _ => Writes.pure ()
  | a :: l, h => Writes.bind (h a) (fun _ => Writes.forEach l h)

end Txn
