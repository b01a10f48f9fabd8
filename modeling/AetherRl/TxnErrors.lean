import AetherRl.Txn
/-!
# TxnErrors — the errors a program does not raise

`Spares e m s`: from `s` the body may return or raise, but it does not raise `e`.  A sequence spares an error when its
first part does and the rest does from wherever that returned.
-/
namespace Txn

variable {σ ε α β : Type} {e : ε} {s : σ}

/-- **The body does not raise `e`** from `s`. -/
def Spares (e : ε) (m : Body σ ε α) (s : σ) : Prop := m s ≠ .error e

@[simp] theorem spares_pure (a : α) : Spares e (pure a : Body σ ε α) s := by
  change (Except.ok (a, s) : Except ε (α × σ)) ≠ .error e
  simp

@[simp] theorem spares_throw (e' : ε) : Spares e (throw e' : Body σ ε α) s ↔ e' ≠ e := by
  simp [Spares, throw, throwThe, MonadExceptOf.throw, StateT.lift, bind, Except.bind]

@[simp] theorem spares_bind (x : Body σ ε α) (f : α → Body σ ε β) :
    Spares e (x >>= f) s ↔ Spares e x s ∧ ∀ a s', Returns x s a s' → Spares e (f a) s' := by
  unfold Spares Returns
  show (x s >>= fun p => f p.1 p.2) ≠ _ ↔ _
  cases hx : x s with
  | error e' => simp [bind, Except.bind]
  | ok p =>
    obtain ⟨a, s'⟩ := p
    simp only [bind, Except.bind, Except.ok.injEq, Prod.mk.injEq, ne_eq, reduceCtorEq, not_false_eq_true, true_and]
    constructor
    · rintro h _ _ ⟨rfl, rfl⟩
      exact h
    · intro h
      exact h a s' ⟨rfl, rfl⟩

@[simp] theorem spares_map (f : α → β) (x : Body σ ε α) : Spares e (f <$> x) s ↔ Spares e x s := by
  rw [map_eq_pure_bind, spares_bind]
  simp

@[simp] theorem spares_raiseIf (c : Prop) [Decidable c] (e' : ε) :
    Spares e (raiseIf c e' : Body σ ε Unit) s ↔ (c → e' ≠ e) := by
  unfold raiseIf
  by_cases hc : c <;> simp [hc]

@[simp] theorem spares_orRaise (o : Option α) (e' : ε) :
    Spares e (orRaise o e' : Body σ ε α) s ↔ (o = none → e' ≠ e) := by
  cases o <;> simp [orRaise]

@[simp] theorem spares_orThrow (r : Except ε α) : Spares e (orThrow r : Body σ ε α) s ↔ r ≠ .error e := by
  cases r <;> simp [orThrow]

/-- **A loop spares an error when each of its turns does**, wherever it starts. -/
theorem spares_forEach {f : α → Body σ ε Unit} : ∀ (l : List α) (s : σ), (∀ a ∈ l, ∀ s, Spares e (f a) s) →
    Spares e (forEach l f) s
  | [], s, _ => by simp
  | a :: l, s, h => by
    rw [forEach_cons, spares_bind]
    exact ⟨h a List.mem_cons_self s, fun _ s' _ => spares_forEach l s' fun b hb => h b (List.mem_cons_of_mem _ hb)⟩

/-- **A method whose raises all differ from `e` does not raise it.** -/
theorem Wp.spared {ω : Type} {m : Method ω ε α} {w : ω} {Q : α → ω → Prop} (h : Wp m Q (fun e' _ => e' ≠ e) w) :
    (m w).1 ≠ .error e := by
  unfold Wp at h
  split at h <;> rename_i hw <;> rw [hw]
  · simp
  · simpa using h

end Txn
