import Mathlib.Logic.Relation
import Mathlib.Control.Monad.Basic
import Mathlib.Data.List.Forall2
/-!
# Txn — programs over a store, and the transactions that commit them

A `Body` is what stands between `BEGIN` and `COMMIT`: it reads and writes a store and may raise, and a raise gives the
store up.  A `Method` is what a caller sees: it may raise too, but the state it leaves survives the raise, so the
transactions it committed before stay.  `Returns` reads a body that did not raise one statement at a time; `Evolves`
carries an invariant and a preorder through a body, `Keeps` a preorder through a method.
-/
namespace Txn

variable {σ ω ε α β : Type}

/-! ## Bodies -/

abbrev Body (σ ε α : Type) := StateT σ (Except ε) α

/-- **The body returns `a` and leaves `s'`**, from `s`. -/
def Returns (m : Body σ ε α) (s : σ) (a : α) (s' : σ) : Prop := m s = .ok (a, s')

@[simp] theorem returns_pure (a b : α) (s s' : σ) :
    Returns (pure a : Body σ ε α) s b s' ↔ b = a ∧ s' = s := by
  change (Except.ok (a, s) : Except ε (α × σ)) = .ok (b, s') ↔ _
  rw [Except.ok.injEq, Prod.mk.injEq]
  exact and_congr eq_comm eq_comm

@[simp] theorem returns_throw (e : ε) (s s' : σ) (a : α) :
    Returns (throw e : Body σ ε α) s a s' ↔ False := by
  simp [Returns, throw, throwThe, MonadExceptOf.throw, StateT.lift, bind, Except.bind]

@[simp] theorem returns_get (s a s' : σ) : Returns (get : Body σ ε σ) s a s' ↔ a = s ∧ s' = s := by
  simp only [Returns, get, getThe, MonadStateOf.get, StateT.get, pure, Except.pure, Except.ok.injEq, Prod.mk.injEq]
  exact ⟨fun ⟨h₁, h₂⟩ => ⟨h₁.symm, h₂.symm⟩, fun ⟨h₁, h₂⟩ => ⟨h₁.symm, h₂.symm⟩⟩

/-- **A sequence returns when its first part does and its second, from there.** -/
@[simp] theorem returns_bind (x : Body σ ε α) (f : α → Body σ ε β) (s s'' : σ) (b : β) :
    Returns (x >>= f) s b s'' ↔ ∃ a s', Returns x s a s' ∧ Returns (f a) s' b s'' := by
  simp only [Returns, bind, StateT.bind, Except.bind]
  cases hx : x s with
  | error e => simp
  | ok p =>
    obtain ⟨a, s'⟩ := p
    refine ⟨fun h => ⟨a, s', rfl, h⟩, ?_⟩
    rintro ⟨_, _, h₁, h₂⟩
    simp only [Except.ok.injEq, Prod.mk.injEq] at h₁
    obtain ⟨rfl, rfl⟩ := h₁
    exact h₂

@[simp] theorem returns_map (f : α → β) (x : Body σ ε α) (s s' : σ) (b : β) :
    Returns (f <$> x) s b s' ↔ ∃ a, Returns x s a s' ∧ b = f a := by
  rw [map_eq_pure_bind, returns_bind]
  simp only [returns_pure]
  constructor
  · rintro ⟨a, s₁, hx, rfl, rfl⟩; exact ⟨a, hx, rfl⟩
  · rintro ⟨a, hx, rfl⟩; exact ⟨a, s', hx, rfl, rfl⟩

/-- A check that raises. -/
def raiseIf (c : Prop) [Decidable c] (e : ε) : Body σ ε Unit := if c then throw e else pure ()

@[simp] theorem returns_raiseIf (c : Prop) [Decidable c] (e : ε) (s s' : σ) (u : Unit) :
    Returns (raiseIf c e : Body σ ε Unit) s u s' ↔ ¬ c ∧ s' = s := by
  unfold raiseIf
  split <;> simp_all

/-- The value an optional row holds, or a raise. -/
def orRaise (o : Option α) (e : ε) : Body σ ε α := match o with
  | some a => pure a
  | none => throw e

@[simp] theorem returns_orRaise (o : Option α) (e : ε) (s s' : σ) (a : α) :
    Returns (orRaise o e : Body σ ε α) s a s' ↔ o = some a ∧ s' = s := by
  cases o with
  | none => simp [orRaise]
  | some b =>
    simp only [orRaise, returns_pure, Option.some.injEq]
    exact ⟨fun ⟨h₁, h₂⟩ => ⟨h₁.symm, h₂⟩, fun ⟨h₁, h₂⟩ => ⟨h₁.symm, h₂⟩⟩

/-- A computed value, or what its computation raised. -/
def orThrow (r : Except ε α) : Body σ ε α := match r with
  | .ok a => pure a
  | .error e => throw e

@[simp] theorem returns_orThrow (r : Except ε α) (s s' : σ) (a : α) :
    Returns (orThrow r : Body σ ε α) s a s' ↔ r = .ok a ∧ s' = s := by
  cases r with
  | error e => simp [orThrow]
  | ok b =>
    simp only [orThrow, returns_pure, Except.ok.injEq]
    exact ⟨fun ⟨h₁, h₂⟩ => ⟨h₁.symm, h₂⟩, fun ⟨h₁, h₂⟩ => ⟨h₁.symm, h₂⟩⟩

/-- A `for` loop, row by row. -/
def forEach : List α → (α → Body σ ε Unit) → Body σ ε Unit
  | [], _ => pure ()
  | a :: l, f => do
    f a
    forEach l f

@[simp] theorem forEach_nil (f : α → Body σ ε Unit) : forEach [] f = pure () := rfl

@[simp] theorem forEach_cons (a : α) (l : List α) (f : α → Body σ ε Unit) :
    forEach (a :: l) f = (do f a; forEach l f) := rfl

/-- **Mapping a computation over a list succeeds when it does on every element**, in order. -/
theorem mapM_ok {f : α → Except ε β} : ∀ {l : List α} {bs : List β},
    l.mapM f = .ok bs ↔ List.Forall₂ (fun a b => f a = .ok b) l bs
  | [], bs => by
    rw [List.forall₂_nil_left_iff, List.mapM_nil]
    exact ⟨fun h => (Except.ok.inj h).symm, fun h => h ▸ rfl⟩
  | a :: l, bs => by
    rw [List.mapM_cons, List.forall₂_cons_left_iff]
    constructor
    · intro h
      cases hf : f a with
      | error e => rw [hf] at h; cases h
      | ok b =>
        cases hl : l.mapM f with
        | error e => rw [hf, hl] at h; cases h
        | ok bs' =>
          rw [hf, hl] at h
          exact ⟨b, bs', rfl, mapM_ok.1 hl, (Except.ok.inj h).symm⟩
    · rintro ⟨b, bs', hb, hbs, rfl⟩
      rw [hb, mapM_ok.2 hbs]
      rfl

/-- A pass that raises, raises what one of its elements does. -/
theorem mapM_error {f : α → Except ε β} {e : ε} : ∀ {l : List α}, l.mapM f = .error e → ∃ a ∈ l, f a = .error e
  | [], h => by cases h
  | a :: l, h => by
    rw [List.mapM_cons] at h
    cases ha : f a with
    | error e' =>
      rw [ha] at h
      exact ⟨a, List.mem_cons_self, ha.trans (congrArg _ (Except.error.inj h))⟩
    | ok b =>
      cases hl : l.mapM f with
      | error e' =>
        rw [ha, hl] at h
        obtain ⟨a', ha', he⟩ := mapM_error (hl.trans (congrArg _ (Except.error.inj h)))
        exact ⟨a', List.mem_cons_of_mem _ ha', he⟩
      | ok bs =>
        rw [ha, hl] at h
        cases h

theorem mapM_exists {f : α → Except ε β} : ∀ {l : List α}, (∀ a ∈ l, ∃ b, f a = .ok b) → ∃ bs, l.mapM f = .ok bs
  | [], _ => ⟨[], rfl⟩
  | a :: l, h => by
    obtain ⟨b, hb⟩ := h a List.mem_cons_self
    obtain ⟨bs, hbs⟩ := mapM_exists fun a' ha => h a' (List.mem_cons_of_mem _ ha)
    exact ⟨b :: bs, mapM_ok.2 (.cons hb (mapM_ok.1 hbs))⟩

/-- What a successful map keeps of each element it keeps of the list. -/
theorem mapM_map {γ : Type} {f : α → Except ε β} {g : α → γ} {g' : β → γ} {l : List α} {bs : List β}
    (h : l.mapM f = .ok bs) (hf : ∀ a b, f a = .ok b → g' b = g a) : bs.map g' = l.map g := by
  replace h := mapM_ok.1 h
  induction h with
  | nil => rfl
  | cons hab _ ih => rw [List.map_cons, List.map_cons, ih, hf _ _ hab]

/-- Each side of a successful map has its partner on the other. -/
theorem mapM_mem {f : α → Except ε β} {l : List α} {bs : List β} (h : l.mapM f = .ok bs) :
    (∀ b ∈ bs, ∃ a ∈ l, f a = .ok b) ∧ ∀ a ∈ l, ∃ b ∈ bs, f a = .ok b := by
  replace h := mapM_ok.1 h
  induction h with
  | nil => exact ⟨fun _ hb => absurd hb List.not_mem_nil, fun _ ha => absurd ha List.not_mem_nil⟩
  | @cons a b l bs hab _ ih =>
    constructor
    · intro x hx
      rcases List.mem_cons.1 hx with rfl | hx
      · exact ⟨a, List.mem_cons_self, hab⟩
      · obtain ⟨y, hy, hyx⟩ := ih.1 x hx
        exact ⟨y, List.mem_cons_of_mem _ hy, hyx⟩
    · intro x hx
      rcases List.mem_cons.1 hx with rfl | hx
      · exact ⟨b, List.mem_cons_self, hab⟩
      · obtain ⟨y, hy, hyx⟩ := ih.2 x hx
        exact ⟨y, List.mem_cons_of_mem _ hy, hyx⟩

/-- **A loop of checks that returns has checked everything**, and changed nothing. -/
theorem returns_checks {f : α → Body σ ε Unit} (hf : ∀ a s u s', Returns (f a) s u s' → s' = s) :
    ∀ (l : List α) (s : σ) (u : Unit) (s' : σ), Returns (forEach l f) s u s' →
      s' = s ∧ ∀ a ∈ l, Returns (f a) s () s
  | [], s, u, s', h => by
    rw [forEach_nil, returns_pure] at h
    exact ⟨h.2, fun a ha => absurd ha List.not_mem_nil⟩
  | a :: l, s, u, s', h => by
    rw [forEach_cons, returns_bind] at h
    obtain ⟨_, s₁, h₁, h₂⟩ := h
    have hs := hf a _ _ _ h₁
    subst hs
    obtain ⟨rfl, hl⟩ := returns_checks hf l s₁ u s' h₂
    refine ⟨rfl, fun b hb => ?_⟩
    rcases List.mem_cons.1 hb with rfl | hb
    · exact h₁
    · exact hl b hb

/-- A loop each of whose turns leaves the state it is given. -/
theorem returns_forEach_checks {f : α → Body σ ε Unit} {s : σ} : ∀ {l : List α}, (∀ a ∈ l, Returns (f a) s () s) →
    Returns (forEach l f) s () s
  | [], _ => (returns_pure () () s s).2 ⟨rfl, rfl⟩
  | a :: _, h => (returns_bind _ _ _ _ _).2
      ⟨(), s, h a List.mem_cons_self, returns_forEach_checks fun b hb => h b (List.mem_cons_of_mem _ hb)⟩

/-- A body goes on from where its first part returned. -/
theorem bind_of_returns {x : Body σ ε α} {f : α → Body σ ε β} {s s' : σ} {a : α} (h : Returns x s a s') :
    (x >>= f) s = f a s' := by
  show (x s >>= fun p => f p.1 p.2) = _
  rw [show x s = .ok (a, s') from h]
  rfl

/-! ### An invariant and a preorder through a body -/

/-- **From a state with `I`, the body only moves along `R`** when it does not raise. -/
def Evolves (I : σ → Prop) (R : σ → σ → Prop) (m : Body σ ε α) : Prop :=
  ∀ s a s', I s → Returns m s a s' → R s s'

section
variable {I : σ → Prop} {R : σ → σ → Prop}

theorem Evolves.pure (hr : ∀ s, I s → R s s) (a : α) : Evolves I R (pure a : Body σ ε α) := by
  intro s b s' hs h
  rw [returns_pure] at h
  rw [h.2]
  exact hr s hs

/-- **A sequence evolves when each part does**, each from a state the part before it left with `I`. -/
theorem Evolves.bind (hI : ∀ s s', I s → R s s' → I s') (ht : ∀ a b c, R a b → R b c → R a c)
    {x : Body σ ε α} {f : α → Body σ ε β} (hx : Evolves I R x) (hf : ∀ a, Evolves I R (f a)) :
    Evolves I R (x >>= f) := by
  intro s b s'' hs h
  obtain ⟨a, s', h₁, h₂⟩ := (returns_bind x f s s'' b).1 h
  have hr := hx s a s' hs h₁
  exact ht _ _ _ hr (hf a s' b s'' (hI s s' hs hr) h₂)

/-- **A loop evolves when its body does**, by induction on the rows it visits. -/
theorem Evolves.forEach (hr : ∀ s, I s → R s s) (hI : ∀ s s', I s → R s s' → I s')
    (ht : ∀ a b c, R a b → R b c → R a c) {f : α → Body σ ε Unit} :
    ∀ (l : List α), (∀ a ∈ l, Evolves I R (f a)) → Evolves I R (forEach l f)
  | [], _ => Evolves.pure hr ()
  | a :: l, h => Evolves.bind hI ht (h a List.mem_cons_self)
      (fun _ => Evolves.forEach hr hI ht l (fun b hb => h b (List.mem_cons_of_mem _ hb)))

end

/-- **A loop whose turns touch separate keys** does to each key what its own turn does: what a turn expects of its key
holds until the turn comes. -/
theorem forEach_keyed {κ ν : Type} (view : σ → κ → ν) (key : α → κ) (pre : α → ν → Prop) (post : α → ν → ν → Prop)
    {f : α → Body σ ε Unit}
    (hf : ∀ a s u s', pre a (view s (key a)) → Returns (f a) s u s' →
      (∀ j, j ≠ key a → view s' j = view s j) ∧ post a (view s (key a)) (view s' (key a))) :
    ∀ (l : List α) (s : σ) (u : Unit) (s' : σ), (l.map key).Nodup → (∀ a ∈ l, pre a (view s (key a))) →
      Returns (forEach l f) s u s' →
      (∀ j, j ∉ l.map key → view s' j = view s j) ∧ ∀ a ∈ l, post a (view s (key a)) (view s' (key a))
  | [], s, u, s', _, _, h => by
    rw [forEach_nil, returns_pure] at h
    rw [h.2]
    exact ⟨fun _ _ => rfl, fun a ha => absurd ha List.not_mem_nil⟩
  | a :: l, s, u, s', hn, hp, h => by
    rw [forEach_cons, returns_bind] at h
    obtain ⟨_, s₁, h₁, h₂⟩ := h
    rw [List.map_cons, List.nodup_cons] at hn
    obtain ⟨hsame, hpost⟩ := hf a s _ s₁ (hp a List.mem_cons_self) h₁
    have hne : ∀ b ∈ l, key b ≠ key a := fun b hb he => hn.1 (he ▸ List.mem_map_of_mem hb)
    obtain ⟨hsame', hpost'⟩ := forEach_keyed view key pre post hf l s₁ u s' hn.2
      (fun b hb => by rw [hsame _ (hne b hb)]; exact hp b (List.mem_cons_of_mem _ hb)) h₂
    refine ⟨fun j hj => ?_, fun b hb => ?_⟩
    · rw [List.map_cons, List.mem_cons, not_or] at hj
      rw [hsame' j hj.2, hsame j hj.1]
    · rcases List.mem_cons.1 hb with rfl | hb
      · rw [hsame' _ hn.1]
        exact hpost
      · rw [← hsame _ (hne b hb)]
        exact hpost' b hb

/-- **What each turn of a loop closes**, the loop closes for all its turns: no row with `P` is new, and none that has it
in the end has the key of a turn. -/
theorem forEach_closes {κ ρ : Type} (rows : σ → List ρ) (P : ρ → Prop) (key : ρ → κ) (k : α → κ) {f : α → Body σ ε Unit}
    (hf : ∀ a s u s', Returns (f a) s u s' → ∀ r ∈ rows s', P r → r ∈ rows s ∧ key r ≠ k a) :
    ∀ (l : List α) (s : σ) (u : Unit) (s' : σ), Returns (forEach l f) s u s' →
      ∀ r ∈ rows s', P r → r ∈ rows s ∧ ∀ a ∈ l, key r ≠ k a
  | [], s, u, s', h, r, hr, _ => by
    rw [forEach_nil, returns_pure] at h
    exact ⟨h.2 ▸ hr, fun a ha => absurd ha List.not_mem_nil⟩
  | a :: l, s, u, s', h, r, hr, hp => by
    rw [forEach_cons, returns_bind] at h
    obtain ⟨_, s₁, h₁, h₂⟩ := h
    obtain ⟨hr₁, hl⟩ := forEach_closes rows P key k hf l s₁ u s' h₂ r hr hp
    obtain ⟨hr₀, ha⟩ := hf a s _ s₁ h₁ r hr₁ hp
    refine ⟨hr₀, fun b hb => ?_⟩
    rcases List.mem_cons.1 hb with rfl | hb
    · exact ha
    · exact hl b hb

/-! ## Methods -/

abbrev Method (ω ε α : Type) := ExceptT ε (StateM ω) α

theorem method_bind (x : Method ω ε α) (f : α → Method ω ε β) (w : ω) :
    (x >>= f) w = match x w with
      | (.ok a, w') => f a w'
      | (.error e, w') => (.error e, w') := by
  show ExceptT.run (x >>= f) w = _
  rw [ExceptT.run_bind]
  show (do let r ← x.run; match r with | .ok a => (f a).run | .error e => pure (.error e) : StateM ω _) w = _
  simp only [bind, StateT.bind]
  show (match x w with | (r, w') => _) = _
  cases hx : x w with
  | mk r w' => cases r <;> rfl

/-- **The weakest precondition** for a method to return with `Q` or raise with `E`. -/
def Wp (m : Method ω ε α) (Q : α → ω → Prop) (E : ε → ω → Prop) (w : ω) : Prop :=
  match m w with
  | (.ok a, w') => Q a w'
  | (.error e, w') => E e w'

section
variable {Q Q' : α → ω → Prop} {E E' : ε → ω → Prop} {w w' : ω} {m : Method ω ε α}

@[simp] theorem wp_pure (a : α) : Wp (pure a : Method ω ε α) Q E w ↔ Q a w := Iff.rfl

@[simp] theorem wp_throw (e : ε) : Wp (throw e : Method ω ε α) Q E w ↔ E e w := Iff.rfl

@[simp] theorem wp_bind {x : Method ω ε β} {f : β → Method ω ε α} :
    Wp (x >>= f) Q E w ↔ Wp x (fun b w' => Wp (f b) Q E w') E w := by
  unfold Wp
  rw [method_bind]
  cases hx : x w with
  | mk r w' => cases r <;> rfl

theorem Wp.imp (h : Wp m Q E w) (hq : ∀ a w', Q a w' → Q' a w') (he : ∀ e w', E e w' → E' e w') : Wp m Q' E' w := by
  unfold Wp at *
  split at h
  · exact hq _ _ h
  · exact he _ _ h

/-- What is known of the state in the end is known however the method ends. -/
theorem Wp.and_end {R : ω → Prop} (h : Wp m Q E w) (hr : R (m w).2) :
    Wp m (fun a w' => Q a w' ∧ R w') (fun e w' => E e w' ∧ R w') w := by
  unfold Wp at *
  split at h <;> rename_i hw <;> rw [hw] at hr
  · exact ⟨h, hr⟩
  · exact ⟨h, hr⟩

/-- **What holds after every return holds after this one.** -/
theorem Wp.returned {a : α} (h : Wp m Q E w) (hm : (m w).1 = .ok a) : Q a (m w).2 := by
  unfold Wp at h
  split at h <;> rename_i hw <;> rw [hw] at hm ⊢
  · cases hm
    exact h
  · cases hm

/-- **What holds however the method ends.** -/
theorem Wp.ended {R : ω → Prop} (h : Wp m (fun _ => R) (fun _ => R) w) : R (m w).2 := by
  unfold Wp at h
  split at h <;> rename_i hw <;> rw [hw] <;> exact h

end

/-- A `for` loop over methods. -/
def each : List α → (α → Method ω ε Unit) → Method ω ε Unit
  | [], _ => pure ()
  | a :: l, f => do
    f a
    each l f

/-- **Whatever the method does, returning or raising, it only moves along `R`.** -/
def Keeps (R : ω → ω → Prop) (m : Method ω ε α) : Prop := ∀ w, R w (m w).2

section
variable {R : ω → ω → Prop}

theorem Keeps.pure (hr : ∀ w, R w w) (a : α) : Keeps R (pure a : Method ω ε α) := fun w => hr w

theorem Keeps.throw (hr : ∀ w, R w w) (e : ε) : Keeps R (throw e : Method ω ε α) := fun w => hr w

/-- **A sequence moves along `R` from a state** when its first part does from there and the rest from anywhere. -/
theorem Keeps.bind_at (ht : ∀ a b c, R a b → R b c → R a c) {x : Method ω ε α} {f : α → Method ω ε β} {w : ω}
    (hx : R w (x w).2) (hf : ∀ a, Keeps R (f a)) : R w ((x >>= f) w).2 := by
  rw [method_bind]
  cases hxw : x w with
  | mk r w' =>
    rw [hxw] at hx
    cases r with
    | error e => exact hx
    | ok a => exact ht _ _ _ hx (hf a w')

theorem Keeps.bind (ht : ∀ a b c, R a b → R b c → R a c) {x : Method ω ε α} {f : α → Method ω ε β}
    (hx : Keeps R x) (hf : ∀ a, Keeps R (f a)) : Keeps R (x >>= f) := fun w => Keeps.bind_at ht (hx w) hf

theorem Keeps.each (hr : ∀ w, R w w) (ht : ∀ a b c, R a b → R b c → R a c) {f : α → Method ω ε Unit} :
    ∀ (l : List α), (∀ a ∈ l, Keeps R (f a)) → Keeps R (each l f)
  | [], _ => Keeps.pure hr ()
  | a :: l, h => Keeps.bind ht (h a List.mem_cons_self)
      (fun _ => Keeps.each hr ht l (fun b hb => h b (List.mem_cons_of_mem _ hb)))

end

end Txn
