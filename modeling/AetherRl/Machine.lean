import Mathlib.Data.List.Basic
/-!
# Machine — runs of a machine whose events may be refused

`step s e` is the state after the event, or nothing where `e` cannot happen in `s`.  A run takes one event after the
other; what every step keeps, every run keeps, under a condition on its steps if need be.
-/
namespace Machine

variable {σ ε : Type*} {step : σ → ε → Option σ} {s t : σ}

/-- Where the events lead from `s`, if each can happen in its turn. -/
def run (step : σ → ε → Option σ) : σ → List ε → Option σ
  | s, [] => some s
  | s, e :: es => (step s e).bind (fun t => run step t es)

theorem run_append (s : σ) (es fs : List ε) :
    run step s (es ++ fs) = (run step s es).bind (fun t => run step t fs) := by
  induction es generalizing s with
  | nil => rfl
  | cons e es ih =>
    rw [List.cons_append, run, run, Option.bind_assoc]
    congr 1
    funext t
    exact ih t

/-- Every step of the run is taken where `P` holds of the state and the event. -/
def Meets (step : σ → ε → Option σ) (P : σ → ε → Prop) : σ → List ε → Prop
  | _, [] => True
  | s, e :: es => P s e ∧ ∀ t, step s e = some t → Meets step P t es

instance decidableMeets {P : σ → ε → Prop} [∀ s e, Decidable (P s e)] :
    ∀ (s : σ) (es : List ε), Decidable (Meets step P s es)
  | _, [] => isTrue trivial
  | s, e :: es =>
    letI (t : σ) : Decidable (Meets step P t es) := decidableMeets t es
    inferInstanceAs (Decidable (P s e ∧ ∀ t ∈ step s e, Meets step P t es))

/-- **What every step that meets `P` keeps, every run that meets it keeps.** -/
theorem run_keeps {P : σ → ε → Prop} {I : σ → Prop} (hI : ∀ s e t, I s → P s e → step s e = some t → I t) :
    ∀ (es : List ε) (s : σ), I s → Meets step P s es → ∀ t, run step s es = some t → I t
  | [], s, hs, _, t, h => by
    rw [run, Option.some.injEq] at h
    exact h ▸ hs
  | e :: es, s, hs, hm, t, h => by
    rw [run, Option.bind_eq_some_iff] at h
    obtain ⟨u, hu, h⟩ := h
    exact run_keeps hI es u (hI s e u hs hm.1 hu) (hm.2 u hu) t h

theorem meets_true (es : List ε) (s : σ) : Meets step (fun _ _ => True) s es := by
  induction es generalizing s with
  | nil => trivial
  | cons e es ih => exact ⟨trivial, fun t _ => ih t⟩

/-- **What every step keeps, every run keeps.** -/
theorem run_invariant {I : σ → Prop} (hI : ∀ s e t, I s → step s e = some t → I t) {es : List ε} (hs : I s)
    (h : run step s es = some t) : I t :=
  run_keeps (P := fun _ _ => True) (fun s e t hs _ => hI s e t hs) es s hs (meets_true es s) t h

/-- **What relates the ends of every step relates the ends of every run**, where an invariant holds. -/
theorem run_relates {I : σ → Prop} {R : σ → σ → Prop} (hI : ∀ s e t, I s → step s e = some t → I t)
    (hr : ∀ s, R s s) (ht : ∀ a b c, R a b → R b c → R a c) (hR : ∀ s e t, I s → step s e = some t → R s t) :
    ∀ (es : List ε) (s : σ), I s → ∀ t, run step s es = some t → R s t
  | [], s, _, t, h => by
    rw [run, Option.some.injEq] at h
    exact h ▸ hr s
  | e :: es, s, hs, t, h => by
    rw [run, Option.bind_eq_some_iff] at h
    obtain ⟨u, hu, h⟩ := h
    exact ht s u t (hR s e u hs hu) (run_relates hI hr ht hR es u (hI s e u hs hu) t h)

/-- **A run meets `P` exactly where `I` holds all along it**, where a step leads to `I` exactly when it meets `P`. -/
theorem meets_iff {P : σ → ε → Prop} {G I : σ → Prop} (hG : ∀ s e t, G s → step s e = some t → G t)
    (hI : ∀ s e t, G s → I s → step s e = some t → (P s e ↔ I t)) :
    ∀ (es : List ε) (s : σ), G s → I s → ∀ t, run step s es = some t →
      (Meets step P s es ↔ ∀ fs, fs <+: es → ∀ u, run step s fs = some u → I u)
  | [], s, _, hs, t, _ => by
    refine ⟨fun _ fs hf u hu => ?_, fun _ => trivial⟩
    rw [List.prefix_nil.1 hf, run, Option.some.injEq] at hu
    exact hu ▸ hs
  | e :: es, s, hg, hs, t, h => by
    rw [run, Option.bind_eq_some_iff] at h
    obtain ⟨v, hv, h⟩ := h
    have ih : I v → _ := fun hiv => meets_iff hG hI es v (hG s e v hg hv) hiv t h
    have first : ∀ fs u, run step s (e :: fs) = some u ↔ run step v fs = some u := fun fs u => by
      rw [run, hv, Option.bind_some]
    constructor
    · rintro ⟨hp, hm⟩ fs hf u hu
      have hiv := (hI s e v hg hs hv).1 hp
      cases fs with
      | nil =>
        rw [run, Option.some.injEq] at hu
        exact hu ▸ hs
      | cons f fs =>
        obtain ⟨rfl, hfs⟩ := List.cons_prefix_cons.1 hf
        exact (ih hiv).1 (hm v hv) fs hfs u ((first fs u).1 hu)
    · intro hall
      have hiv := hall [e] (List.cons_prefix_cons.2 ⟨rfl, List.nil_prefix⟩) v (by rw [first, run])
      refine ⟨(hI s e v hg hs hv).2 hiv, fun w hw => ?_⟩
      rw [hv, Option.some.injEq] at hw
      subst hw
      exact (ih hiv).2 fun fs hf u hu =>
        hall (e :: fs) (List.cons_prefix_cons.2 ⟨rfl, hf⟩) u ((first fs u).2 hu)

/-- **Two conditions on the steps are met by the same runs**, where they agree on every step that can be taken in a
state the first one leads to. -/
theorem meets_congr {P Q : σ → ε → Prop} {I : σ → Prop} (hI : ∀ s e t, I s → P s e → step s e = some t → I t)
    (hPQ : ∀ s e t, I s → step s e = some t → (P s e ↔ Q s e)) :
    ∀ (es : List ε) (s : σ), I s → ∀ t, run step s es = some t → (Meets step P s es ↔ Meets step Q s es)
  | [], s, _, t, _ => Iff.rfl
  | e :: es, s, hs, t, h => by
    rw [run, Option.bind_eq_some_iff] at h
    obtain ⟨u, hu, h⟩ := h
    rw [Meets, Meets, ← hPQ s e u hs hu]
    refine and_congr_right fun hp => forall_congr' fun v => imp_congr_right fun hv => ?_
    obtain rfl := Option.some.inj (hu.symm.trans hv)
    exact meets_congr hI hPQ es u (hI s e u hs hp hu) t h

/-- A run that meets `P` meets it at each of its steps. -/
theorem meets_at {P : σ → ε → Prop} {e : ε} {gs : List ε} :
    ∀ (fs : List ε) (s : σ), Meets step P s (fs ++ e :: gs) → run step s fs = some t → P t e
  | [], s, hm, h => by
    rw [run, Option.some.injEq] at h
    exact h ▸ hm.1
  | f :: fs, s, hm, h => by
    rw [run, Option.bind_eq_some_iff] at h
    obtain ⟨u, hu, h⟩ := h
    exact meets_at fs u (hm.2 u hu) h

/-- **A run that does not meet `P`** has a first step that does not. -/
theorem first_unmet {P : σ → ε → Prop} : ∀ (es : List ε) (s t : σ), run step s es = some t → ¬ Meets step P s es →
    ∃ fs e gs u, es = fs ++ e :: gs ∧ Meets step P s fs ∧ run step s fs = some u ∧ ¬ P u e
  | [], s, t, _, hm => absurd trivial hm
  | e :: es, s, t, h, hm => by
    by_cases hp : P s e
    · rw [run, Option.bind_eq_some_iff] at h
      obtain ⟨u, hu, h⟩ := h
      have hrest : ¬ Meets step P u es := fun hrest => hm ⟨hp, fun v hv => by
        cases hu.symm.trans hv
        exact hrest⟩
      obtain ⟨fs, f, gs, v, rfl, hfs, hv, hnot⟩ := first_unmet es u t h hrest
      refine ⟨e :: fs, f, gs, v, rfl, ⟨hp, fun w hw => ?_⟩, ?_, hnot⟩
      · cases hu.symm.trans hw
        exact hfs
      · rw [run, hu, Option.bind_some]
        exact hv
    · exact ⟨[], e, es, s, rfl, trivial, rfl, hp⟩

/-- What a run meets, its first part meets. -/
theorem meets_of_append {P : σ → ε → Prop} {gs : List ε} : ∀ {fs : List ε} {s : σ}, Meets step P s (fs ++ gs) →
    Meets step P s fs
  | [], _, _ => trivial
  | _ :: _, _, hm => ⟨hm.1, fun t ht => meets_of_append (hm.2 t ht)⟩

/-! ## Runs that pass over what cannot happen -/

/-- Where the events lead from `s`; one that cannot happen in its turn is passed over. -/
def drive (step : σ → ε → Option σ) (s : σ) (es : List ε) : σ := es.foldl (fun s e => (step s e).getD s) s

theorem drive_append (s : σ) (es fs : List ε) : drive step s (es ++ fs) = drive step (drive step s es) fs :=
  List.foldl_append

/-- A run that passes over nothing. -/
theorem drive_of_run : ∀ {es : List ε} {s : σ}, run step s es = some t → drive step s es = t
  | [], _, h => by
    rw [run, Option.some.injEq] at h
    exact h
  | e :: es, s, h => by
    rw [run, Option.bind_eq_some_iff] at h
    obtain ⟨u, hu, h⟩ := h
    rw [drive, List.foldl_cons, hu]
    exact drive_of_run h

/-- **What every step keeps, every such run keeps.** -/
theorem drive_invariant {I : σ → Prop} (hI : ∀ s e t, I s → step s e = some t → I t) :
    ∀ (es : List ε) {s : σ}, I s → I (drive step s es)
  | [], _, hs => hs
  | e :: es, s, hs => by
    refine drive_invariant hI es (s := (step s e).getD s) ?_
    cases h : step s e with
    | none => exact hs
    | some t => exact hI s e t hs h

/-- **What relates the ends of every step relates the ends of every such run**, where an invariant holds. -/
theorem drive_relates {I : σ → Prop} {R : σ → σ → Prop} (hI : ∀ s e t, I s → step s e = some t → I t)
    (hr : ∀ s, R s s) (ht : ∀ a b c, R a b → R b c → R a c) (hR : ∀ s e t, I s → step s e = some t → R s t) :
    ∀ (es : List ε) {s : σ}, I s → R s (drive step s es)
  | [], s, _ => hr s
  | e :: es, s, hs => by
    cases h : step s e with
    | none =>
      have he : drive step s (e :: es) = drive step s es := by rw [drive, List.foldl_cons, h]; rfl
      rw [he]
      exact drive_relates hI hr ht hR es hs
    | some t =>
      have he : drive step s (e :: es) = drive step t es := by rw [drive, List.foldl_cons, h]; rfl
      rw [he]
      exact ht s t _ (hR s e t hs h) (drive_relates hI hr ht hR es (hI s e t hs h))

/-- **What every step keeps whose name was not drawn before, every run keeps that draws no name twice.** -/
theorem drive_fresh {ν : Type*} {I : σ → Prop} {name? : ε → Option ν} {D : σ → ν → Prop}
    (hI : ∀ s e t, I s → (∀ x ∈ name? e, ¬ D s x) → step s e = some t → I t)
    (hd : ∀ s e t, step s e = some t → ∀ x, D t x → D s x ∨ name? e = some x) :
    ∀ (es : List ε) {s : σ}, I s → (es.filterMap name?).Nodup → (∀ x ∈ es.filterMap name?, ¬ D s x) →
      I (drive step s es)
  | [], _, hs, _, _ => hs
  | e :: es, s, hs, hfresh, hnew => by
    have hnames : (e :: es).filterMap name? = (name? e).toList ++ es.filterMap name? := by
      rw [List.filterMap_cons]
      cases name? e <;> rfl
    rw [hnames] at hfresh hnew
    obtain ⟨-, hrest, hapart⟩ := List.nodup_append.1 hfresh
    refine drive_fresh hI hd es (s := (step s e).getD s) ?_ hrest fun x hx hdrawn => ?_
    · cases h : step s e with
      | none => exact hs
      | some t => exact hI s e t hs (fun x hx => hnew x (List.mem_append_left _ (Option.mem_toList.2 hx))) h
    · have hold : ¬ D s x := hnew x (List.mem_append_right _ hx)
      cases h : step s e with
      | none =>
        rw [h] at hdrawn
        exact hold hdrawn
      | some t =>
        rw [h] at hdrawn
        obtain hdrawn | he := hd s e t h x hdrawn
        · exact hold hdrawn
        · exact hapart x (Option.mem_toList.2 he) x hx rfl

end Machine
