import AetherRl.Checked
import Mathlib.Data.Set.Lattice
import Mathlib.Order.CompletePartialOrder
import Mathlib.Data.List.Nodup
/-!
# Dict — insertion-ordered dictionaries, and programs local to some keys

A dictionary keeps its entries in order of insertion, one for each key.  A program on dictionaries is `Local` to a set of
keys when it changes and consults nothing else; local programs compose, and the round trips of programs local to disjoint
sets do not meet (`roundTrip_comp`).
-/

structure Dict (κ ν : Type) where
  entries : List (κ × ν)
  nodup : (entries.map Prod.fst).Nodup

namespace Dict

variable {κ ν : Type}

def empty : Dict κ ν := ⟨[], List.nodup_nil⟩

/-- The keys in order of insertion. -/
def keys (d : Dict κ ν) : List κ := d.entries.map Prod.fst

variable [DecidableEq κ]

/-- `d.get(k)`. -/
def get? (d : Dict κ ν) (k : κ) : Option ν := d.entries.lookup k

/-- An entry written over the one of its key, or behind the last. -/
def assign (k : κ) (v : ν) : List (κ × ν) → List (κ × ν)
  | [] => [(k, v)]
  | e :: es => if e.1 = k then (k, v) :: es else e :: assign k v es

theorem mem_assign_keys {k x : κ} {v : ν} : ∀ {es : List (κ × ν)}, x ∈ (assign k v es).map Prod.fst →
    x = k ∨ x ∈ es.map Prod.fst
  | [], h => Or.inl (by simpa [assign] using h)
  | e :: es, h => by
    rw [assign] at h
    split at h
    · rcases List.mem_cons.1 h with h | h
      · exact Or.inl h
      · exact Or.inr (List.mem_cons_of_mem _ h)
    · rcases List.mem_cons.1 h with h | h
      · exact Or.inr (h ▸ List.mem_cons_self)
      · exact (mem_assign_keys h).imp id (List.mem_cons_of_mem _)

theorem nodup_assign {k : κ} {v : ν} : ∀ {es : List (κ × ν)}, (es.map Prod.fst).Nodup →
    ((assign k v es).map Prod.fst).Nodup
  | [], _ => by simp [assign]
  | e :: es, h => by
    obtain ⟨hne, hes⟩ := List.nodup_cons.1 h
    rw [assign]
    split
    case isTrue hk => exact List.nodup_cons.2 ⟨hk ▸ hne, hes⟩
    case isFalse hk =>
      refine List.nodup_cons.2 ⟨fun hin => ?_, nodup_assign hes⟩
      rcases mem_assign_keys hin with h | h
      · exact hk h
      · exact hne h

theorem lookup_cons_ite (x : κ) (e : κ × ν) (es : List (κ × ν)) :
    (e :: es).lookup x = if x = e.1 then some e.2 else es.lookup x := by
  obtain ⟨k, v⟩ := e
  rw [List.lookup_cons]
  by_cases h : x = k
  · rw [if_pos h, beq_iff_eq.2 h]
  · rw [if_neg h, beq_eq_false_iff_ne.2 h]

theorem lookup_assign {k x : κ} {v : ν} : ∀ es : List (κ × ν),
    (assign k v es).lookup x = if x = k then some v else es.lookup x
  | [] => by
    rw [assign, lookup_cons_ite]
  | e :: es => by
    rw [assign]
    by_cases he : e.1 = k
    · rw [if_pos he, lookup_cons_ite, lookup_cons_ite, he]
      by_cases hx : x = k
      · rw [if_pos hx, if_pos hx]
      · rw [if_neg hx, if_neg hx, if_neg hx]
    · rw [if_neg he, lookup_cons_ite, lookup_cons_ite, lookup_assign es]
      by_cases hx : x = k
      · rw [if_pos hx, if_pos hx, if_neg fun h => he (h.symm.trans hx)]
      · rw [if_neg hx, if_neg hx]

/-- `d[k] = v`. -/
def set (d : Dict κ ν) (k : κ) (v : ν) : Dict κ ν := ⟨assign k v d.entries, nodup_assign d.nodup⟩

/-- `del d[k]` where the key is there. -/
def erase (d : Dict κ ν) (k : κ) : Dict κ ν :=
  ⟨d.entries.filter (fun e => e.1 ≠ k), d.nodup.sublist (List.filter_sublist.map Prod.fst)⟩

@[simp] theorem get?_empty (k : κ) : (empty : Dict κ ν).get? k = none := rfl

theorem get?_set (d : Dict κ ν) (k x : κ) (v : ν) : (d.set k v).get? x = if x = k then some v else d.get? x :=
  lookup_assign d.entries

theorem lookup_filter (k x : κ) : ∀ es : List (κ × ν),
    (es.filter (fun e => e.1 ≠ k)).lookup x = if x = k then none else es.lookup x
  | [] => (ite_self none).symm
  | e :: es => by
    have ih := lookup_filter k x es
    by_cases he : e.1 = k
    · rw [List.filter_cons_of_neg (by simpa using he), ih, lookup_cons_ite, he]
      by_cases hx : x = k
      · rw [if_pos hx, if_pos hx]
      · rw [if_neg hx, if_neg hx, if_neg hx]
    · rw [List.filter_cons_of_pos (by simpa using he), lookup_cons_ite, lookup_cons_ite, ih]
      by_cases hx : x = k
      · rw [if_pos hx, if_pos hx, if_neg fun h => he (h.symm.trans hx)]
      · rw [if_neg hx, if_neg hx]

theorem get?_erase (d : Dict κ ν) (k x : κ) : (d.erase k).get? x = if x = k then none else d.get? x :=
  lookup_filter k x d.entries

theorem get?_foldl_erase (x : κ) : ∀ (ks : List κ) (d : Dict κ ν),
    (ks.foldl erase d).get? x = if x ∈ ks then none else d.get? x
  | [], d => (if_neg List.not_mem_nil).symm
  | k :: ks, d => by
    rw [List.foldl_cons, get?_foldl_erase x ks, get?_erase]
    by_cases hx : x = k <;> simp [hx]

theorem mem_keys {d : Dict κ ν} {k : κ} : k ∈ d.keys ↔ d.get? k ≠ none := by
  rw [get?, Ne, List.lookup_eq_none_iff, keys, List.mem_map]
  push Not
  constructor
  · rintro ⟨e, he, rfl⟩
    exact ⟨e, he, by simp⟩
  · rintro ⟨e, he, hk⟩
    exact ⟨e, he, by simpa using (beq_iff_eq.1 (by simpa using hk)).symm⟩

/-- **Popping a key takes one entry.** -/
theorem length_erase {d : Dict κ ν} {k : κ} (h : d.get? k ≠ none) : (d.erase k).entries.length < d.entries.length := by
  obtain ⟨e, he, hk⟩ := List.mem_map.1 (mem_keys.2 h)
  exact List.length_filter_lt_length_iff_exists.2 ⟨e, he, by simp [hk]⟩

theorem mem_entries {d : Dict κ ν} {k : κ} {v : ν} (h : d.get? k = some v) : (k, v) ∈ d.entries := by
  obtain ⟨l₁, l₂, hl, -⟩ := List.lookup_eq_some_iff.1 h
  rw [hl]
  simp

theorem get?_of_mem {d : Dict κ ν} {k : κ} {v : ν} (h : (k, v) ∈ d.entries) : d.get? k = some v := by
  obtain ⟨l₁, l₂, hl⟩ := List.append_of_mem h
  refine List.lookup_eq_some_iff.2 ⟨l₁, l₂, hl, fun p hp => ?_⟩
  have hnodup := d.nodup
  rw [hl, List.map_append, List.nodup_append] at hnodup
  have hne := hnodup.2.2 p.1 (List.mem_map_of_mem hp) k List.mem_cons_self
  simpa using hne.symm

theorem get?_eq_none_of_length {d : Dict κ ν} (h : d.entries.length = 0) (k : κ) : d.get? k = none := by
  rw [get?, List.length_eq_zero_iff.1 h]
  rfl

/-! ## Agreement -/

/-- What `==` of two dictionaries compares: the order of the entries is none of it. -/
def Same (d d' : Dict κ ν) : Prop := ∀ k, d.get? k = d'.get? k

/-- The two hold the same under every key of `K`. -/
def AgreeOn (K : Set κ) (d d' : Dict κ ν) : Prop := ∀ k ∈ K, d.get? k = d'.get? k

variable {K K' : Set κ} {d d' d₁ d₂ : Dict κ ν}

theorem Same.refl (d : Dict κ ν) : Same d d := fun _ => rfl

theorem Same.symm (h : Same d d') : Same d' d := fun k => (h k).symm

theorem Same.trans (h : Same d d₁) (h' : Same d₁ d₂) : Same d d₂ := fun k => (h k).trans (h' k)

theorem Same.agreeOn (h : Same d d') : AgreeOn K d d' := fun k _ => h k

theorem AgreeOn.symm (h : AgreeOn K d d') : AgreeOn K d' d := fun k hk => (h k hk).symm

theorem AgreeOn.trans (h : AgreeOn K d d₁) (h' : AgreeOn K d₁ d₂) : AgreeOn K d d₂ :=
  fun k hk => (h k hk).trans (h' k hk)

theorem AgreeOn.mono (hK : K ⊆ K') (h : AgreeOn K' d d') : AgreeOn K d d' := fun k hk => h k (hK hk)

theorem AgreeOn.same (h : AgreeOn K d d') (hc : AgreeOn Kᶜ d d') : Same d d' := by
  intro k
  by_cases hk : k ∈ K
  · exact h k hk
  · exact hc k hk

/-! ## Local programs -/

section Programs

variable {ε : Type} {f g F G : Dict κ ν → Except ε (Dict κ ν)}

/-- The program leaves every key outside `K` as it was, and what it does inside depends on nothing outside. -/
structure Local (K : Set κ) (f : Dict κ ν → Except ε (Dict κ ν)) : Prop where
  frame : ∀ {d d'}, f d = .ok d' → AgreeOn Kᶜ d' d
  within : ∀ {d₁ d₂ d₁'}, AgreeOn K d₁ d₂ → f d₁ = .ok d₁' → ∃ d₂', f d₂ = .ok d₂' ∧ AgreeOn K d₁' d₂'

theorem Local.pure : Local K (fun d => (.ok d : Except ε (Dict κ ν))) where
  frame h := by
    cases h
    exact fun _ _ => rfl
  within ha h := by
    cases h
    exact ⟨_, rfl, ha⟩

theorem Local.mono (h : Local K f) (hK : K ⊆ K') : Local K' f where
  frame hd := (h.frame hd).mono (Set.compl_subset_compl.2 hK)
  within {d₁ d₂ d₁'} ha hd := by
    obtain ⟨d₂', hd₂, ha'⟩ := h.within (ha.mono hK) hd
    refine ⟨d₂', hd₂, fun k hk => ?_⟩
    by_cases hin : k ∈ K
    · exact ha' k hin
    · rw [h.frame hd k hin, h.frame hd₂ k hin, ha k hk]

theorem Local.bind (hf : Local K f) (hF : Local K F) : Local K (fun d => f d >>= F) where
  frame h := by
    obtain ⟨d', h₁, h₂⟩ := Checked.bind_eq_ok.1 h
    exact (hF.frame h₂).trans (hf.frame h₁)
  within ha h := by
    obtain ⟨d', h₁, h₂⟩ := Checked.bind_eq_ok.1 h
    obtain ⟨e', h₁', ha'⟩ := hf.within ha h₁
    obtain ⟨e'', h₂', ha''⟩ := hF.within ha' h₂
    exact ⟨e'', Checked.bind_eq_ok.2 ⟨e', h₁', h₂'⟩, ha''⟩

/-- A branch on what the dictionary holds under the keys of `K`. -/
theorem Local.ite {p : Dict κ ν → Bool} (hp : ∀ {d₁ d₂}, AgreeOn K d₁ d₂ → p d₁ = p d₂) (hf : Local K f)
    (hg : Local K g) : Local K (fun d => if p d then f d else g d) where
  frame h := by
    split at h
    · exact hf.frame h
    · exact hg.frame h
  within ha h := by
    rw [← hp ha]
    split at h
    case isTrue hb =>
      rw [if_pos hb]
      exact hf.within ha h
    case isFalse hb =>
      rw [if_neg hb]
      exact hg.within ha h

theorem Local.error (e : ε) : Local K (fun _ => (.error e : Except ε (Dict κ ν))) where
  frame h := nomatch h
  within _ h := nomatch h

theorem Local.set {k : κ} (hk : k ∈ K) (v : ν) : Local K (fun d => (.ok (d.set k v) : Except ε (Dict κ ν))) where
  frame {d d'} h := by
    cases h
    intro x hx
    rw [get?_set, if_neg fun h : x = k => hx (h ▸ hk)]
  within ha h := by
    cases h
    refine ⟨_, rfl, fun x hx => ?_⟩
    rw [get?_set, get?_set, ha x hx]

theorem Local.erase {k : κ} (hk : k ∈ K) : Local K (fun d => (.ok (d.erase k) : Except ε (Dict κ ν))) where
  frame {d d'} h := by
    cases h
    intro x hx
    rw [get?_erase, if_neg fun h : x = k => hx (h ▸ hk)]
  within ha h := by
    cases h
    refine ⟨_, rfl, fun x hx => ?_⟩
    rw [get?_erase, get?_erase, ha x hx]

/-- A program that looks a key of `K` up and goes on from what it finds. -/
theorem Local.lookup {k : κ} (hk : k ∈ K) {v : ν → Dict κ ν → Except ε (Dict κ ν)} (hf : Local K f)
    (hv : ∀ t, Local K (v t)) (hn : ∀ d, d.get? k = none → g d = f d)
    (hs : ∀ d t, d.get? k = some t → g d = v t d) : Local K g where
  frame {d d'} h := by
    cases hd : d.get? k with
    | none => exact hf.frame ((hn d hd).symm.trans h)
    | some t => exact (hv t).frame ((hs d t hd).symm.trans h)
  within {d₁ d₂ d₁'} ha h := by
    have hk' : d₁.get? k = d₂.get? k := ha k hk
    cases hd : d₁.get? k with
    | none =>
      rw [hn d₂ (hk'.symm.trans hd)]
      exact hf.within ha ((hn d₁ hd).symm.trans h)
    | some t =>
      rw [hs d₂ t (hk'.symm.trans hd)]
      exact (hv t).within ha ((hs d₁ t hd).symm.trans h)

/-- A program that changes each entry by itself, and only those of `K`. -/
theorem Local.of_get? {p : Dict κ ν → Dict κ ν} {φ : κ → Option ν → Option ν}
    (hp : ∀ d k, (p d).get? k = φ k (d.get? k)) (hout : ∀ k ∉ K, ∀ v, φ k v = v) :
    Local K (fun d => (.ok (p d) : Except ε (Dict κ ν))) where
  frame {d d'} h := by
    cases h
    exact fun k hk => (hp d k).trans (hout k hk _)
  within {d₁ d₂ d₁'} ha h := by
    cases h
    exact ⟨_, rfl, fun k hk => by rw [hp, hp, ha k hk]⟩

theorem Local.foldl {β : Type} {key : β → κ} {val : β → ν} (l : List β) (h : ∀ b ∈ l, key b ∈ K) :
    Local K (fun d => (.ok (l.foldl (fun d b => d.set (key b) (val b)) d) : Except ε (Dict κ ν))) := by
  induction l with
  | nil => exact Local.pure
  | cons b l ih =>
    exact (Local.set (h b List.mem_cons_self) (val b)).bind (ih fun b' hb => h b' (List.mem_cons_of_mem _ hb))

/-- **Equal dictionaries give equal dictionaries.** -/
theorem Local.same (hf : Local K f) (ha : Same d₁ d₂) (h : f d₁ = .ok d) : ∃ d', f d₂ = .ok d' ∧ Same d d' := by
  obtain ⟨d', h', hin⟩ := hf.within ha.agreeOn h
  exact ⟨d', h', hin.same ((hf.frame h).trans (ha.agreeOn.trans (hf.frame h').symm))⟩

/-- `g` after `f` gives the dictionary back. -/
def RoundTrip (f g : Dict κ ν → Except ε (Dict κ ν)) (d : Dict κ ν) : Prop :=
  ∃ d' d'', f d = .ok d' ∧ g d' = .ok d'' ∧ Same d'' d

/-- **A round trip depends on the keys of its programs alone.** -/
theorem RoundTrip.within (hf : Local K f) (hg : Local K g) (ha : AgreeOn K d₁ d₂) (h : RoundTrip f g d₁) :
    RoundTrip f g d₂ := by
  obtain ⟨d', d'', h₁, h₂, hs⟩ := h
  obtain ⟨e', h₁', ha'⟩ := hf.within ha h₁
  obtain ⟨e'', h₂', ha''⟩ := hg.within ha' h₂
  refine ⟨e', e'', h₁', h₂', AgreeOn.same (K := K) ?_ ?_⟩
  · exact ha''.symm.trans (hs.agreeOn.trans ha)
  · exact (hg.frame h₂').trans (hf.frame h₁')

/-- **Round trips local to disjoint keys do not meet**: one inside the other is the identity exactly where both are. -/
theorem roundTrip_comp (hd : Disjoint K K') (hf : Local K f) (hg : Local K g) (hF : Local K' F) (hG : Local K' G) :
    RoundTrip (fun d => f d >>= F) (fun d => G d >>= g) d ↔ RoundTrip f g d ∧ RoundTrip F G d := by
  constructor
  · rintro ⟨d₂, d₄, h, h', hs⟩
    obtain ⟨d₁, h₁, h₂⟩ := Checked.bind_eq_ok.1 h
    obtain ⟨d₃, h₃, h₄⟩ := Checked.bind_eq_ok.1 h'
    have hK : AgreeOn K d₃ d₁ := ((hG.frame h₃).trans (hF.frame h₂)).mono hd.subset_compl_right
    have hK' : AgreeOn K' d₃ d := ((hg.frame h₄).mono hd.symm.subset_compl_right).symm.trans hs.agreeOn
    have h₁' : AgreeOn K' d₁ d := (hf.frame h₁).mono hd.symm.subset_compl_right
    constructor
    · obtain ⟨e, he, hin⟩ := hg.within hK h₄
      exact ⟨d₁, e, h₁, he, (hin.symm.trans hs.agreeOn).same ((hg.frame he).trans (hf.frame h₁))⟩
    · have hin : RoundTrip F G d₁ :=
        ⟨d₂, d₃, h₂, h₃, (hK'.trans h₁'.symm).same ((hG.frame h₃).trans (hF.frame h₂))⟩
      exact hin.within hF hG h₁'
  · rintro ⟨⟨d₁, e, h₁, he, hs⟩, hin⟩
    obtain ⟨d₂, d₃, h₂, h₃, hs'⟩ := hin.within hF hG ((hf.frame h₁).mono hd.symm.subset_compl_right).symm
    obtain ⟨d₄, h₄, hs''⟩ := hg.same hs'.symm he
    exact ⟨d₂, d₄, Checked.bind_eq_ok.2 ⟨d₁, h₁, h₂⟩, Checked.bind_eq_ok.2 ⟨d₃, h₃, h₄⟩, hs''.symm.trans hs⟩

/-- **Of two programs local to disjoint keys each does its own**, as from the start. -/
theorem bind_eq_ok_disjoint (hd : Disjoint K K') (hf : Local K f) (hF : Local K' F) (h : (f d >>= F) = .ok d') :
    (∃ e, f d = .ok e ∧ AgreeOn K d' e) ∧ ∃ e, F d = .ok e ∧ AgreeOn K' d' e := by
  obtain ⟨d₁, h₁, h₂⟩ := Checked.bind_eq_ok.1 h
  obtain ⟨e, he, hin⟩ := hF.within ((hf.frame h₁).mono hd.symm.subset_compl_right) h₂
  exact ⟨⟨d₁, h₁, (hF.frame h₂).mono hd.subset_compl_right⟩, e, he, hin⟩

theorem bind_isOk_disjoint (hd : Disjoint K K') (hf : Local K f) (hF : Local K' F) (h : ∃ e, f d = .ok e)
    (h' : ∃ e, F d = .ok e) : ∃ d', (f d >>= F) = .ok d' := by
  obtain ⟨d₁, h₁⟩ := h
  obtain ⟨e, he⟩ := h'
  obtain ⟨d₂, h₂, -⟩ := hF.within ((hf.frame h₁).mono hd.symm.subset_compl_right).symm he
  exact ⟨d₂, Checked.bind_eq_ok.2 ⟨d₁, h₁, h₂⟩⟩

end Programs

end Dict
