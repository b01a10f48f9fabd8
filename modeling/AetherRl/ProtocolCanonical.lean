import AetherRl.Checked
import AetherRl.KeySort
/-!
# ProtocolCanonical — the canonical form of a payload

`_sorted_mappings` of `protocol.py`, over what `model_dump` returns: scalars, lists, tuples and mappings, at any depth.
What msgpack makes of a payload keeps lists and tuples alike, and `Same` is equality up to that and the order of
mappings; `canonical_iff` says that two payloads are the same exactly when they have one canonical form.
-/
namespace Aether

open KeySort Checked

/-- A dumped value, with keys `κ` and scalars `α`; the items of a mapping are in insertion order. -/
inductive Payload (κ α : Type)
  | scalar (a : α)
  | list (values : List (Payload κ α))
  | tuple (values : List (Payload κ α))
  | mapping (items : List (κ × Payload κ α))

namespace Payload

variable {κ ι ρ α : Type}

mutual

/-- No mapping has a key twice. -/
def Distinct (K : KeyType κ ι ρ) : Payload κ α → Prop
  | .scalar _ => True
  | .list values => DistinctList K values
  | .tuple values => DistinctList K values
  | .mapping items => items.Pairwise (fun x y => K.Apart x.1 y.1) ∧ DistinctItems K items

def DistinctList (K : KeyType κ ι ρ) : List (Payload κ α) → Prop
  | [] => True
  | v :: values => Distinct K v ∧ DistinctList K values

def DistinctItems (K : KeyType κ ι ρ) : List (κ × Payload κ α) → Prop
  | [] => True
  | x :: items => Distinct K x.2 ∧ DistinctItems K items

end

mutual

/-- Equal up to the order of mappings and the representation of sequences, at any depth. -/
def Same : Payload κ α → Payload κ α → Prop
  | .scalar a, w => w = .scalar a
  | .list values, w => ∃ values', (w = .list values' ∨ w = .tuple values') ∧ SameList values values'
  | .tuple values, w => ∃ values', (w = .list values' ∨ w = .tuple values') ∧ SameList values values'
  | .mapping items, w => ∃ items' reordered, w = .mapping items' ∧ reordered.Perm items' ∧ SameItems items reordered

def SameList : List (Payload κ α) → List (Payload κ α) → Prop
  | [], values' => values' = []
  | v :: values, values' => ∃ w rest, values' = w :: rest ∧ Same v w ∧ SameList values rest

def SameItems : List (κ × Payload κ α) → List (κ × Payload κ α) → Prop
  | [], items' => items' = []
  | x :: items, items' => ∃ y rest, items' = y :: rest ∧ y.1 = x.1 ∧ Same x.2 y.2 ∧ SameItems items rest

end

mutual

/-- The keys of every mapping compare with each other, at any depth. -/
def Comparable (K : KeyType κ ι ρ) : Payload κ α → Prop
  | .scalar _ => True
  | .list values => ComparableList K values
  | .tuple values => ComparableList K values
  | .mapping items => OneKind K items ∧ ComparableItems K items

def ComparableList (K : KeyType κ ι ρ) : List (Payload κ α) → Prop
  | [] => True
  | v :: values => Comparable K v ∧ ComparableList K values

def ComparableItems (K : KeyType κ ι ρ) : List (κ × Payload κ α) → Prop
  | [] => True
  | x :: items => Comparable K x.2 ∧ ComparableItems K items

end

mutual

/-- What a decoder reads of a payload: sequences are lists. -/
def wire : Payload κ α → Payload κ α
  | .scalar a => .scalar a
  | .list values => .list (wireList values)
  | .tuple values => .list (wireList values)
  | .mapping items => .mapping (wireItems items)

def wireList : List (Payload κ α) → List (Payload κ α)
  | [] => []
  | v :: values => wire v :: wireList values

def wireItems : List (κ × Payload κ α) → List (κ × Payload κ α)
  | [] => []
  | x :: items => (x.1, wire x.2) :: wireItems items

end

mutual

/-- What a decoder reads, a decoder reads again. -/
theorem wire_wire : ∀ v : Payload κ α, v.wire.wire = v.wire
  | .scalar a => by rw [wire, wire]
  | .list values => by rw [wire, wire, wireList_wireList values]
  | .tuple values => by rw [wire, wire, wireList_wireList values]
  | .mapping items => by rw [wire, wire, wireItems_wireItems items]

theorem wireList_wireList : ∀ values : List (Payload κ α), wireList (wireList values) = wireList values
  | [] => by rw [wireList, wireList]
  | v :: values => by rw [wireList, wireList, wire_wire v, wireList_wireList values]

theorem wireItems_wireItems : ∀ items : List (κ × Payload κ α), wireItems (wireItems items) = wireItems items
  | [] => by rw [wireItems, wireItems]
  | x :: items => by rw [wireItems, wireItems, wire_wire x.2, wireItems_wireItems items]

end

section
variable [DecidableEq ι] [LinearOrder ρ] (K : KeyType κ ι ρ)

mutual

/-- `_sorted_mappings`; a mapping whose keys do not compare raises, before or after its values are sorted. -/
def sortedMappings : Payload κ α → Option (Payload κ α)
  | .scalar a => some (.scalar a)
  | .list values => do
    let values ← sortedList values
    pure (.list values)
  | .tuple values => do
    let values ← sortedList values
    pure (.tuple values)
  | .mapping items => do
    let items ← sortedItems items
    let items ← sortItems K items
    pure (.mapping items)

def sortedList : List (Payload κ α) → Option (List (Payload κ α))
  | [] => some []
  | v :: values => do
    let v ← sortedMappings v
    let values ← sortedList values
    pure (v :: values)

def sortedItems : List (κ × Payload κ α) → Option (List (κ × Payload κ α))
  | [] => some []
  | x :: items => do
    let v ← sortedMappings x.2
    let items ← sortedItems items
    pure ((x.1, v) :: items)

end

/-- The canonical form, as a decoder reads it. -/
def canonical (v : Payload κ α) : Option (Payload κ α) := (sortedMappings K v).map wire

/-- The canonical form of an item's value, under its key. -/
def canonicalItem (x : κ × Payload κ α) : Option (κ × Payload κ α) := (canonical K x.2).map (Prod.mk x.1)

/-! ## The canonical form, constructor by constructor -/

variable {K}

theorem wireItems_eq (items : List (κ × Payload κ α)) : wireItems items = items.map (Prod.map id wire) := by
  induction items with
  | nil => rfl
  | cons x items ih => rw [wireItems, ih, List.map_cons]; rfl

theorem sortedList_wire (values : List (Payload κ α)) :
    (sortedList K values).map wireList = values.mapM (canonical K) := by
  induction values with
  | nil => rfl
  | cons v values ih =>
    rw [sortedList, List.mapM_cons, ← ih, canonical]
    cases sortedMappings K v with
    | none => rfl
    | some v' => cases sortedList K values <;> rfl

theorem sortedItems_wire (items : List (κ × Payload κ α)) :
    (sortedItems K items).map wireItems = items.mapM (canonicalItem K) := by
  induction items with
  | nil => rfl
  | cons x items ih =>
    rw [sortedItems, List.mapM_cons, ← ih, canonicalItem, canonical]
    cases sortedMappings K x.2 with
    | none => rfl
    | some v => cases sortedItems K items <;> rfl

theorem canonical_scalar (a : α) : canonical K (.scalar a : Payload κ α) = some (.scalar a) := rfl

theorem canonical_list (values : List (Payload κ α)) :
    canonical K (.list values) = (values.mapM (canonical K)).map .list := by
  rw [canonical, sortedMappings, ← sortedList_wire]
  cases sortedList K values <;> rfl

theorem canonical_tuple (values : List (Payload κ α)) :
    canonical K (.tuple values) = (values.mapM (canonical K)).map .list := by
  rw [canonical, sortedMappings, ← sortedList_wire]
  cases sortedList K values <;> rfl

theorem canonical_mapping (items : List (κ × Payload κ α)) :
    canonical K (.mapping items) = (items.mapM (canonicalItem K)).bind fun cs => (sortItems K cs).map .mapping := by
  rw [canonical, sortedMappings, ← sortedItems_wire]
  cases sortedItems K items with
  | none => rfl
  | some items' =>
    have hsort := sortItems_map (K := K) (f := Prod.map id (wire : Payload κ α → Payload κ α)) (fun _ => rfl) items'
    simp only [Option.bind_eq_bind, Option.bind_some, Option.map_some, wireItems_eq, hsort]
    cases sortItems K items' with
    | none => rfl
    | some s =>
      simp only [Option.bind_some, Option.map_some, Option.pure_def]
      rw [wire, wireItems_eq]

/-! ## Same payloads have one canonical form -/

/-- The canonical items keep their keys. -/
theorem canonicalItem_key {x c : κ × Payload κ α} (h : canonicalItem K x = some c) : c.1 = x.1 := by
  obtain ⟨v, _, rfl⟩ := Option.map_eq_some_iff.1 h
  rfl

theorem canonicalItems_keys {items cs : List (κ × Payload κ α)} (h : items.mapM (canonicalItem K) = some cs) :
    cs.map Prod.fst = items.map Prod.fst := by
  have hall := mapM_eq_some.1 h
  clear h
  induction hall with
  | nil => rfl
  | cons hx _ ih => rw [List.map_cons, List.map_cons, canonicalItem_key hx, ih]

omit [DecidableEq ι] [LinearOrder ρ] in
theorem apart_of_keys {items items' : List (κ × Payload κ α)} (hk : items'.map Prod.fst = items.map Prod.fst)
    (hd : items.Pairwise fun x y => K.Apart x.1 y.1) : items'.Pairwise fun x y => K.Apart x.1 y.1 := by
  rw [← List.pairwise_map] at hd ⊢
  rw [hk]
  exact hd

mutual

/-- **A payload has a canonical form exactly where its keys compare.** -/
theorem canonical_returns : ∀ v : Payload κ α, (∃ c, canonical K v = some c) ↔ Comparable K v
  | .scalar a => by
    rw [Comparable, canonical_scalar]
    exact ⟨fun _ => trivial, fun _ => ⟨_, rfl⟩⟩
  | .list values => by
    rw [Comparable, canonical_list, ← canonicalList_returns values]
    simp only [Option.map_eq_some_iff, exists_comm (α := Payload κ α), exists_and_left, exists_eq', and_true]
  | .tuple values => by
    rw [Comparable, canonical_tuple, ← canonicalList_returns values]
    simp only [Option.map_eq_some_iff, exists_comm (α := Payload κ α), exists_and_left, exists_eq', and_true]
  | .mapping items => by
    rw [Comparable, canonical_mapping, ← canonicalItems_returns items, oneKind_iff_keys]
    constructor
    · rintro ⟨c, hc⟩
      obtain ⟨cs, hcs, hc⟩ := Option.bind_eq_some_iff.1 hc
      obtain ⟨s, hs, -⟩ := Option.map_eq_some_iff.1 hc
      have hone := oneKind_iff_keys.1 (sortItems_returns.1 ⟨s, hs⟩)
      rw [canonicalItems_keys hcs] at hone
      exact ⟨hone, cs, hcs⟩
    · rintro ⟨hone, cs, hcs⟩
      rw [← canonicalItems_keys hcs, ← oneKind_iff_keys] at hone
      obtain ⟨s, hs⟩ := sortItems_returns.2 hone
      exact ⟨_, Option.bind_eq_some_iff.2 ⟨cs, hcs, Option.map_eq_some_iff.2 ⟨s, hs, rfl⟩⟩⟩

theorem canonicalList_returns : ∀ values : List (Payload κ α),
    (∃ cs, values.mapM (canonical K) = some cs) ↔ ComparableList K values
  | [] => by
    rw [ComparableList]
    exact ⟨fun _ => trivial, fun _ => ⟨_, rfl⟩⟩
  | v :: values => by
    rw [ComparableList, ← canonical_returns v, ← canonicalList_returns values]
    simp only [mapM_eq_some, List.forall₂_cons_left_iff]
    constructor
    · rintro ⟨_, c, cs, hc, hcs, rfl⟩
      exact ⟨⟨c, hc⟩, cs, hcs⟩
    · rintro ⟨⟨c, hc⟩, cs, hcs⟩
      exact ⟨_, c, cs, hc, hcs, rfl⟩

theorem canonicalItems_returns : ∀ items : List (κ × Payload κ α),
    (∃ cs, items.mapM (canonicalItem K) = some cs) ↔ ComparableItems K items
  | [] => by
    rw [ComparableItems]
    exact ⟨fun _ => trivial, fun _ => ⟨_, rfl⟩⟩
  | x :: items => by
    rw [ComparableItems, ← canonical_returns x.2, ← canonicalItems_returns items]
    simp only [mapM_eq_some, List.forall₂_cons_left_iff, canonicalItem, Option.map_eq_some_iff]
    constructor
    · rintro ⟨_, _, cs, ⟨c, hc, rfl⟩, hcs, rfl⟩
      exact ⟨⟨c, hc⟩, cs, hcs⟩
    · rintro ⟨⟨c, hc⟩, cs, hcs⟩
      exact ⟨_, _, cs, ⟨c, hc, rfl⟩, hcs, rfl⟩

end

/-- **The order of a mapping's items does not matter.** -/
theorem canonical_mapping_perm {items items' : List (κ × Payload κ α)} (hp : items.Perm items')
    (hd : items.Pairwise fun x y => K.Apart x.1 y.1) :
    canonical K (.mapping items) = canonical K (.mapping items') := by
  rw [canonical_mapping, canonical_mapping]
  cases h : items.mapM (canonicalItem K) with
  | none =>
    cases h' : items'.mapM (canonicalItem K) with
    | none => rfl
    | some cs' =>
      obtain ⟨cs, hcs, _⟩ := mapM_perm hp.symm h'
      rw [h] at hcs
      cases hcs
  | some cs =>
    obtain ⟨cs', hcs', hperm⟩ := mapM_perm hp h
    rw [hcs', Option.bind_some, Option.bind_some,
      sortItems_of_perm hperm.symm (apart_of_keys (canonicalItems_keys h) hd)]

theorem sameItems_keys : ∀ {items items' : List (κ × Payload κ α)}, SameItems items items' →
    items'.map Prod.fst = items.map Prod.fst
  | [], items', h => by
    rw [SameItems] at h
    rw [h]
  | x :: items, items', h => by
    rw [SameItems] at h
    obtain ⟨y, rest, rfl, hk, _, h⟩ := h
    rw [List.map_cons, List.map_cons, hk, sameItems_keys h]

mutual

/-- **Same payloads have the same canonical form**, or neither has one. -/
theorem canonical_of_same : ∀ {v w : Payload κ α}, Distinct K v → Same v w → canonical K v = canonical K w
  | .scalar a, w, _, h => by
    rw [Same] at h
    rw [h]
  | .list values, w, hd, h => by
    rw [Same] at h
    obtain ⟨values', hw, h⟩ := h
    rw [Distinct] at hd
    rw [canonical_list, canonicalList_of_same hd h]
    rcases hw with rfl | rfl
    · rw [canonical_list]
    · rw [canonical_tuple]
  | .tuple values, w, hd, h => by
    rw [Same] at h
    obtain ⟨values', hw, h⟩ := h
    rw [Distinct] at hd
    rw [canonical_tuple, canonicalList_of_same hd h]
    rcases hw with rfl | rfl
    · rw [canonical_list]
    · rw [canonical_tuple]
  | .mapping items, w, hd, h => by
    rw [Same] at h
    obtain ⟨items', reordered, rfl, hp, h⟩ := h
    rw [Distinct] at hd
    rw [canonical_mapping, canonicalItems_of_same hd.2 h, ← canonical_mapping]
    exact canonical_mapping_perm hp (apart_of_keys (sameItems_keys h) hd.1)

theorem canonicalList_of_same : ∀ {values values' : List (Payload κ α)}, DistinctList K values →
    SameList values values' → values.mapM (canonical K) = values'.mapM (canonical K)
  | [], values', _, h => by
    rw [SameList] at h
    rw [h]
  | v :: values, values', hd, h => by
    rw [SameList] at h
    obtain ⟨w, rest, rfl, hv, h⟩ := h
    rw [DistinctList] at hd
    rw [List.mapM_cons, List.mapM_cons, canonical_of_same hd.1 hv, canonicalList_of_same hd.2 h]

theorem canonicalItems_of_same : ∀ {items items' : List (κ × Payload κ α)}, DistinctItems K items →
    SameItems items items' → items.mapM (canonicalItem K) = items'.mapM (canonicalItem K)
  | [], items', _, h => by
    rw [SameItems] at h
    rw [h]
  | x :: items, items', hd, h => by
    rw [SameItems] at h
    obtain ⟨y, rest, rfl, hk, hv, h⟩ := h
    rw [DistinctItems] at hd
    rw [List.mapM_cons, List.mapM_cons, canonicalItem, canonicalItem, hk, canonical_of_same hd.1 hv,
      canonicalItems_of_same hd.2 h]

end

/-! ## Payloads of one canonical form are the same -/

theorem canonical_eq_scalar {w : Payload κ α} {a : α} (h : canonical K w = some (.scalar a)) : w = .scalar a := by
  cases w with
  | scalar b =>
    rw [canonical_scalar] at h
    exact Option.some.inj h
  | list values =>
    rw [canonical_list] at h
    obtain ⟨_, _, h⟩ := Option.map_eq_some_iff.1 h
    cases h
  | tuple values =>
    rw [canonical_tuple] at h
    obtain ⟨_, _, h⟩ := Option.map_eq_some_iff.1 h
    cases h
  | mapping items =>
    rw [canonical_mapping] at h
    obtain ⟨_, _, h⟩ := Option.bind_eq_some_iff.1 h
    obtain ⟨_, _, h⟩ := Option.map_eq_some_iff.1 h
    cases h

theorem canonical_eq_list {w : Payload κ α} {cs : List (Payload κ α)} (h : canonical K w = some (.list cs)) :
    ∃ values, (w = .list values ∨ w = .tuple values) ∧ values.mapM (canonical K) = some cs := by
  cases w with
  | scalar b =>
    rw [canonical_scalar] at h
    cases h
  | list values =>
    rw [canonical_list] at h
    obtain ⟨cs', hcs, h⟩ := Option.map_eq_some_iff.1 h
    cases h
    exact ⟨values, Or.inl rfl, hcs⟩
  | tuple values =>
    rw [canonical_tuple] at h
    obtain ⟨cs', hcs, h⟩ := Option.map_eq_some_iff.1 h
    cases h
    exact ⟨values, Or.inr rfl, hcs⟩
  | mapping items =>
    rw [canonical_mapping] at h
    obtain ⟨_, _, h⟩ := Option.bind_eq_some_iff.1 h
    obtain ⟨_, _, h⟩ := Option.map_eq_some_iff.1 h
    cases h

theorem canonical_eq_mapping {w : Payload κ α} {s : List (κ × Payload κ α)} (h : canonical K w = some (.mapping s)) :
    ∃ items cs, w = .mapping items ∧ items.mapM (canonicalItem K) = some cs ∧ s.Perm cs := by
  cases w with
  | scalar b =>
    rw [canonical_scalar] at h
    cases h
  | list values =>
    rw [canonical_list] at h
    obtain ⟨_, _, h⟩ := Option.map_eq_some_iff.1 h
    cases h
  | tuple values =>
    rw [canonical_tuple] at h
    obtain ⟨_, _, h⟩ := Option.map_eq_some_iff.1 h
    cases h
  | mapping items =>
    rw [canonical_mapping] at h
    obtain ⟨cs, hcs, h⟩ := Option.bind_eq_some_iff.1 h
    obtain ⟨s', hs, h⟩ := Option.map_eq_some_iff.1 h
    cases h
    exact ⟨items, cs, rfl, hcs, sortItems_perm hs⟩

mutual

/-- **Payloads that have one canonical form are the same.** -/
theorem same_of_canonical : ∀ {v w c : Payload κ α}, canonical K v = some c → canonical K w = some c → Same v w
  | .scalar a, w, c, h, h' => by
    rw [canonical_scalar] at h
    rw [← Option.some.inj h] at h'
    rw [Same]
    exact canonical_eq_scalar h'
  | .list values, w, c, h, h' => by
    rw [canonical_list] at h
    obtain ⟨cs, hcs, rfl⟩ := Option.map_eq_some_iff.1 h
    obtain ⟨values', hw, hcs'⟩ := canonical_eq_list h'
    rw [Same]
    exact ⟨values', hw, sameList_of_canonical hcs hcs'⟩
  | .tuple values, w, c, h, h' => by
    rw [canonical_tuple] at h
    obtain ⟨cs, hcs, rfl⟩ := Option.map_eq_some_iff.1 h
    obtain ⟨values', hw, hcs'⟩ := canonical_eq_list h'
    rw [Same]
    exact ⟨values', hw, sameList_of_canonical hcs hcs'⟩
  | .mapping items, w, c, h, h' => by
    rw [canonical_mapping] at h
    obtain ⟨cs, hcs, h⟩ := Option.bind_eq_some_iff.1 h
    obtain ⟨s, hs, rfl⟩ := Option.map_eq_some_iff.1 h
    obtain ⟨items', cs', rfl, hcs', hperm⟩ := canonical_eq_mapping h'
    obtain ⟨reordered, hre, hp⟩ := List.perm_comp_forall₂ ((sortItems_perm hs).symm.trans hperm)
      (mapM_eq_some.1 hcs').flip
    rw [Same]
    exact ⟨items', reordered, rfl, hp, sameItems_of_canonical hcs (mapM_eq_some.2 hre.flip)⟩
termination_by structural v => v

theorem sameList_of_canonical : ∀ {values values' cs : List (Payload κ α)}, values.mapM (canonical K) = some cs →
    values'.mapM (canonical K) = some cs → SameList values values'
  | [], values', cs, h, h' => by
    rw [SameList]
    rw [List.mapM_nil, Option.pure_def, Option.some.injEq] at h
    rw [← h, mapM_eq_some, List.forall₂_nil_right_iff] at h'
    exact h'
  | v :: values, values', cs, h, h' => by
    rw [mapM_eq_some, List.forall₂_cons_left_iff] at h
    obtain ⟨c, cs', hc, hcs, rfl⟩ := h
    rw [mapM_eq_some, List.forall₂_cons_right_iff] at h'
    obtain ⟨w, rest, hw, hrest, rfl⟩ := h'
    rw [SameList]
    exact ⟨w, rest, rfl, same_of_canonical hc hw, sameList_of_canonical (mapM_eq_some.2 hcs) (mapM_eq_some.2 hrest)⟩
termination_by structural values => values

theorem sameItems_of_canonical : ∀ {items items' cs : List (κ × Payload κ α)},
    items.mapM (canonicalItem K) = some cs → items'.mapM (canonicalItem K) = some cs → SameItems items items'
  | [], items', cs, h, h' => by
    rw [SameItems]
    rw [List.mapM_nil, Option.pure_def, Option.some.injEq] at h
    rw [← h, mapM_eq_some, List.forall₂_nil_right_iff] at h'
    exact h'
  | x :: items, items', cs, h, h' => by
    rw [mapM_eq_some, List.forall₂_cons_left_iff] at h
    obtain ⟨c, cs', hc, hcs, rfl⟩ := h
    rw [mapM_eq_some, List.forall₂_cons_right_iff] at h'
    obtain ⟨y, rest, hy, hrest, rfl⟩ := h'
    rw [SameItems]
    obtain ⟨cv, hv, rfl⟩ := Option.map_eq_some_iff.1 hc
    obtain ⟨cw, hw, he⟩ := Option.map_eq_some_iff.1 hy
    obtain ⟨hk, rfl⟩ := Prod.mk.inj he
    exact ⟨y, rest, rfl, hk, same_of_canonical hv hw,
      sameItems_of_canonical (mapM_eq_some.2 hcs) (mapM_eq_some.2 hrest)⟩
termination_by structural items => items

end

/-- **Two payloads are the same when they have one canonical form.** -/
theorem canonical_iff {v w c : Payload κ α} (hd : Distinct K v) (h : canonical K v = some c) :
    canonical K w = some c ↔ Same v w :=
  ⟨fun h' => same_of_canonical h h', fun hs => (canonical_of_same hd hs).symm.trans h⟩

mutual

/-- **A payload is the same as its canonical form.** -/
theorem same_canonical : ∀ {v c : Payload κ α}, canonical K v = some c → Same v c
  | .scalar a, c, h => by
    rw [canonical_scalar] at h
    rw [Same]
    exact (Option.some.inj h).symm
  | .list values, c, h => by
    rw [canonical_list] at h
    obtain ⟨cs, hcs, rfl⟩ := Option.map_eq_some_iff.1 h
    rw [Same]
    exact ⟨cs, Or.inl rfl, sameList_canonical hcs⟩
  | .tuple values, c, h => by
    rw [canonical_tuple] at h
    obtain ⟨cs, hcs, rfl⟩ := Option.map_eq_some_iff.1 h
    rw [Same]
    exact ⟨cs, Or.inl rfl, sameList_canonical hcs⟩
  | .mapping items, c, h => by
    rw [canonical_mapping] at h
    obtain ⟨cs, hcs, h⟩ := Option.bind_eq_some_iff.1 h
    obtain ⟨s, hs, rfl⟩ := Option.map_eq_some_iff.1 h
    rw [Same]
    exact ⟨s, cs, rfl, (sortItems_perm hs).symm, sameItems_canonical hcs⟩

theorem sameList_canonical : ∀ {values cs : List (Payload κ α)}, values.mapM (canonical K) = some cs →
    SameList values cs
  | [], cs, h => by
    rw [List.mapM_nil, Option.pure_def, Option.some.injEq] at h
    rw [SameList, ← h]
  | v :: values, cs, h => by
    rw [mapM_eq_some, List.forall₂_cons_left_iff] at h
    obtain ⟨c, cs', hc, hcs, rfl⟩ := h
    rw [SameList]
    exact ⟨c, cs', rfl, same_canonical hc, sameList_canonical (mapM_eq_some.2 hcs)⟩

theorem sameItems_canonical : ∀ {items cs : List (κ × Payload κ α)}, items.mapM (canonicalItem K) = some cs →
    SameItems items cs
  | [], cs, h => by
    rw [List.mapM_nil, Option.pure_def, Option.some.injEq] at h
    rw [SameItems, ← h]
  | x :: items, cs, h => by
    rw [mapM_eq_some, List.forall₂_cons_left_iff] at h
    obtain ⟨c, cs', hc, hcs, rfl⟩ := h
    obtain ⟨cv, hv, rfl⟩ := Option.map_eq_some_iff.1 hc
    rw [SameItems]
    exact ⟨_, cs', rfl, rfl, same_canonical hv, sameItems_canonical (mapM_eq_some.2 hcs)⟩

end

end

end Payload
end Aether
