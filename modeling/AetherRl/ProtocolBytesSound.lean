import Mathlib.Data.List.Find
import AetherRl.ProtocolBytes
/-!
# ProtocolBytesSound — the bytes of an envelope are canonical

The bytes of an envelope are those of every envelope equal to it, and of no other; and what they decode to is an envelope
equal to it again, with the same bytes.
-/
namespace Aether

open KeySort Payload Checked

section
variable {κ ι ρ F E β : Type} {W : Wire κ ι ρ F E β}

/-! ## Items under names -/

/-- Items given by the names of their keys. -/
def underNames (K : WireKeys κ ι ρ) (l : List (String × Payload κ (Scalar F))) : List (κ × Payload κ (Scalar F)) :=
  l.map fun x => (K.str x.1, x.2)

/-- The items of an envelope with the episode `v`. -/
def namedItems (f : EnvelopeFields F) (v : Payload κ (Scalar F)) : List (String × Payload κ (Scalar F)) :=
  f.items.map (fun x => (x.1, .scalar x.2)) ++ [("episode", v)]

theorem envelopeItems_eq (a : Envelope W) :
    envelopeItems W a = underNames W.keys (namedItems a.fields (W.episodes.dump a.episode)) := by
  simp [envelopeItems, underNames, namedItems]

theorem namedItems_names (f : EnvelopeFields F) (v : Payload κ (Scalar F)) :
    (namedItems f v).map Prod.fst = fieldNames := rfl

theorem underNames_keys (K : WireKeys κ ι ρ) (l : List (String × Payload κ (Scalar F))) :
    (underNames K l).map Prod.fst = (l.map Prod.fst).map K.str := by
  simp [underNames]

/-- Different names are different keys. -/
theorem apart_str (K : WireKeys κ ι ρ) {a b : String} (h : a ≠ b) : K.Apart (K.str a) (K.str b) :=
  fun _ he => h (K.str_rank a b he)

/-- **The keys of an envelope are distinct.** -/
theorem underNames_apart (K : WireKeys κ ι ρ) {l : List (String × Payload κ (Scalar F))}
    (hn : (l.map Prod.fst).Nodup) : (underNames K l).Pairwise fun x y => K.Apart x.1 y.1 := by
  rw [← List.pairwise_map, underNames_keys, List.pairwise_map]
  exact hn.imp fun h => apart_str K h

theorem fieldNames_nodup : fieldNames.Nodup := by decide

/-! ## Envelopes that are equal, and their dumps -/

theorem sameItems_scalars {K : WireKeys κ ι ρ} : ∀ {l : List (String × Scalar F)} {rest rest' : List (κ × Payload κ (Scalar F))},
    SameItems rest rest' → SameItems (l.map (fun x => (K.str x.1, .scalar x.2)) ++ rest)
      (l.map (fun x => (K.str x.1, .scalar x.2)) ++ rest')
  | [], _, _, h => h
  | x :: l, rest, rest', h => by
    rw [List.map_cons, List.cons_append, List.cons_append, SameItems]
    refine ⟨_, _, rfl, rfl, ?_, sameItems_scalars h⟩
    rw [Same]

theorem scalars_of_sameItems {K : WireKeys κ ι ρ} : ∀ {l l' : List (String × Scalar F)} {rest rest' : List (κ × Payload κ (Scalar F))},
    l.length = l'.length → SameItems (l.map (fun x => (K.str x.1, .scalar x.2)) ++ rest)
      (l'.map (fun x => (K.str x.1, .scalar x.2)) ++ rest') → l.map Prod.snd = l'.map Prod.snd ∧ SameItems rest rest'
  | [], [], _, _, _, h => ⟨rfl, h⟩
  | x :: l, x' :: l', rest, rest', hlen, h => by
    rw [List.map_cons, List.map_cons, List.cons_append, List.cons_append, SameItems] at h
    obtain ⟨y, tail, heq, hk, hv, h⟩ := h
    obtain ⟨rfl, rfl⟩ := List.cons_eq_cons.1 heq
    obtain ⟨hl, hrest⟩ := scalars_of_sameItems (Nat.succ.inj hlen) h
    rw [Same] at hv
    have hx : x'.2 = x.2 := by injection hv
    exact ⟨by rw [List.map_cons, List.map_cons, hl, hx], hrest⟩

theorem scalars_same {K : WireKeys κ ι ρ} : ∀ {l : List (String × Scalar F)} {rest items : List (κ × Payload κ (Scalar F))},
    SameItems (l.map (fun x => (K.str x.1, .scalar x.2)) ++ rest) items →
      ∃ rest', items = l.map (fun x => (K.str x.1, .scalar x.2)) ++ rest' ∧ SameItems rest rest'
  | [], _, items, h => ⟨items, rfl, h⟩
  | x :: l, rest, items, h => by
    rw [List.map_cons, List.cons_append, SameItems] at h
    obtain ⟨y, tail, rfl, hk, hv, h⟩ := h
    obtain ⟨rest', rfl, hrest⟩ := scalars_same h
    rw [Same] at hv
    exact ⟨rest', congrArg (fun z => z :: _) (Prod.ext hk hv), hrest⟩

theorem fields_inj {f g : EnvelopeFields F} (h : f.items.map Prod.snd = g.items.map Prod.snd) : f = g := by
  cases f
  cases g
  simpa [EnvelopeFields.items] using h

/-- **Equal envelopes have the same items**, and envelopes with the same items are equal. -/
theorem sameItems_iff {a b : Envelope W} : SameItems (envelopeItems W a) (envelopeItems W b) ↔ a.Equal b := by
  unfold envelopeItems Envelope.Equal
  constructor
  · intro h
    have hlen : a.fields.items.length = b.fields.items.length := rfl
    obtain ⟨hf, he⟩ := scalars_of_sameItems hlen h
    rw [SameItems] at he
    obtain ⟨y, tail, heq, _, hv, _⟩ := he
    obtain ⟨rfl, _⟩ := List.cons_eq_cons.1 heq
    exact ⟨fields_inj hf, hv⟩
  · rintro ⟨hf, he⟩
    rw [hf]
    refine sameItems_scalars ?_
    rw [SameItems]
    exact ⟨_, _, rfl, rfl, he, by rw [SameItems]⟩

theorem envelopeItems_apart (a : Envelope W) :
    (envelopeItems W a).Pairwise fun x y => W.keys.Apart x.1 y.1 := by
  rw [envelopeItems_eq]
  exact underNames_apart _ fieldNames_nodup

/-- A list of items is told by its keys, in whatever order. -/
theorem eq_of_perm_keys {l l' : List (κ × Payload κ (Scalar F))} (hp : l.Perm l') (hk : l.map Prod.fst = l'.map Prod.fst)
    (hd : l.Pairwise fun x y => W.keys.Apart x.1 y.1) : l = l' := by
  refine List.ext_getElem hp.length_eq fun i h h' => ?_
  have hkey : l[i].1 = l'[i].1 := by
    have hi := congrArg (·[i]?) hk
    simpa [h, h'] using hi
  exact eq_of_apart hd (List.getElem_mem h) (hp.mem_iff.2 (List.getElem_mem h')) (congrArg _ hkey) (congrArg _ hkey)

/-- **Dumps that are the same are those of equal envelopes.** -/
theorem same_mapping_iff {a b : Envelope W} :
    Same (.mapping (envelopeItems W a)) (.mapping (envelopeItems W b)) ↔ a.Equal b := by
  rw [Same]
  constructor
  · rintro ⟨items', reordered, heq, hp, h⟩
    cases heq
    have hkeys : ∀ c : Envelope W, (envelopeItems W c).map Prod.fst = fieldNames.map W.keys.str := fun c => by
      rw [envelopeItems_eq, underNames_keys, namedItems_names]
    have hk : (envelopeItems W b).map Prod.fst = reordered.map Prod.fst := by
      rw [sameItems_keys h, hkeys, hkeys]
    rw [← eq_of_perm_keys hp.symm hk (envelopeItems_apart b)] at h
    exact sameItems_iff.1 h
  · exact fun h => ⟨_, _, rfl, .refl _, sameItems_iff.2 h⟩

theorem episodeDigest_same {a b : Envelope W} (h : a.Equal b) :
    episodeDigest W a.episode = episodeDigest W b.episode := by
  rw [episodeDigest, episodeDigest, W.msgpack.deterministic_same _ _ (W.episodes.dump_distinct _) h.2]

theorem distinctItems_of_forall {K : KeyType κ ι ρ} : ∀ {items : List (κ × Payload κ (Scalar F))},
    (∀ x ∈ items, Distinct K x.2) → DistinctItems K items
  | [], _ => by rw [DistinctItems]; trivial
  | x :: items, h => by
    rw [DistinctItems]
    exact ⟨h x List.mem_cons_self, distinctItems_of_forall fun y hy => h y (List.mem_cons_of_mem _ hy)⟩

/-- **No mapping of a dump has a key twice.** -/
theorem distinct_envelope (a : Envelope W) : Distinct W.keys.toKeyType (.mapping (envelopeItems W a)) := by
  rw [Distinct]
  refine ⟨envelopeItems_apart a, distinctItems_of_forall fun x hx => ?_⟩
  rcases List.mem_append.1 hx with hx | hx
  · obtain ⟨y, _, rfl⟩ := List.mem_map.1 hx
    rw [Distinct]
    trivial
  · rw [List.mem_singleton.1 hx]
    exact W.episodes.dump_distinct a.episode

theorem comparableItems_append {K : KeyType κ ι ρ} : ∀ {items rest : List (κ × Payload κ (Scalar F))},
    ComparableItems K (items ++ rest) ↔ ComparableItems K items ∧ ComparableItems K rest
  | [], rest => by
    rw [List.nil_append, ComparableItems]
    exact ⟨fun h => ⟨trivial, h⟩, fun h => h.2⟩
  | x :: items, rest => by
    rw [List.cons_append, ComparableItems, ComparableItems, comparableItems_append, and_assoc]

/-- **The keys of an envelope compare exactly where those of its episode do**: its own are names. -/
theorem comparable_envelope (a : Envelope W) :
    Comparable W.keys.toKeyType (.mapping (envelopeItems W a)) ↔
      Comparable W.keys.toKeyType (W.episodes.dump a.episode) := by
  have hone : OneKind W.keys.toKeyType (envelopeItems W a) := by
    rw [oneKind_iff_keys, envelopeItems_eq, underNames_keys]
    intro x hx y hy
    obtain ⟨s, -, rfl⟩ := List.mem_map.1 hx
    obtain ⟨t, -, rfl⟩ := List.mem_map.1 hy
    exact W.keys.str_kind s t
  have hscalars : ∀ l : List (String × Scalar F),
      ComparableItems W.keys.toKeyType (l.map fun x => (W.keys.str x.1, .scalar x.2)) := by
    intro l
    induction l with
    | nil => rw [List.map_nil, ComparableItems]; trivial
    | cons x l ih =>
      rw [List.map_cons, ComparableItems, Comparable]
      exact ⟨trivial, ih⟩
  rw [Comparable, and_iff_right hone, envelopeItems, comparableItems_append, and_iff_right (hscalars _),
    ComparableItems, ComparableItems]
  exact and_iff_left trivial

/-- **The items of an envelope change in the episode only.** -/
theorem items_same {a : Envelope W} {items : List (κ × Payload κ (Scalar F))} (h : SameItems (envelopeItems W a) items) :
    ∃ v, items = underNames W.keys (namedItems a.fields v) ∧ Same (W.episodes.dump a.episode) v := by
  unfold envelopeItems at h
  obtain ⟨rest, rfl, hrest⟩ := scalars_same h
  rw [SameItems] at hrest
  obtain ⟨y, tail, rfl, hk, hv, htail⟩ := hrest
  rw [SameItems] at htail
  subst htail
  refine ⟨y.2, ?_, hv⟩
  simp only [underNames, namedItems, List.map_append, List.map_map, List.map_cons, List.map_nil]
  exact congrArg (_ ++ [·]) (Prod.ext hk rfl)

end

section
variable {κ ι ρ F E β : Type} [DecidableEq ι] [LinearOrder ρ] {W : Wire κ ι ρ F E β}

/-! ## Bytes -/

/-- **The bytes of an envelope**: its dump has a canonical form, they encode it, and it is what they decode to. -/
theorem resultEnvelopeBytes_eq_some {a : Envelope W} {x : β} : resultEnvelopeBytes W a = some x ↔
    episodeDigest W a.episode = some a.fields.resultDigest ∧
      ∃ c, canonical W.keys.toKeyType (.mapping (envelopeItems W a)) = some c ∧ W.msgpack.encode c = some x := by
  unfold resultEnvelopeBytes modelDump
  by_cases hd : episodeDigest W a.episode = some a.fields.resultDigest
  · rw [if_pos hd, canonical]
    change (sortedMappings W.keys.toKeyType _).bind W.msgpack.encode = some x ↔ _
    cases sortedMappings W.keys.toKeyType (.mapping (envelopeItems W a)) with
    | none => simp
    | some v => simp [hd, W.msgpack.encode_wire]
  · simp [hd]

/-- **Which envelopes have bytes**: those whose result digest is their episode's, whose episode has keys that compare,
at any depth, and whose sorted dump msgpack takes. -/
theorem resultEnvelopeBytes_returns (a : Envelope W) : (∃ x, resultEnvelopeBytes W a = some x) ↔
    episodeDigest W a.episode = some a.fields.resultDigest ∧
      Comparable W.keys.toKeyType (W.episodes.dump a.episode) ∧
      ∀ c, canonical W.keys.toKeyType (.mapping (envelopeItems W a)) = some c → ∃ x, W.msgpack.encode c = some x := by
  simp only [resultEnvelopeBytes_eq_some]
  rw [← comparable_envelope, ← canonical_returns]
  constructor
  · rintro ⟨x, hd, c, hc, hx⟩
    refine ⟨hd, ⟨c, hc⟩, fun c' hc' => ⟨x, ?_⟩⟩
    rwa [← Option.some.inj (hc.symm.trans hc')]
  · rintro ⟨hd, ⟨c, hc⟩, hencodes⟩
    obtain ⟨x, hx⟩ := hencodes c hc
    exact ⟨x, hd, c, hc, hx⟩

theorem decode_resultEnvelopeBytes {a : Envelope W} {x : β} (h : resultEnvelopeBytes W a = some x) :
    ∃ c, canonical W.keys.toKeyType (.mapping (envelopeItems W a)) = some c ∧ W.msgpack.decode x = some c := by
  obtain ⟨_, c, hc, hx⟩ := resultEnvelopeBytes_eq_some.1 h
  refine ⟨c, hc, ?_⟩
  obtain ⟨v, _, rfl⟩ := Option.map_eq_some_iff.1 hc
  have hv : W.msgpack.encode v = some x := (W.msgpack.encode_wire v).symm.trans hx
  exact W.msgpack.decode_encode v x hv

/-- **Equal envelopes have the same bytes**, or none of them has any. -/
theorem resultEnvelopeBytes_equal {a b : Envelope W} (h : a.Equal b) : resultEnvelopeBytes W a = resultEnvelopeBytes W b := by
  refine Option.ext fun x => ?_
  rw [resultEnvelopeBytes_eq_some, resultEnvelopeBytes_eq_some, episodeDigest_same h, h.1,
    canonical_of_same (distinct_envelope a) (same_mapping_iff.2 h)]

/-- **Envelopes with the same bytes are equal.** -/
theorem equal_of_bytes {a b : Envelope W} {x : β} (ha : resultEnvelopeBytes W a = some x)
    (hb : resultEnvelopeBytes W b = some x) : a.Equal b := by
  obtain ⟨c, hc, hx⟩ := decode_resultEnvelopeBytes ha
  obtain ⟨c', hc', hx'⟩ := decode_resultEnvelopeBytes hb
  obtain rfl := Option.some.inj (hx.symm.trans hx')
  exact same_mapping_iff.1 (same_of_canonical hc hc')

/-! ## Decoding -/

theorem field_underNames (W : Wire κ ι ρ F E β) (l : List (String × Payload κ (Scalar F))) (name : String) :
    field W (underNames W.keys l) name = (l.find? fun x => decide (x.1 = name)).map Prod.snd := by
  have hkey : ∀ a : String, (W.keys.kind (W.keys.str a) = W.keys.kind (W.keys.str name) ∧
      W.keys.rank (W.keys.str a) = W.keys.rank (W.keys.str name)) ↔ a = name :=
    fun a => ⟨fun h => W.keys.str_rank a name h.2, fun h => h ▸ ⟨rfl, rfl⟩⟩
  unfold field underNames
  induction l with
  | nil => rfl
  | cons x l ih =>
    rw [List.map_cons, List.find?_cons, List.find?_cons]
    simp only [hkey] at ih ⊢
    by_cases hx : x.1 = name
    · simp [hx]
    · simp only [hx, decide_false]
      exact ih

/-- **A field is found wherever its item stands.** -/
theorem field_perm {items items' : List (κ × Payload κ (Scalar F))} (hp : items.Perm items')
    (hd : items.Pairwise fun x y => W.keys.Apart x.1 y.1) (name : String) :
    field W items name = field W items' name := by
  refine congrArg (Option.map Prod.snd) (List.find?_eq_find?_of_perm hp ?_)
  rintro x ⟨hx, hxn⟩ y ⟨hy, hyn⟩
  rw [decide_eq_true_eq] at hxn hyn
  exact eq_of_apart hd hx hy (hxn.1.trans hyn.1.symm) (hxn.2.trans hyn.2.symm)

/-- **The fields of an envelope are read back from its items.** -/
theorem readFields_namedItems (W : Wire κ ι ρ F E β) (f : EnvelopeFields F) (v : Payload κ (Scalar F)) :
    readFields W (underNames W.keys (namedItems f v)) = some f := by
  simp [readFields, strField, intField, floatField, field_underNames, namedItems, EnvelopeFields.items]

theorem readLiterals_namedItems (W : Wire κ ι ρ F E β) (f : EnvelopeFields F) (v : Payload κ (Scalar F)) :
    readLiterals W (underNames W.keys (namedItems f v)) = true := by
  simp [readLiterals, field_underNames, namedItems, EnvelopeFields.items]

theorem field_episode (W : Wire κ ι ρ F E β) (f : EnvelopeFields F) (v : Payload κ (Scalar F)) :
    field W (underNames W.keys (namedItems f v)) "episode" = some v := by
  simp [field_underNames, namedItems, EnvelopeFields.items]

theorem noExtra_of_perm {f : EnvelopeFields F} {v : Payload κ (Scalar F)} {items : List (κ × Payload κ (Scalar F))}
    (hp : items.Perm (underNames W.keys (namedItems f v))) : noExtra W items = true := by
  rw [noExtra, List.all_eq_true]
  intro x hx
  have hkey : x.1 ∈ fieldNames.map W.keys.str := by
    rw [← namedItems_names f v, ← underNames_keys]
    exact List.mem_map_of_mem (hp.mem_iff.1 hx)
  obtain ⟨name, hname, hk⟩ := List.mem_map.1 hkey
  exact List.any_eq_true.2 ⟨name, hname, by simp [hk]⟩

/-- **The items of an envelope, in any order, are read back to it**, with the episode they hold. -/
theorem modelValidate_items {a : Envelope W} {v : Payload κ (Scalar F)} {items : List (κ × Payload κ (Scalar F))}
    {episode : E} (hp : items.Perm (underNames W.keys (namedItems a.fields v)))
    (hv : W.episodes.validate v = some episode)
    (hd : episodeDigest W episode = some a.fields.resultDigest) :
    modelValidate W (.mapping items) = some ⟨a.fields, episode, a.fields_valid⟩ := by
  have hfield : ∀ name, field W items name = field W (underNames W.keys (namedItems a.fields v)) name :=
    fun name => (field_perm hp.symm (underNames_apart _ fieldNames_nodup) name).symm
  have hfields : readFields W items = some a.fields := by
    rw [← readFields_namedItems W a.fields v]
    simp only [readFields, strField, intField, floatField, hfield]
  have hliterals : readLiterals W items = true := by
    rw [← readLiterals_namedItems W a.fields v]
    simp only [readLiterals, hfield]
  have hepisode : (field W items "episode").bind W.episodes.validate = some episode := by
    rw [hfield, field_episode, Option.bind_some, hv]
  rw [modelValidate, hfields, hepisode]
  simp only [Option.bind_eq_bind, Option.bind_some]
  rw [dif_pos ⟨noExtra_of_perm hp, hliterals, a.fields_valid, hd⟩]
  rfl

/-- **The bytes of an envelope decode to one equal to it.** -/
theorem decode_equal {a : Envelope W} {x : β} (h : resultEnvelopeBytes W a = some x) :
    ∃ a', decodeResultEnvelope W x = some a' ∧ a.Equal a' := by
  obtain ⟨c, hc, hx⟩ := decode_resultEnvelopeBytes h
  rw [canonical_mapping] at hc
  obtain ⟨cs, hcs, hc⟩ := Option.bind_eq_some_iff.1 hc
  obtain ⟨s, hs, rfl⟩ := Option.map_eq_some_iff.1 hc
  obtain ⟨v, rfl, hv⟩ := items_same (sameItems_canonical hcs)
  obtain ⟨episode, hval, he⟩ := W.episodes.validate_same _ _ hv
  have heq : a.Equal ⟨a.fields, episode, a.fields_valid⟩ := ⟨rfl, he⟩
  have hd := (resultEnvelopeBytes_eq_some.1 h).1
  rw [episodeDigest_same heq] at hd
  refine ⟨_, ?_, heq⟩
  rw [decodeResultEnvelope, hx, Option.bind_some]
  exact modelValidate_items (sortItems_perm hs) hval hd

/-- **The bytes of a result envelope are canonical**: an envelope has bytes where its result digest is its episode's, its
keys compare and msgpack takes its sorted dump; equal envelopes have the same, whatever order their mappings were filled
in, or all of them raise; envelopes with the same bytes are equal; and the bytes decode to an equal envelope, which has
these bytes again. -/
theorem result_bytes_canonical (W : Wire κ ι ρ F E β) :
    (∀ a : Envelope W, (∃ x, resultEnvelopeBytes W a = some x) ↔
      episodeDigest W a.episode = some a.fields.resultDigest ∧
        Comparable W.keys.toKeyType (W.episodes.dump a.episode) ∧
        ∀ c, canonical W.keys.toKeyType (.mapping (envelopeItems W a)) = some c →
          ∃ x, W.msgpack.encode c = some x) ∧
    (∀ a b : Envelope W, a.Equal b → resultEnvelopeBytes W a = resultEnvelopeBytes W b) ∧
    (∀ (a b : Envelope W) (x : β), resultEnvelopeBytes W a = some x → resultEnvelopeBytes W b = some x → a.Equal b) ∧
    ∀ (a : Envelope W) (x : β), resultEnvelopeBytes W a = some x →
      ∃ a', decodeResultEnvelope W x = some a' ∧ a.Equal a' ∧ resultEnvelopeBytes W a' = some x := by
  refine ⟨resultEnvelopeBytes_returns, fun a b h => resultEnvelopeBytes_equal h, fun a b x ha hb => equal_of_bytes ha hb, fun a x h => ?_⟩
  obtain ⟨a', ha', heq⟩ := decode_equal h
  exact ⟨a', ha', heq, (resultEnvelopeBytes_equal heq).symm.trans h⟩

end

namespace WireSample

/-- Names as keys, compared as strings. -/
def keys : WireKeys String Unit String := ⟨⟨fun _ => (), id⟩, id, fun _ _ => rfl, fun _ _ h => h⟩

/-- Whether the identifier was filled in first, and whether the episode is in order. -/
def items (e : Bool × Bool) : List (String × Scalar ℚ) :=
  if e.1 then [("id", .str "e"), ("ok", .bool e.2)] else [("ok", .bool e.2), ("id", .str "e")]

def readOk (items : List (String × Payload String (Scalar ℚ))) : Option (Bool × Bool) :=
  match items.find? fun x => decide (x.1 = "ok") with
  | some (_, .scalar (.bool b)) => some (false, b)
  | _ => none

def episodes : EpisodeType keys (Scalar ℚ) (Bool × Bool) where
  dump e := .mapping ((items e).map fun x => (x.1, .scalar x.2))
  validate
    | .mapping items => readOk items
    | _ => none
  dump_distinct := by
    rintro ⟨first, ok⟩
    cases first <;>
      simp [Distinct, DistinctItems, items, KeyType.Apart, keys]
  validate_same := by
    rintro ⟨first, ok⟩ v h
    rw [Same] at h
    obtain ⟨items', reordered, rfl, hp, h⟩ := h
    rw [← List.append_nil (List.map _ _)] at h
    obtain ⟨rest, rfl, hrest⟩ := scalars_same (K := keys) h
    rw [SameItems] at hrest
    subst hrest
    refine ⟨(false, ok), ?_, ?_⟩
    · have hread : readOk items' = some (false, ok) := by
        unfold readOk
        rw [← List.find?_eq_find?_of_perm hp (by cases first <;> simp [Set.Subsingleton, items, keys])]
        cases first <;> rfl
      exact hread
    · rw [Same]
      refine ⟨_, (items (first, ok)).map (fun x => (x.1, .scalar x.2)), rfl, ?_, ?_⟩
      · cases first with
        | true => exact .swap _ _ _
        | false => exact .refl _
      · cases first <;> simp [items, SameItems, Same]

/-- Encoded payloads, as a decoder reads them. -/
def msgpack : Msgpack keys.toKeyType (Scalar ℚ) (Payload String (Scalar ℚ)) where
  encode v := some v.wire
  decode b := some b
  deterministic := canonical keys.toKeyType
  encode_wire v := congrArg some (wire_wire v)
  decode_encode _ _ h := h.symm
  deterministic_same _ _ hd h := canonical_of_same hd h

def digest : Digest := "sha256:" ++ String.ofList (List.replicate 64 '0')

def wire : Wire String Unit String ℚ (Bool × Bool) (Payload String (Scalar ℚ)) :=
  ⟨keys, msgpack, episodes, fun _ => digest, fun x => decide (0 ≤ x)⟩

/-- A result whose episode was filled in one order or the other. -/
def envelope (first : Bool) : Envelope wire :=
  ⟨⟨"assignment", 1, "lease", "worker", "session", "policy", "policy", digest, digest, 0, digest⟩, (first, true),
    by decide +kernel⟩

end WireSample

/-- The order an episode was filled in does not show in the bytes of its result, which are read back. -/
theorem result_bytes_canonical_sample : ∃ x, resultEnvelopeBytes WireSample.wire (WireSample.envelope true) = some x ∧
    resultEnvelopeBytes WireSample.wire (WireSample.envelope false) = some x ∧
    ∃ a', decodeResultEnvelope WireSample.wire x = some a' ∧ (WireSample.envelope true).Equal a' := by
  obtain ⟨hreturns, hequal, -, hdecodes⟩ := result_bytes_canonical WireSample.wire
  have hbytes : ∃ x, resultEnvelopeBytes WireSample.wire (WireSample.envelope true) = some x := by
    refine (hreturns _).2 ⟨rfl, ?_, fun c _ => ⟨c.wire, rfl⟩⟩
    rw [← canonical_returns]
    exact ⟨_, rfl⟩
  have hsame : (WireSample.envelope true).Equal (WireSample.envelope false) := by
    refine ⟨rfl, ?_⟩
    change Same (.mapping ((WireSample.items (true, true)).map fun x => (x.1, .scalar x.2))) _
    rw [Same]
    refine ⟨_, (WireSample.items (true, true)).map fun x => (x.1, .scalar x.2), rfl, ?_, ?_⟩
    · exact .swap _ _ _
    · simp [WireSample.items, SameItems, Same]
  obtain ⟨x, hx⟩ := hbytes
  obtain ⟨a', ha', heq, -⟩ := hdecodes _ x hx
  exact ⟨x, hx, (hequal _ _ hsame).symm.trans hx, a', ha', heq⟩

end Aether
