import AetherRl.ConversionLocal
/-!
# ConversionSplit — renamed and split tensors, and back

A `Rename` gives back exactly the dicts without its internal name.  A `SplitConcat` cuts a tensor into pieces that lie one
behind the other; where they make up the whole dimension and no part was there before, it gives the dict back.
-/
namespace Aether
namespace Conversion

open Dict

variable {α : Type} [Zero α] {sd sd' : StateDict α}

/-! ## Rename -/

theorem moveKey_none {old new : String} (h : sd.get? old = none) : moveKey old new sd = sd := by rw [moveKey, h]

theorem get?_moveKey {old new : String} {t : Tensor α} (h : sd.get? old = some t) (k : String) :
    (moveKey old new sd).get? k = if k = new then some t else if k = old then none else sd.get? k := by
  rw [moveKey, h, get?_set, get?_erase]

/-- **A `Rename` gives back** exactly the dicts that do not hold the internal name. -/
theorem rename_roundTrip {op : Rename} (hne : op.hf ≠ op.prime) :
    RoundTrip (ConvOp.hfToPrime (.rename op)) (ConvOp.primeToHf (.rename op)) sd ↔ sd.get? op.prime = none := by
  have hback : ∀ s : StateDict α, (moveKey op.prime op.hf s).get? op.prime = none := by
    intro s
    cases hs : s.get? op.prime with
    | none => rw [moveKey_none hs, hs]
    | some t => rw [get?_moveKey hs, if_neg hne.symm, if_pos rfl]
  constructor
  · rintro ⟨d, d', -, h, hs⟩
    have hd : moveKey op.prime op.hf d = d' := by
      rw [ConvOp.primeToHf] at h
      exact Except.ok.inj h
    rw [← hs op.prime, ← hd]
    exact hback d
  · intro hnone
    have hok : (ConvOp.rename op).hfToPrime sd = .ok (moveKey op.hf op.prime sd) := by
      rw [ConvOp.hfToPrime, Rename.hfToPrime]
    have hok' : (ConvOp.rename op).primeToHf (moveKey op.hf op.prime sd) =
        .ok (moveKey op.prime op.hf (moveKey op.hf op.prime sd)) := by
      rw [ConvOp.primeToHf, Rename.primeToHf]
    refine ⟨_, _, hok, hok', fun k => ?_⟩
    cases ht : sd.get? op.hf with
    | none => rw [moveKey_none ht, moveKey_none hnone]
    | some t =>
      have hmoved : (moveKey op.hf op.prime sd).get? op.prime = some t := by rw [get?_moveKey ht, if_pos rfl]
      rw [get?_moveKey hmoved, get?_moveKey ht]
      by_cases hk : k = op.hf
      · rw [if_pos hk, hk, ht]
      · by_cases hp : k = op.prime
        · rw [if_neg hk, if_pos hp, hp, hnone]
        · rw [if_neg hk, if_neg hp, if_neg hp, if_neg hk]

/-! ## SplitConcat -/

/-- **Cut along the sizes**, every part holds its piece and the rest is as before. -/
theorem split_pieces {t : Tensor α} {dim : Nat} : ∀ {keys : List String} {sizes : List Nat} {offset : Nat}
    {sd : StateDict α}, keys.Nodup → sizes.length = keys.length → offset + sizes.sum ≤ t.size dim →
    ∃ sd', SplitConcat.split dim t (keys.zip sizes) offset sd = .ok sd' ∧
      List.Forall₂ (fun key u => sd'.get? key = some u) keys (Tensor.pieces dim t sizes offset) ∧
      ∀ k ∉ keys, sd'.get? k = sd.get? k
  | [], [], _, sd, _, _, _ => ⟨sd, rfl, .nil, fun _ _ => rfl⟩
  | key :: keys, size :: sizes, offset, sd, hnodup, hlen, hfit => by
    rw [List.sum_cons] at hfit
    obtain ⟨hnot, hnodup⟩ := List.nodup_cons.1 hnodup
    have hrest : offset + size + sizes.sum ≤ t.size dim := by omega
    obtain ⟨sd', hok, hparts, hout⟩ := @split_pieces t dim keys sizes (offset + size)
      (sd.set key (t.narrow dim offset (offset + size))) hnodup (Nat.succ.inj hlen) hrest
    refine ⟨sd', ?_, .cons ?_ hparts, fun k hk => ?_⟩
    · rw [List.zip_cons_cons, SplitConcat.split, if_pos (by omega), hok]
    · rw [hout key hnot, get?_set, if_pos rfl]
    · rw [hout k fun h => hk (List.mem_cons_of_mem _ h), get?_set, if_neg fun h : k = key => hk (h ▸ List.mem_cons_self)]

/-- **Popping keys that are all there** returns what they held. -/
theorem popAll_held : ∀ {keys : List String} {us : List (Tensor α)} {sd : StateDict α}, keys.Nodup →
    List.Forall₂ (fun key u => sd.get? key = some u) keys us →
    ∃ sd', SplitConcat.popAll keys sd = .ok (us, sd') ∧ ∀ k, sd'.get? k = if k ∈ keys then none else sd.get? k
  | [], _, sd, _, .nil => ⟨sd, rfl, fun _ => rfl⟩
  | key :: keys, _, sd, hnodup, @List.Forall₂.cons _ _ _ _ u _ us hkey hheld => by
    obtain ⟨hnot, hnodup⟩ := List.nodup_cons.1 hnodup
    have hheld' : List.Forall₂ (fun key' u => (sd.erase key).get? key' = some u) keys us := by
      refine ((List.forall₂_and_left keys us).2 ⟨fun k hk => hk, hheld⟩).imp fun k u h => ?_
      rw [get?_erase, if_neg fun heq : k = key => hnot (heq ▸ h.1), h.2]
    obtain ⟨sd', hok, hget⟩ := popAll_held hnodup hheld'
    refine ⟨sd', ?_, fun k => ?_⟩
    · rw [SplitConcat.popAll, pop, hkey, Checked.ok_bind]
      dsimp only
      rw [hok]
      rfl
    · rw [hget, get?_erase]
      by_cases hk : k = key <;> simp [hk]

/-- **The pieces of a whole tensor concatenate to it**, those of shape `(0,)` passed over or not. -/
theorem torchCat_pieces {t : Tensor α} {dim : Nat} (hdim : dim < t.shape.length) {sizes : List Nat} (hne : sizes ≠ [])
    (hsum : sizes.sum = t.size dim) : torchCat (Tensor.pieces dim t sizes 0) dim = .ok t := by
  have hfit : 0 + sizes.sum ≤ t.size dim := by omega
  have hshape := Tensor.shape_pieces hdim hfit
  have hone : ∀ u ∈ Tensor.pieces dim t sizes 0, u.shape = [0] → t.shape.length = 1 ∧ u.size dim = 0 := by
    intro u hu h0
    obtain ⟨n, -, hs, -⟩ := hshape u hu
    have hlen := congrArg List.length (hs.symm.trans h0)
    rw [List.length_set, List.length_singleton] at hlen
    have hzero : dim = 0 := by omega
    rw [Tensor.size_of_shape h0, hzero]
    exact ⟨hlen, rfl⟩
  have hdrop : ∀ u ∈ Tensor.pieces dim t sizes 0, decide (u.shape ≠ [0]) = false → u.size dim = 0 :=
    fun u hu h => (hone u hu (by simpa using h)).2
  cases hf : (Tensor.pieces dim t sizes 0).filter (fun u => decide (u.shape ≠ [0])) with
  | nil =>
    -- every piece has shape `(0,)`: so has the tensor, and the first piece is it
    obtain ⟨n, sizes, rfl⟩ := List.exists_cons_of_ne_nil hne
    have hall : ∀ u ∈ Tensor.pieces dim t (n :: sizes) 0, u.shape = [0] := by
      intro u hu
      have := List.filter_eq_nil_iff.1 hf u hu
      simpa using this
    have hlen := (hone _ List.mem_cons_self (hall _ List.mem_cons_self)).1
    have hzero : t.size dim = 0 := by
      rw [← hsum, ← Tensor.sum_pieces hdim hfit]
      refine List.sum_eq_zero fun m hm => ?_
      obtain ⟨u, hu, rfl⟩ := List.mem_map.1 hm
      exact (hone u hu (hall u hu)).2
    have ht : t.shape = [0] := by
      obtain ⟨m, hm⟩ := List.length_eq_one_iff.1 hlen
      have hd : dim = 0 := by omega
      rw [Tensor.size_of_shape hm, hd] at hzero
      rw [hm, show m = 0 from hzero]
    rw [torchCat, hf]
    refine congrArg Except.ok (Tensor.ext_inside ((hall _ List.mem_cons_self).trans ht.symm) fun idx hi => ?_)
    rw [hall _ List.mem_cons_self] at hi
    match idx, hi with
    | [], hi => exact hi.elim
    | i :: _, hi => exact absurd hi.1 (Nat.not_lt_zero i)
  | cons u us =>
    have hmem : ∀ v ∈ u :: us, v ∈ Tensor.pieces dim t sizes 0 := fun v hv => List.mem_of_mem_filter (hf ▸ hv)
    have hset : ∀ v ∈ u :: us, ∃ n, v.shape = t.shape.set dim n := fun v hv =>
      (hshape v (hmem v hv)).imp fun n h => h.2.1
    obtain ⟨n, hn⟩ := hset u List.mem_cons_self
    have hrank : ¬ u.shape.length ≤ dim := by
      rw [hn, List.length_set]
      omega
    have hsame : ∀ v ∈ us, v.shape.length = u.shape.length ∧ v.shape.eraseIdx dim = u.shape.eraseIdx dim := by
      intro v hv
      obtain ⟨m, hm⟩ := hset v (List.mem_cons_of_mem _ hv)
      rw [hm, hn, List.length_set, List.length_set, List.eraseIdx_set_eq, List.eraseIdx_set_eq]
      exact ⟨rfl, rfl⟩
    have hcat := Tensor.cat_pieces hdim hsum hdrop (by rw [hf]; exact List.cons_ne_nil u us)
    rw [hf] at hcat
    rw [torchCat, hf]
    dsimp only
    rw [if_neg hrank, if_pos hsame, hcat]

/-- **A `SplitConcat` gives back** a dict that holds no part and whose tensor the sizes make up. -/
theorem splitConcat_roundTrip {op : SplitConcat} {t : Tensor α} {sizes : List Nat} (ht : sd.get? op.combined = some t)
    (hdim : op.dim < t.shape.length) (hsizes : op.sizes (t.size op.dim) = .ok sizes)
    (hlen : sizes.length = op.parts.length) (hsum : sizes.sum = t.size op.dim) (hne : op.parts ≠ [])
    (hnodup : (op.parts.map Prod.fst).Nodup)
    (habs : ∀ part ∈ op.parts, sd.get? part.1 = none) :
    RoundTrip (ConvOp.hfToPrime (.splitConcat op)) (ConvOp.primeToHf (.splitConcat op)) sd := by
  have hne' : sizes ≠ [] := List.ne_nil_of_length_pos (hlen ▸ List.length_pos_of_ne_nil hne)
  have hkeys : sizes.length = (op.parts.map Prod.fst).length := by rw [hlen, List.length_map]
  obtain ⟨d, hd, hparts, hout⟩ := @split_pieces _ _ t op.dim _ sizes 0 (sd.erase op.combined) hnodup hkeys (by omega)
  obtain ⟨e, he, hget⟩ := popAll_held hnodup hparts
  have hok : (ConvOp.splitConcat op).hfToPrime sd = .ok d := by
    rw [ConvOp.hfToPrime, SplitConcat.hfToPrime, ht]
    dsimp only
    rw [if_pos hdim, hsizes, Checked.ok_bind, hd]
  have hthere : (op.parts.all fun part => keyPresent part.1 d) = true := by
    refine List.all_eq_true.2 fun part hp => ?_
    obtain ⟨u, -, hu⟩ := Checked.forall₂_mem_left hparts _ (List.mem_map_of_mem hp)
    rw [keyPresent, hu]
    rfl
  have hok' : (ConvOp.splitConcat op).primeToHf d = .ok (e.set op.combined t) := by
    rw [ConvOp.primeToHf, SplitConcat.primeToHf, if_pos hthere, he, Checked.ok_bind]
    dsimp only
    rw [torchCat_pieces hdim hne' hsum]
    rfl
  refine ⟨d, _, hok, hok', fun k => ?_⟩
  rw [get?_set, hget]
  by_cases hk : k = op.combined
  · rw [if_pos hk, hk, ht]
  · by_cases hp : k ∈ op.parts.map Prod.fst
    · obtain ⟨part, hpart, rfl⟩ := List.mem_map.1 hp
      rw [if_neg hk, if_pos hp, habs part hpart]
    · rw [if_neg hk, if_neg hp, hout k hp, get?_erase, if_neg hk]

end Conversion
end Aether
