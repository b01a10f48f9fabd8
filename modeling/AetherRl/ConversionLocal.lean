import AetherRl.ConversionOps
/-!
# ConversionLocal — the keys an operator covers

An operator covers a set of keys when both its directions are local to it.  Each kind of operator covers the keys it
names; a chain of operators that cover disjoint keys round-trips exactly the state dicts that each of them round-trips
(`chain_roundTrip`).
-/
namespace Aether
namespace Conversion

open Dict

variable {α : Type} [Zero α] {K : Set String} {sd sd' : StateDict α}

/-- The operator changes and consults the keys of `K` alone, in either direction. -/
structure Covers (op : ConvOp α) (K : Set String) : Prop where
  forward : Local K op.hfToPrime
  backward : Local K op.primeToHf

theorem Covers.mono {op : ConvOp α} {K' : Set String} (h : Covers op K) (hK : K ⊆ K') : Covers op K' :=
  ⟨h.forward.mono hK, h.backward.mono hK⟩

/-! ## Chains -/

theorem applyHfToPrime_nil : applyHfToPrime ([] : List (ConvOp α)) = fun sd => .ok sd := by
  funext sd
  rw [applyHfToPrime]

theorem applyHfToPrime_cons (op : ConvOp α) (ops : List (ConvOp α)) :
    applyHfToPrime (op :: ops) = fun sd => op.hfToPrime sd >>= applyHfToPrime ops := by
  funext sd
  rw [applyHfToPrime]

theorem applyPrimeToHf_nil : applyPrimeToHf ([] : List (ConvOp α)) = fun sd => .ok sd := by
  funext sd
  rw [applyPrimeToHf]

theorem applyPrimeToHf_cons (op : ConvOp α) (ops : List (ConvOp α)) :
    applyPrimeToHf (op :: ops) = fun sd => applyPrimeToHf ops sd >>= op.primeToHf := by
  funext sd
  rw [applyPrimeToHf]

theorem chain_covers : ∀ {ops : List (ConvOp α)}, (∀ op ∈ ops, Covers op K) →
    Local K (applyHfToPrime ops) ∧ Local K (applyPrimeToHf ops)
  | [], _ => by
    rw [applyHfToPrime_nil, applyPrimeToHf_nil]
    exact ⟨Local.pure, Local.pure⟩
  | op :: ops, h => by
    have hop : Covers op K := h op List.mem_cons_self
    have ih := chain_covers fun op hin => h op (List.mem_cons_of_mem _ hin)
    rw [applyHfToPrime_cons, applyPrimeToHf_cons]
    exact ⟨hop.forward.bind ih.1, ih.2.bind hop.backward⟩

theorem forall₂_covers : ∀ {ops : List (ConvOp α)} {Ks : List (Set String)}, List.Forall₂ Covers ops Ks →
    ∀ op ∈ ops, Covers op {k | ∃ K ∈ Ks, k ∈ K}
  | _, _, .nil => fun op hin => nomatch hin
  | _, _, .cons (a := op) (b := K) h hs => by
    intro op' hin
    rcases List.mem_cons.1 hin with rfl | hin
    · exact h.mono fun k hk => ⟨K, List.mem_cons_self, hk⟩
    · exact (forall₂_covers hs op' hin).mono fun k ⟨K', hK, hk⟩ => ⟨K', List.mem_cons_of_mem _ hK, hk⟩

/-- **A chain over disjoint keys** gives a state dict back exactly where each of its operators does. -/
theorem chain_roundTrip : ∀ {ops : List (ConvOp α)} {Ks : List (Set String)}, List.Forall₂ Covers ops Ks →
    Ks.Pairwise Disjoint → (RoundTrip (applyHfToPrime ops) (applyPrimeToHf ops) sd ↔
      ∀ op ∈ ops, RoundTrip op.hfToPrime op.primeToHf sd)
  | _, _, .nil, _ => by
    rw [applyHfToPrime_nil, applyPrimeToHf_nil]
    exact iff_of_true ⟨sd, sd, rfl, rfl, Same.refl sd⟩ fun op hin => nomatch hin
  | _, _, @List.Forall₂.cons _ _ _ _ K _ Ks h hs, hd => by
    obtain ⟨hK, hd⟩ := List.pairwise_cons.1 hd
    have hdisj : Disjoint K {k | ∃ K' ∈ Ks, k ∈ K'} :=
      Set.disjoint_left.2 fun k hk ⟨K', hK', hk'⟩ => Set.disjoint_left.1 (hK K' hK') hk hk'
    obtain ⟨hF, hG⟩ := chain_covers (forall₂_covers hs)
    rw [applyHfToPrime_cons, applyPrimeToHf_cons, roundTrip_comp hdisj h.forward h.backward hF hG,
      chain_roundTrip hs hd, List.forall_mem_cons]

section Members

variable {ι : Type} {op : ι → ConvOp α} {keys : ι → Set String}

theorem members_cover {ps : List ι} (h : ∀ p ∈ ps, Covers (op p) (keys p)) :
    ∀ o ∈ ps.map op, Covers o {k | ∃ p ∈ ps, k ∈ keys p} := by
  intro o ho
  obtain ⟨p, hp, rfl⟩ := List.mem_map.1 ho
  exact (h p hp).mono fun k hk => ⟨p, hp, hk⟩

theorem disjoint_members {ps : List ι} (h : ∀ p ∈ ps, Disjoint K (keys p)) :
    Disjoint K {k | ∃ p ∈ ps, k ∈ keys p} :=
  Set.disjoint_left.2 fun _ hk ⟨p, hp, hk'⟩ => Set.disjoint_left.1 (h p hp) hk hk'

/-- **Forward, every operator of a chain over disjoint keys does its own**, as from the start. -/
theorem chain_forward : ∀ {ps : List ι} {sd' : StateDict α}, (∀ p ∈ ps, Covers (op p) (keys p)) →
    ps.Pairwise (fun p q => Disjoint (keys p) (keys q)) → applyHfToPrime (ps.map op) sd = .ok sd' →
    ∀ p ∈ ps, ∃ s, (op p).hfToPrime sd = .ok s ∧ AgreeOn (keys p) sd' s
  | p :: ps, sd', hc, hd, hok, q, hq => by
    obtain ⟨hdp, hd⟩ := List.pairwise_cons.1 hd
    have hrest : ∀ p ∈ ps, Covers (op p) (keys p) := fun p hp => hc p (List.mem_cons_of_mem _ hp)
    have hcov := chain_covers (members_cover hrest)
    rw [List.map_cons, applyHfToPrime_cons] at hok
    obtain ⟨hop, e, he, hin⟩ :=
      bind_eq_ok_disjoint (disjoint_members hdp) (hc p List.mem_cons_self).forward hcov.1 hok
    rcases List.mem_cons.1 hq with rfl | hq
    · exact hop
    · obtain ⟨s, hs, ha⟩ := chain_forward hrest hd he q hq
      have hsub : keys q ⊆ {k | ∃ p ∈ ps, k ∈ keys p} := fun k hk => ⟨q, hq, hk⟩
      exact ⟨s, hs, (hin.mono hsub).trans ha⟩

theorem chain_forward_isOk : ∀ {ps : List ι}, (∀ p ∈ ps, Covers (op p) (keys p)) →
    ps.Pairwise (fun p q => Disjoint (keys p) (keys q)) → (∀ p ∈ ps, ∃ s, (op p).hfToPrime sd = .ok s) →
    ∃ sd', applyHfToPrime (ps.map op) sd = .ok sd'
  | [], _, _, _ => ⟨sd, by rw [List.map_nil, applyHfToPrime_nil]⟩
  | p :: ps, hc, hd, hok => by
    obtain ⟨hdp, hd⟩ := List.pairwise_cons.1 hd
    have hrest : ∀ p ∈ ps, Covers (op p) (keys p) := fun p hp => hc p (List.mem_cons_of_mem _ hp)
    have ih := chain_forward_isOk hrest hd fun p hp => hok p (List.mem_cons_of_mem _ hp)
    rw [List.map_cons, applyHfToPrime_cons]
    exact bind_isOk_disjoint (disjoint_members hdp) (hc p List.mem_cons_self).forward
      (chain_covers (members_cover hrest)).1 (hok p List.mem_cons_self) ih

/-- **Backward too.** -/
theorem chain_backward : ∀ {ps : List ι} {sd' : StateDict α}, (∀ p ∈ ps, Covers (op p) (keys p)) →
    ps.Pairwise (fun p q => Disjoint (keys p) (keys q)) → applyPrimeToHf (ps.map op) sd = .ok sd' →
    ∀ p ∈ ps, ∃ s, (op p).primeToHf sd = .ok s ∧ AgreeOn (keys p) sd' s
  | p :: ps, sd', hc, hd, hok, q, hq => by
    obtain ⟨hdp, hd⟩ := List.pairwise_cons.1 hd
    have hrest : ∀ p ∈ ps, Covers (op p) (keys p) := fun p hp => hc p (List.mem_cons_of_mem _ hp)
    have hcov := chain_covers (members_cover hrest)
    rw [List.map_cons, applyPrimeToHf_cons] at hok
    obtain ⟨⟨e, he, hin⟩, hop⟩ :=
      bind_eq_ok_disjoint (disjoint_members hdp).symm hcov.2 (hc p List.mem_cons_self).backward hok
    rcases List.mem_cons.1 hq with rfl | hq
    · exact hop
    · obtain ⟨s, hs, ha⟩ := chain_backward hrest hd he q hq
      have hsub : keys q ⊆ {k | ∃ p ∈ ps, k ∈ keys p} := fun k hk => ⟨q, hq, hk⟩
      exact ⟨s, hs, (hin.mono hsub).trans ha⟩

theorem chain_backward_isOk : ∀ {ps : List ι}, (∀ p ∈ ps, Covers (op p) (keys p)) →
    ps.Pairwise (fun p q => Disjoint (keys p) (keys q)) → (∀ p ∈ ps, ∃ s, (op p).primeToHf sd = .ok s) →
    ∃ sd', applyPrimeToHf (ps.map op) sd = .ok sd'
  | [], _, _, _ => ⟨sd, by rw [List.map_nil, applyPrimeToHf_nil]⟩
  | p :: ps, hc, hd, hok => by
    obtain ⟨hdp, hd⟩ := List.pairwise_cons.1 hd
    have hrest : ∀ p ∈ ps, Covers (op p) (keys p) := fun p hp => hc p (List.mem_cons_of_mem _ hp)
    have ih := chain_backward_isOk hrest hd fun p hp => hok p (List.mem_cons_of_mem _ hp)
    rw [List.map_cons, applyPrimeToHf_cons]
    exact bind_isOk_disjoint (disjoint_members hdp).symm (chain_covers (members_cover hrest)).2
      (hc p List.mem_cons_self).backward ih (hok p List.mem_cons_self)

end Members

/-! ## Each kind of operator -/

theorem local_moveKey {old new : String} (ho : old ∈ K) (hn : new ∈ K) :
    Local K (fun sd : StateDict α => (.ok (moveKey old new sd) : Except ConvError (StateDict α))) := by
  refine Local.lookup ho Local.pure (fun t => (Local.erase ho).bind (Local.set hn t)) (fun sd h => ?_) fun sd t h => ?_
  · rw [moveKey, h]
  · rw [moveKey, h]
    rfl

theorem covers_rename {op : Rename} (hh : op.hf ∈ K) (hp : op.prime ∈ K) : Covers (.rename op : ConvOp α) K where
  forward := local_moveKey hh hp
  backward := local_moveKey hp hh

theorem get?_drop (op : Drop) (sd : StateDict α) (k : String) :
    (op.drop sd).get? k = if op.hits k then none else sd.get? k := by
  rw [Drop.drop, get?_foldl_erase]
  by_cases hk : k ∈ sd.keys
  · simp only [List.mem_filter, hk, true_and]
  · have hnone : sd.get? k = none := by simpa [mem_keys] using hk
    simp [hk, hnone]

theorem covers_drop {op : Drop} (h : ∀ k, op.hits k → k ∈ K) : Covers (.drop op : ConvOp α) K := by
  have hdrop : Local K (fun sd : StateDict α => (.ok (op.drop sd) : Except ConvError (StateDict α))) :=
    Local.of_get? (get?_drop op) fun k hk v => if_neg fun hit => hk (h k hit)
  exact ⟨hdrop, hdrop⟩

theorem covers_sequence {ops : List (ConvOp α)} (h : ∀ op ∈ ops, Covers op K) : Covers (.sequence ops) K where
  forward := (chain_covers h).1
  backward := (chain_covers h).2

theorem covers_conditional {name : String} {then_ else_ : List (ConvOp α)} (hn : name ∈ K)
    (ht : ∀ op ∈ then_, Covers op K) (he : ∀ op ∈ else_, Covers op K) :
    Covers (.conditional (keyPresent name) then_ else_) K where
  forward := Local.ite (fun ha => congrArg Option.isSome (ha name hn)) (chain_covers ht).1 (chain_covers he).1
  backward := Local.ite (fun ha => congrArg Option.isSome (ha name hn)) (chain_covers ht).2 (chain_covers he).2

theorem local_split {t : Tensor α} {dim : Nat} : ∀ {parts : List (String × Nat)} {offset : Nat},
    (∀ part ∈ parts, part.1 ∈ K) → Local K (SplitConcat.split dim t parts offset)
  | [], _, _ => Local.pure
  | (key, size) :: parts, offset, h => by
    have ih : Local K (SplitConcat.split dim t parts (offset + size)) :=
      local_split fun part hin => h part (List.mem_cons_of_mem _ hin)
    by_cases hfit : offset + size ≤ t.size dim
    · have hset := (Local.set (h _ List.mem_cons_self) (t.narrow dim offset (offset + size))).bind ih
      refine cast (congrArg (Local K) (funext fun sd => ?_)) hset
      rw [SplitConcat.split, if_pos hfit]
      rfl
    · refine cast (congrArg (Local K) (funext fun sd => ?_)) (Local.error (K := K) ConvError.runtimeError)
      rw [SplitConcat.split, if_neg hfit]

/-- Popping keys of `K` and going on with what they held. -/
theorem local_popAll : ∀ {keys : List String} {g : List (Tensor α) → StateDict α → Except ConvError (StateDict α)},
    (∀ key ∈ keys, key ∈ K) → (∀ tensors, Local K (g tensors)) →
    Local K (fun sd => SplitConcat.popAll keys sd >>= fun r => g r.1 r.2)
  | [], _, _, hg => hg []
  | key :: keys, g, h, hg => by
    have hkey : key ∈ K := h key List.mem_cons_self
    have ih : ∀ t, Local K (fun sd => SplitConcat.popAll keys sd >>= fun r => g (t :: r.1) r.2) :=
      fun t => local_popAll (fun key' hin => h key' (List.mem_cons_of_mem _ hin)) fun ts => hg (t :: ts)
    refine Local.lookup hkey (Local.error (.keyError key)) (fun t => (Local.erase hkey).bind (ih t))
      (fun sd hd => ?_) fun sd t hd => ?_
    · rw [SplitConcat.popAll, pop, hd]
      rfl
    · rw [SplitConcat.popAll, pop, hd]
      simp only [Checked.ok_bind, bind_assoc, pure_bind]

theorem covers_splitConcat {op : SplitConcat} (hc : op.combined ∈ K) (hp : ∀ part ∈ op.parts, part.1 ∈ K) :
    Covers (.splitConcat op : ConvOp α) K where
  forward := by
    have hparts : ∀ sizes : List Nat, ∀ part ∈ (op.parts.map Prod.fst).zip sizes, part.1 ∈ K := by
      intro sizes part hin
      obtain ⟨part', hin', heq⟩ := List.mem_map.1 (List.of_mem_zip hin).1
      exact heq ▸ hp part' hin'
    have hcut : ∀ t : Tensor α, Local K (fun sd => if op.dim < t.shape.length then op.sizes (t.size op.dim) >>= fun sizes =>
        SplitConcat.split op.dim t ((op.parts.map Prod.fst).zip sizes) 0 sd else .error .indexError) := by
      intro t
      by_cases hrank : op.dim < t.shape.length
      · simp only [if_pos hrank]
        cases op.sizes (t.size op.dim) with
        | error e => exact Local.error e
        | ok sizes => exact local_split (hparts sizes)
      · simp only [if_neg hrank]
        exact Local.error _
    refine Local.lookup hc Local.pure (fun t => (Local.erase hc).bind (hcut t)) (fun sd h => ?_) fun sd t h => ?_
    · rw [ConvOp.hfToPrime, SplitConcat.hfToPrime, h]
    · rw [ConvOp.hfToPrime, SplitConcat.hfToPrime, h]
      rfl
  backward := by
    have hall : ∀ {d₁ d₂ : StateDict α}, AgreeOn K d₁ d₂ →
        (op.parts.all fun part => keyPresent part.1 d₁) = op.parts.all fun part => keyPresent part.1 d₂ := by
      intro d₁ d₂ ha
      refine Bool.eq_iff_iff.2 ?_
      rw [List.all_eq_true, List.all_eq_true]
      refine forall₂_congr fun part hin => ?_
      rw [keyPresent, keyPresent, ha part.1 (hp part hin)]
    have hcat : ∀ tensors : List (Tensor α), Local K (fun sd => torchCat tensors op.dim >>= fun combined =>
        .ok (sd.set op.combined combined)) := by
      intro tensors
      cases torchCat tensors op.dim with
      | error e => exact Local.error e
      | ok t => exact Local.set hc t
    refine Local.ite hall (local_popAll (fun key hin => ?_) hcat) Local.pure
    obtain ⟨part, hpart, rfl⟩ := List.mem_map.1 hin
    exact hp part hpart

end Conversion
end Aether
