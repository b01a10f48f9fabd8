import AetherRl.ConversionStack
/-!
# ConversionExperts — the routed experts of one layer

`routedExpertsOp` names three stacked tensors and three runs of per-expert weights, none of which meet (`Distinct`, shown
for every caller).  The round trip is the identity exactly on dicts of per-expert weights; the fused input leads to the
same internal dict.
-/
namespace Aether
namespace Conversion

open Dict

namespace RoutedExperts

/-- The keys of one projection: its internal name, and its key for every expert. -/
def stackKeys (names : RoutedExperts) (proj : String × String) : Set String :=
  {k | k = names.stacked proj.1 ∨ ∃ e, k = (names.item proj.2).format e}

/-- The keys of the fused input and of what it is split into. -/
def fusedKeys (names : RoutedExperts) : Set String :=
  {names.gateUp, names.downProj, names.stacked "w1", names.stacked "w2", names.stacked "w3"}

/-- The keys the operator covers. -/
def keys (names : RoutedExperts) (fused : Bool) : Set String :=
  {k | (∃ proj ∈ names.projOrder, k ∈ names.stackKeys proj) ∨ fused = true ∧ k ∈ names.fusedKeys}

/-- No name of the layer's experts stands for two things. -/
structure Distinct (names : RoutedExperts) : Prop where
  own : ∀ p ∈ names.projOrder, ∀ q ∈ names.projOrder, ∀ e, names.stacked p.1 ≠ (names.item q.2).format e
  disjoint : names.projOrder.Pairwise fun p q => Disjoint (names.stackKeys p) (names.stackKeys q)
  gateUp : ∀ proj ∈ names.projOrder, names.gateUp ∉ names.stackKeys proj
  downProj : ∀ proj ∈ names.projOrder, names.downProj ∉ names.stackKeys proj
  split : ∀ wn ∈ ["w1", "w2", "w3"], names.gateUp ≠ names.stacked wn ∧ names.downProj ≠ names.stacked wn

/-! ## The names of the models -/

/-- Qwen, GLM and Laguna: one container name on both sides. -/
def container (layer experts : String) : RoutedExperts := ⟨layer, experts, experts, GATE_DOWN_UP, ".weight"⟩

/-- MiniMax: per-expert projections under the literal names. -/
def minimax (layer : String) : RoutedExperts :=
  ⟨layer, "block_sparse_moe.experts", "mlp.experts", [("w1", "w1"), ("w2", "w2"), ("w3", "w3")], ".weight"⟩

variable {names : RoutedExperts}

theorem stacked_inj {a b : String} (h : names.stacked a = names.stacked b) : a = b := by
  have hl := congrArg String.toList h
  simp only [stacked, String.toList_append, List.append_assoc] at hl
  exact String.toList_inj.1 (List.append_cancel_left (List.append_cancel_left (List.append_cancel_left
    (List.append_cancel_left hl))))

/-- **A per-expert key determines its projection**: the numeral ends where the next dot stands. -/
theorem item_inj {a b : String} {e e' : Nat} (h : (names.item a).format e = (names.item b).format e') : a = b := by
  have hl := congrArg String.toList h
  simp only [item, ItemPattern.format, String.toList_append, List.append_assoc] at hl
  have hl := List.append_cancel_left (List.append_cancel_left (List.append_cancel_left (List.append_cancel_left hl)))
  have hdot : ¬ '.'.isDigit = true := by decide
  have hdigit : ∀ n : Nat, ∀ x ∈ (toString n).toList, x.isDigit = true := fun n x hx => Numeral.isDigit_toString hx
  obtain ⟨-, hr⟩ := Numeral.split_inj (p := fun c : Char => c.isDigit = true) hdot hdot (hdigit e) (hdigit e') hl
  exact String.toList_inj.1 (List.append_cancel_right (List.cons.inj hr).2)

theorem disjoint_stackKeys {p q : String × String} (hp : p.1 ≠ q.1) (hq : p.2 ≠ q.2)
    (hpq : ∀ e, names.stacked p.1 ≠ (names.item q.2).format e)
    (hqp : ∀ e, names.stacked q.1 ≠ (names.item p.2).format e) : Disjoint (names.stackKeys p) (names.stackKeys q) := by
  refine Set.disjoint_left.2 fun k hk hk' => ?_
  rcases hk with rfl | ⟨e, rfl⟩
  · rcases hk' with h | ⟨e, h⟩
    · exact hp (stacked_inj h)
    · exact hpq e h
  · rcases hk' with h | ⟨e', h⟩
    · exact hqp e h.symm
    · exact hq (item_inj h)

/-- A name behind the container that starts with no digit is no per-expert key. -/
theorem behind_ne_item (names : RoutedExperts) {name hfProj : String} {c : Char} {cs : List Char}
    (hname : name.toList = c :: cs) (hc : c.isDigit = false) (e : Nat) :
    names.layer ++ "." ++ names.hfExperts ++ "." ++ name ≠ (names.item hfProj).format e := by
  intro h
  have hl := congrArg String.toList h
  simp only [item, ItemPattern.format, String.toList_append, List.append_assoc] at hl
  have hl := List.append_cancel_left (List.append_cancel_left (List.append_cancel_left (List.append_cancel_left hl)))
  rw [hname] at hl
  cases hd : (toString e).toList with
  | nil => exact absurd ((Numeral.toList_toString e).symm.trans hd) Nat.toDigits_ne_nil
  | cons d ds =>
    rw [hd] at hl
    have := Numeral.isDigit_toString (n := e) (c := d) (hd ▸ List.mem_cons_self)
    rw [(List.cons.inj hl).1, this] at hc
    cases hc

theorem gateUp_eq (names : RoutedExperts) :
    names.gateUp = names.layer ++ "." ++ names.hfExperts ++ "." ++ "gate_up_proj" := by
  have hdot : ".gate_up_proj" = "." ++ "gate_up_proj" := rfl
  rw [gateUp, hdot, String.append_assoc, String.append_assoc, String.append_assoc, String.append_assoc, String.append_assoc]

theorem downProj_eq (names : RoutedExperts) :
    names.downProj = names.layer ++ "." ++ names.hfExperts ++ "." ++ "down_proj" := by
  have hdot : ".down_proj" = "." ++ "down_proj" := rfl
  rw [downProj, hdot, String.append_assoc, String.append_assoc, String.append_assoc, String.append_assoc, String.append_assoc]

/-- **Names of two containers that tell internal from checkpoint keys are distinct.** -/
theorem distinct_of (hwn : ∀ proj ∈ names.projOrder, proj.1 ∈ ["w1", "w2", "w3"])
    (horder : names.projOrder.Pairwise fun p q => p.1 ≠ q.1 ∧ p.2 ≠ q.2)
    (hown : ∀ wn ∈ ["w1", "w2", "w3"], ∀ hfProj e, names.stacked wn ≠ (names.item hfProj).format e)
    (hside : ∀ wn ∈ ["w1", "w2", "w3"], ∀ name ∈ ["gate_up_proj", "down_proj"],
      names.layer ++ "." ++ names.hfExperts ++ "." ++ name ≠ names.stacked wn) : names.Distinct := by
  have hfused : ∀ name ∈ ["gate_up_proj", "down_proj"], ∀ proj ∈ names.projOrder,
      names.layer ++ "." ++ names.hfExperts ++ "." ++ name ∉ names.stackKeys proj := by
    rintro name hname proj hp (h | ⟨e, h⟩)
    · exact hside _ (hwn proj hp) name hname h
    · have hletter : ∃ c cs, name.toList = c :: cs ∧ c.isDigit = false := by
        rcases List.mem_cons.1 hname with rfl | hname
        · exact ⟨'g', _, rfl, rfl⟩
        · rw [List.mem_singleton.1 hname]
          exact ⟨'d', _, rfl, rfl⟩
      obtain ⟨c, cs, hcs, hc⟩ := hletter
      exact behind_ne_item names hcs hc e h
  refine ⟨fun proj hp _ _ e => hown _ (hwn proj hp) _ e, ?_, fun proj hp => ?_, fun proj hp => ?_, fun wn hw => ⟨?_, ?_⟩⟩
  · exact horder.imp_of_mem fun {p q} hp hq h =>
      disjoint_stackKeys h.1 h.2 (hown _ (hwn p hp) _) (hown _ (hwn q hq) _)
  · rw [gateUp_eq]
    exact hfused _ (by decide) proj hp
  · rw [downProj_eq]
    exact hfused _ (by decide) proj hp
  · rw [gateUp_eq]
    exact hside wn hw _ (by decide)
  · rw [downProj_eq]
    exact hside wn hw _ (by decide)

theorem container_distinct (layer experts : String) : (container layer experts).Distinct := by
  have hletter : ∀ wn ∈ ["w1", "w2", "w3"], ∃ cs, wn.toList = 'w' :: cs := by simp
  have hname : ∀ wn ∈ ["w1", "w2", "w3"], ∀ name ∈ ["gate_up_proj", "down_proj"], name ≠ wn := by decide
  apply distinct_of
  · show ∀ proj ∈ GATE_DOWN_UP, proj.1 ∈ ["w1", "w2", "w3"]
    decide
  · show GATE_DOWN_UP.Pairwise fun p q => p.1 ≠ q.1 ∧ p.2 ≠ q.2
    decide
  · intro wn hw hfProj e
    obtain ⟨cs, hcs⟩ := hletter wn hw
    exact behind_ne_item (container layer experts) hcs rfl e
  · intro wn hw name hn h
    exact hname wn hw name hn (@stacked_inj (container layer experts) _ _ h)

theorem minimax_distinct (layer : String) : (minimax layer).Distinct := by
  have hside : ∀ wn s : String, (minimax layer).stacked wn ≠ layer ++ ("." ++ ("block_sparse_moe.experts" ++ s)) := by
    intro wn s h
    have hl := congrArg String.toList h
    simp only [stacked, minimax, String.toList_append, List.append_assoc] at hl
    have hl := List.append_cancel_left (List.append_cancel_left hl)
    exact absurd (List.cons.inj hl).1 (by decide)
  apply distinct_of
  · show ∀ proj ∈ [("w1", "w1"), ("w2", "w2"), ("w3", "w3")], proj.1 ∈ ["w1", "w2", "w3"]
    decide
  · show [("w1", "w1"), ("w2", "w2"), ("w3", "w3")].Pairwise fun p q => p.1 ≠ q.1 ∧ p.2 ≠ q.2
    decide
  · intro wn _ hfProj e h
    simp only [item, ItemPattern.format, String.append_assoc] at h
    exact hside wn _ h
  · intro wn _ name _ h
    simp only [String.append_assoc] at h
    exact hside wn _ h.symm

end RoutedExperts

open Conversion.RoutedExperts

/-! ## The stacks -/

section Stacks

variable {α : Type} [Zero α] {names : RoutedExperts} {sd sd' : StateDict α}

/-- The `Stack` of one projection. -/
def stackOp (names : RoutedExperts) (proj : String × String) : Stack :=
  ⟨names.stacked proj.1, names.item proj.2, 0, 0⟩

theorem stackOps_map (names : RoutedExperts) :
    (names.stackOps.map .stack : List (ConvOp α)) = names.projOrder.map fun proj => .stack (stackOp names proj) :=
  List.map_map

theorem covers_stackOp (proj : String × String) :
    Covers (.stack (stackOp names proj) : ConvOp α) (names.stackKeys proj) :=
  covers_stack (Or.inl rfl) fun e => Or.inr ⟨e, rfl⟩

/-- The experts of each projection have one shape, and no internal key is there. -/
structure PerExpert (names : RoutedExperts) (sd : StateDict α) : Prop where
  internal : ∀ proj ∈ names.projOrder, sd.get? (names.stacked proj.1) = none
  shape : ∀ proj ∈ names.projOrder, ∀ items, Run (names.item proj.2) 0 sd items →
    ∀ t ∈ items, ∀ u ∈ items, u.shape = t.shape

theorem stackable_zero {items : List (Tensor α)} : Stackable 0 items ↔ ∀ t ∈ items, ∀ u ∈ items, u.shape = t.shape :=
  forall₂_congr fun t _ => and_iff_right (Nat.zero_le t.shape.length)

theorem stacks_roundTrip (h : names.Distinct) :
    RoundTrip (applyHfToPrime (names.stackOps.map .stack)) (applyPrimeToHf (names.stackOps.map .stack)) sd ↔
      PerExpert names sd := by
  have hcov : List.Forall₂ Covers (names.projOrder.map fun proj => (.stack (stackOp names proj) : ConvOp α))
      (names.projOrder.map names.stackKeys) := by
    rw [List.forall₂_map_left_iff, List.forall₂_map_right_iff, List.forall₂_same]
    exact fun proj _ => covers_stackOp proj
  have hone : ∀ proj ∈ names.projOrder, ∀ items, Run (names.item proj.2) 0 sd items →
      (RoundTrip (ConvOp.hfToPrime (.stack (stackOp names proj))) (ConvOp.primeToHf (.stack (stackOp names proj))) sd ↔
        sd.get? (names.stacked proj.1) = none ∧ Stackable 0 items) :=
    fun proj hp items hrun => @stack_roundTrip _ _ _ (stackOp names proj) rfl (h.own proj hp proj hp) items hrun
  rw [stackOps_map, chain_roundTrip hcov (List.pairwise_map.2 h.disjoint), List.forall_mem_map]
  constructor
  · intro hall
    refine ⟨fun proj hp => ?_, fun proj hp items hrun => ?_⟩
    · obtain ⟨items, hrun⟩ := exists_run (names.item proj.2) sd
      exact ((hone proj hp items hrun).1 (hall proj hp)).1
    · exact stackable_zero.1 ((hone proj hp items hrun).1 (hall proj hp)).2
  · intro hper proj hp
    obtain ⟨items, hrun⟩ := exists_run (names.item proj.2) sd
    exact (hone proj hp items hrun).2 ⟨hper.internal proj hp, stackable_zero.2 (hper.shape proj hp items hrun)⟩

/-- **Forward, each projection's run is under its internal name**, and under no key of its own. -/
theorem stacks_forward (h : names.Distinct) (hok : applyHfToPrime (names.stackOps.map .stack) sd = .ok sd')
    {proj : String × String} (hp : proj ∈ names.projOrder) {items : List (Tensor α)}
    (hrun : Run (names.item proj.2) 0 sd items) : ∀ k ∈ names.stackKeys proj, sd'.get? k =
      if k = names.stacked proj.1 ∧ items ≠ [] then some (Tensor.stack 0 items)
      else if ∃ e < items.length, k = (names.item proj.2).format e then none else sd.get? k := by
  rw [stackOps_map] at hok
  obtain ⟨s, hs, ha⟩ := chain_forward (fun proj _ => covers_stackOp proj) h.disjoint hok proj hp
  intro k hk
  rw [ha k hk]
  exact ((stackOp names proj).hfToPrime_eq_ok hrun hs).2 k

theorem stacks_forward_isOk (h : names.Distinct) (hshape : ∀ proj ∈ names.projOrder, ∀ items,
    Run (names.item proj.2) 0 sd items → ∀ t ∈ items, ∀ u ∈ items, u.shape = t.shape) :
    ∃ sd', applyHfToPrime (names.stackOps.map .stack) sd = .ok sd' := by
  rw [stackOps_map]
  refine chain_forward_isOk (fun proj _ => covers_stackOp proj) h.disjoint fun proj hp => ?_
  obtain ⟨items, hrun⟩ := exists_run (names.item proj.2) sd
  exact (stackOp names proj).hfToPrime_isOk hrun fun _ => stackable_zero.2 (hshape proj hp items hrun)

/-- **Backward, each expert's weights are under its own key**, and nothing under the internal name. -/
theorem stacks_backward (h : names.Distinct) (hok : applyPrimeToHf (names.stackOps.map .stack) sd = .ok sd')
    {proj : String × String} (hp : proj ∈ names.projOrder) : sd'.get? (names.stacked proj.1) = none ∧
      ∀ t, sd.get? (names.stacked proj.1) = some t → ∀ e < t.size 0,
        sd'.get? ((names.item proj.2).format e) = some (t.select 0 e) := by
  rw [stackOps_map] at hok
  obtain ⟨s, hs, ha⟩ := chain_backward (fun proj _ => covers_stackOp proj) h.disjoint hok proj hp
  have hs : (stackOp names proj).primeToHf sd = .ok s := hs
  refine ⟨(ha _ (Or.inl rfl)).trans ((stackOp names proj).primeToHf_stacked (h.own proj hp proj hp) hs), fun t ht e he => ?_⟩
  rw [ha _ (Or.inr ⟨e, rfl⟩)]
  rw [(stackOp names proj).primeToHf_some ht] at hs
  split at hs
  · cases hs
    have := (stackOp names proj).get?_unstack t (sd.erase (stackOp names proj).stacked) he
    rwa [show (stackOp names proj).indexOffset + e = e from Nat.zero_add e] at this
  · exact nomatch hs

theorem stacks_backward_isOk (h : names.Distinct) : (∃ sd', applyPrimeToHf (names.stackOps.map .stack) sd = .ok sd') ↔
    ∀ proj ∈ names.projOrder, ∀ t, sd.get? (names.stacked proj.1) = some t → t.shape ≠ [] := by
  have hone : ∀ proj ∈ names.projOrder, (∃ s, ConvOp.primeToHf (.stack (stackOp names proj)) sd = .ok s) ↔
      ∀ t, sd.get? (names.stacked proj.1) = some t → t.shape ≠ [] := by
    intro proj _
    change (∃ s, (stackOp names proj).primeToHf sd = .ok s) ↔ _
    cases hget : sd.get? (names.stacked proj.1) with
    | none => exact iff_of_true ⟨sd, (stackOp names proj).primeToHf_none hget⟩ fun t ht => nomatch ht
    | some t =>
      rw [(stackOp names proj).primeToHf_some hget]
      by_cases hrank : 0 < t.shape.length
      · refine iff_of_true ⟨_, if_pos hrank⟩ fun u hu => ?_
        cases hu
        exact List.ne_nil_of_length_pos hrank
      · refine iff_of_false (fun ⟨s, hs⟩ => ?_) fun hall => hrank (List.length_pos_of_ne_nil (hall t rfl))
        rw [show (if (stackOp names proj).dim < t.shape.length then
            .ok ((stackOp names proj).unstack t (sd.erase (stackOp names proj).stacked)) else .error .indexError :
            Except ConvError (StateDict α)) = .error .indexError from if_neg hrank] at hs
        exact nomatch hs
  rw [stackOps_map]
  constructor
  · rintro ⟨sd', hok⟩ proj hp
    obtain ⟨s, hs, -⟩ := chain_backward (fun proj _ => covers_stackOp proj) h.disjoint hok proj hp
    exact (hone proj hp).1 ⟨s, hs⟩
  · intro hall
    exact chain_backward_isOk (fun proj _ => covers_stackOp proj) h.disjoint fun proj hp =>
      (hone proj hp).2 (hall proj hp)

end Stacks

end Conversion
end Aether
