import AetherRl.ConversionExperts
import AetherRl.ConversionSplit
import Mathlib.Algebra.Group.Int.Defs
/-!
# ConversionSound — expert weight conversion is invertible

What `routedExpertsOp` covers, what it takes to the internal form and gives back, and what the fused input amounts to.
-/
namespace Aether
namespace Conversion

open Dict Conversion.RoutedExperts

variable {α : Type} [Zero α] {names : RoutedExperts} {fused : Bool} {sd sd' : StateDict α}

theorem routed_unfused : (routedExpertsOp names false : ConvOp α) = .sequence (names.stackOps.map .stack) := rfl

theorem routed_fused : (routedExpertsOp names true : ConvOp α) =
    .conditional (keyPresent names.gateUp) names.fusedThen (names.stackOps.map .stack) := rfl

/-- Without the fused key the operator is its stacks. -/
theorem routed_hfToPrime (hg : fused = true → sd.get? names.gateUp = none) :
    (routedExpertsOp names fused).hfToPrime sd = applyHfToPrime (names.stackOps.map .stack) sd := by
  cases fused with
  | false => rw [routed_unfused, ConvOp.hfToPrime]
  | true => rw [routed_fused, ConvOp.hfToPrime, keyPresent, hg rfl, Option.isSome_none, if_neg Bool.false_ne_true]

theorem routed_primeToHf (hg : fused = true → sd.get? names.gateUp = none) :
    (routedExpertsOp names fused).primeToHf sd = applyPrimeToHf (names.stackOps.map .stack) sd := by
  cases fused with
  | false => rw [routed_unfused, ConvOp.primeToHf]
  | true => rw [routed_fused, ConvOp.primeToHf, keyPresent, hg rfl, Option.isSome_none, if_neg Bool.false_ne_true]

/-! ## The keys outside -/

theorem stacks_cover : ∀ op ∈ (names.stackOps.map .stack : List (ConvOp α)), Covers op (names.keys fused) := by
  intro op hop
  rw [stackOps_map] at hop
  obtain ⟨proj, hp, rfl⟩ := List.mem_map.1 hop
  exact (covers_stackOp proj).mono fun k hk => Or.inl ⟨proj, hp, hk⟩

/-- **The operator covers its names**: it changes and consults no other key, in either direction. -/
theorem routed_covers : Covers (routedExpertsOp names fused : ConvOp α) (names.keys fused) := by
  cases fused with
  | false => exact covers_sequence stacks_cover
  | true =>
    have hin : ∀ k ∈ names.fusedKeys, k ∈ names.keys true := fun k hk => Or.inr ⟨rfl, hk⟩
    refine covers_conditional (hin _ (Or.inl rfl)) (fun op hop => ?_) stacks_cover
    rcases List.mem_cons.1 hop with rfl | hop
    · refine covers_splitConcat (hin _ (Or.inl rfl)) fun part hpart => hin _ ?_
      rcases List.mem_cons.1 hpart with rfl | hpart
      · exact Or.inr (Or.inr (Or.inl rfl))
      · rw [List.mem_singleton.1 hpart]
        exact Or.inr (Or.inr (Or.inr (Or.inr rfl)))
    · rw [List.mem_singleton.1 hop]
      exact covers_rename (hin _ (Or.inr (Or.inl rfl))) (hin _ (Or.inr (Or.inr (Or.inr (Or.inl rfl)))))

/-- The stacks leave the fused key alone. -/
theorem gateUp_not_mem (h : names.Distinct) : names.gateUp ∉ names.keys false := by
  rintro (⟨proj, hp, hk⟩ | ⟨hf, -⟩)
  · exact h.gateUp proj hp hk
  · exact nomatch hf

theorem stacks_local : Local (names.keys false) (applyHfToPrime (names.stackOps.map .stack : List (ConvOp α))) ∧
    Local (names.keys false) (applyPrimeToHf (names.stackOps.map .stack : List (ConvOp α))) :=
  chain_covers stacks_cover

/-! ## The fused input -/

/-- The split of the fused weights into two equal parts. -/
def gateUpSplit (names : RoutedExperts) : SplitConcat :=
  ⟨names.gateUp, [(names.stacked "w1", none), (names.stacked "w3", none)], 1⟩

theorem gateUpSplit_sizes (m : Nat) : (gateUpSplit names).sizes (m + m) = .ok [m, m] := by
  have hmod : (m + m) % (gateUpSplit names).parts.length = 0 := by
    change (m + m) % 2 = 0
    omega
  have hdiv : (m + m) / (gateUpSplit names).parts.length = m := by
    change (m + m) / 2 = m
    omega
  have hall : ((gateUpSplit names).parts.all fun part => part.2.isNone) = true := rfl
  rw [SplitConcat.sizes, if_pos hall]
  dsimp only
  rw [if_neg (show ¬ (gateUpSplit names).parts.length = 0 from Nat.succ_ne_zero 1), if_pos hmod, hdiv]
  rfl

theorem gateUpSplit_forward {t : Tensor α} {m : Nat} (hg : sd.get? names.gateUp = some t)
    (hrank : 1 < t.shape.length) (hsize : t.size 1 = m + m) :
    (gateUpSplit names).hfToPrime sd = .ok (((sd.erase names.gateUp).set (names.stacked "w1")
      (t.narrow 1 0 (0 + m))).set (names.stacked "w3") (t.narrow 1 m (m + m))) := by
  have hsome : sd.get? (gateUpSplit names).combined = some t := hg
  have hdim : (gateUpSplit names).dim < t.shape.length := hrank
  have hsizes : (gateUpSplit names).sizes (t.size (gateUpSplit names).dim) = .ok [m, m] := by
    rw [show t.size (gateUpSplit names).dim = m + m from hsize]
    exact gateUpSplit_sizes m
  have hfit : 0 + m ≤ t.size 1 := by omega
  have hfit' : m + m ≤ t.size 1 := by omega
  rw [SplitConcat.hfToPrime, hsome]
  dsimp only
  rw [if_pos hdim, hsizes, Checked.ok_bind]
  change SplitConcat.split 1 t [(names.stacked "w1", m), (names.stacked "w3", m)] 0 (sd.erase names.gateUp) = _
  rw [SplitConcat.split, if_pos hfit, SplitConcat.split, Nat.zero_add, if_pos hfit', SplitConcat.split]

theorem downProj_ne_gateUp (names : RoutedExperts) : names.downProj ≠ names.gateUp := by
  intro heq
  rw [gateUp_eq, downProj_eq] at heq
  have hl := congrArg String.toList heq
  simp only [String.toList_append, List.append_assoc] at hl
  have hl := List.append_cancel_left (List.append_cancel_left (List.append_cancel_left (List.append_cancel_left hl)))
  exact absurd hl (by decide)

/-- **The fused input is split**: what is under each name afterwards. -/
theorem fused_forward (h : names.Distinct) {t d : Tensor α} {m : Nat} (hg : sd.get? names.gateUp = some t)
    (hd : sd.get? names.downProj = some d) (hrank : 1 < t.shape.length) (hsize : t.size 1 = m + m) :
    ∃ sd', (routedExpertsOp names true).hfToPrime sd = .ok sd' ∧ ∀ k, sd'.get? k =
      if k = names.stacked "w2" then some d else if k = names.downProj then none
      else if k = names.stacked "w3" then some (t.narrow 1 m (m + m))
      else if k = names.stacked "w1" then some (t.narrow 1 0 (0 + m))
      else if k = names.gateUp then none else sd.get? k := by
  have hsplit := gateUpSplit_forward hg hrank hsize
  generalize hs : ((sd.erase names.gateUp).set (names.stacked "w1")
    (t.narrow 1 0 (0 + m))).set (names.stacked "w3") (t.narrow 1 m (m + m)) = s at hsplit
  have hget : ∀ k, s.get? k = if k = names.stacked "w3" then some (t.narrow 1 m (m + m))
      else if k = names.stacked "w1" then some (t.narrow 1 0 (0 + m))
      else if k = names.gateUp then none else sd.get? k := by
    intro k
    rw [← hs, get?_set, get?_set, get?_erase]
  have hnot : ∀ wn ∈ ["w1", "w2", "w3"], names.downProj ≠ names.stacked wn := fun wn hw => (h.split wn hw).2
  have hdown : s.get? names.downProj = some d := by
    rw [hget, if_neg (hnot "w3" (by decide)), if_neg (hnot "w1" (by decide)), if_neg (downProj_ne_gateUp names), hd]
  refine ⟨(s.erase names.downProj).set (names.stacked "w2") d, ?_, fun k => ?_⟩
  · rw [routed_fused, ConvOp.hfToPrime, keyPresent, hg, Option.isSome_some, if_pos rfl]
    change applyHfToPrime [.splitConcat (gateUpSplit names), .rename ⟨names.downProj, names.stacked "w2"⟩] sd = _
    rw [applyHfToPrime_cons, applyHfToPrime_cons, applyHfToPrime_nil]
    change ((gateUpSplit names).hfToPrime sd >>= fun s => .ok (moveKey names.downProj (names.stacked "w2") s) >>= _) = _
    rw [hsplit, Checked.ok_bind, Checked.ok_bind, moveKey, hdown]
  · rw [get?_set, get?_erase, hget]

theorem gateUpSplit_gone (h : names.Distinct) (hok : (gateUpSplit names).hfToPrime sd = .ok sd') :
    sd'.get? names.gateUp = none := by
  have hpart : ∀ part ∈ (gateUpSplit names).parts, names.gateUp ≠ part.1 := by
    intro part hin
    rcases List.mem_cons.1 hin with rfl | hin
    · exact (h.split "w1" (by decide)).1
    · rw [List.mem_singleton.1 hin]
      exact (h.split "w3" (by decide)).1
  cases hg : sd.get? names.gateUp with
  | none =>
    rw [SplitConcat.hfToPrime, show sd.get? (gateUpSplit names).combined = none from hg] at hok
    cases hok
    exact hg
  | some t =>
    rw [SplitConcat.hfToPrime, show sd.get? (gateUpSplit names).combined = some t from hg] at hok
    dsimp only at hok
    split at hok
    · obtain ⟨sizes, -, hsplit⟩ := Checked.bind_eq_ok.1 hok
      have hlocal : Local {k | k ≠ names.gateUp} (SplitConcat.split (gateUpSplit names).dim t
          (((gateUpSplit names).parts.map Prod.fst).zip sizes) 0) := by
        refine local_split fun part hin => ?_
        obtain ⟨part', hin', heq⟩ := List.mem_map.1 (List.of_mem_zip hin).1
        exact fun hk => hpart part' hin' (heq.trans hk).symm
      rw [hlocal.frame hsplit names.gateUp fun hk => hk rfl, get?_erase]
      exact if_pos rfl
    · cases hok

/-- **After a forward conversion the fused key is gone.** -/
theorem forward_gateUp (h : names.Distinct) (hok : (routedExpertsOp names true).hfToPrime sd = .ok sd') :
    sd'.get? names.gateUp = none := by
  cases hg : sd.get? names.gateUp with
  | none =>
    rw [routed_hfToPrime fun _ => hg] at hok
    rw [stacks_local.1.frame hok _ (gateUp_not_mem h), hg]
  | some t =>
    rw [routed_fused, ConvOp.hfToPrime, keyPresent, hg, Option.isSome_some, if_pos rfl] at hok
    change applyHfToPrime [.splitConcat (gateUpSplit names), .rename ⟨names.downProj, names.stacked "w2"⟩] sd = _ at hok
    rw [applyHfToPrime_cons, applyHfToPrime_cons, applyHfToPrime_nil] at hok
    obtain ⟨s, hs, hmove⟩ := Checked.bind_eq_ok.1 hok
    have hlocal : Local {names.downProj, names.stacked "w2"}
        (fun sd : StateDict α => (.ok (moveKey names.downProj (names.stacked "w2") sd) : Except ConvError _)) :=
      local_moveKey (Or.inl rfl) (Or.inr rfl)
    have hout : names.gateUp ∉ ({names.downProj, names.stacked "w2"} : Set String) := by
      rintro (hk | hk)
      · exact downProj_ne_gateUp names hk.symm
      · exact (h.split "w2" (by decide)).1 hk
    rw [hlocal.frame hmove _ hout]
    exact gateUpSplit_gone h hs

/-! ## The weights of a layer -/

/-- A layer's experts: gate and up of one shape, as their fused halves are, and down of another. -/
structure ExpertWeights (α : Type) [Zero α] where
  gate : List (Tensor α)
  up : List (Tensor α)
  down : List (Tensor α)
  rows : Nat
  inner : List Nat
  downShape : List Nat
  gate_shape : ∀ t ∈ gate, t.shape = rows :: inner
  up_shape : ∀ t ∈ up, t.shape = rows :: inner
  down_shape : ∀ t ∈ down, t.shape = downShape
  up_length : up.length = gate.length
  down_length : down.length = gate.length

/-- The weights of a projection under its checkpoint name. -/
def ExpertWeights.proj (w : ExpertWeights α) (hfProj : String) : List (Tensor α) :=
  if hfProj = "gate_proj" then w.gate else if hfProj = "down_proj" then w.down else w.up

/-- The fused tensor of `transformers`: each expert's gate on top of its up, the experts stacked. -/
def ExpertWeights.gateUp (w : ExpertWeights α) : Tensor α :=
  Tensor.stack 0 (List.zipWith (fun g u => Tensor.cat 0 [g, u]) w.gate w.up)

/-- The checkpoint holds the weights in the per-expert layout. -/
structure HoldsPerExpert (names : RoutedExperts) (w : ExpertWeights α) (sd : StateDict α) : Prop where
  experts : ∀ proj ∈ GATE_DOWN_UP, ∀ e, sd.get? ((names.item proj.2).format e) = (w.proj proj.2)[e]?
  internal : ∀ proj ∈ GATE_DOWN_UP, sd.get? (names.stacked proj.1) = none
  gateUp : sd.get? names.gateUp = none
  downProj : sd.get? names.downProj = none

/-- The checkpoint holds the weights in the fused layout. -/
structure HoldsFused (names : RoutedExperts) (w : ExpertWeights α) (sd : StateDict α) : Prop where
  experts : ∀ proj ∈ GATE_DOWN_UP, ∀ e, sd.get? ((names.item proj.2).format e) = none
  internal : ∀ proj ∈ GATE_DOWN_UP, sd.get? (names.stacked proj.1) = none
  gateUp : sd.get? names.gateUp = some w.gateUp
  downProj : sd.get? names.downProj = some (Tensor.stack 0 w.down)

theorem HoldsPerExpert.run {w : ExpertWeights α} (h : HoldsPerExpert names w sd) {proj : String × String}
    (hp : proj ∈ GATE_DOWN_UP) : Run (names.item proj.2) 0 sd (w.proj proj.2) := by
  intro i _
  rw [Nat.zero_add]
  exact h.experts proj hp i

theorem ExpertWeights.proj_shape (w : ExpertWeights α) (hfProj : String) :
    ∀ t ∈ w.proj hfProj, ∀ u ∈ w.proj hfProj, u.shape = t.shape := by
  have hone : ∃ s, ∀ t ∈ w.proj hfProj, t.shape = s := by
    rw [ExpertWeights.proj]
    split
    · exact ⟨_, w.gate_shape⟩
    · split
      · exact ⟨_, w.down_shape⟩
      · exact ⟨_, w.up_shape⟩
  obtain ⟨s, hs⟩ := hone
  exact fun t ht u hu => (hs u hu).trans (hs t ht).symm

theorem ExpertWeights.proj_ne_nil (w : ExpertWeights α) (hne : w.gate ≠ []) (hfProj : String) : w.proj hfProj ≠ [] := by
  have hpos : 0 < w.gate.length := List.length_pos_of_ne_nil hne
  rw [ExpertWeights.proj]
  split
  · exact hne
  · split
    · exact List.ne_nil_of_length_pos (w.down_length.symm ▸ hpos)
    · exact List.ne_nil_of_length_pos (w.up_length.symm ▸ hpos)

theorem HoldsPerExpert.perExpert {w : ExpertWeights α} (ho : names.projOrder = GATE_DOWN_UP)
    (h : HoldsPerExpert names w sd) : PerExpert names sd where
  internal := ho ▸ h.internal
  shape := by
    intro proj hp items hrun
    rw [ho] at hp
    rw [run_unique hrun (h.run hp)]
    exact w.proj_shape proj.2

theorem map_zipWith_left {β γ δ : Type} {f : β → γ → δ} {g : δ → β} : ∀ {xs : List β} {ys : List γ},
    ys.length = xs.length → (∀ x ∈ xs, ∀ y ∈ ys, g (f x y) = x) → (List.zipWith f xs ys).map g = xs
  | [], _, _, _ => rfl
  | x :: xs, y :: ys, hlen, h => by
    rw [List.zipWith_cons_cons, List.map_cons, h x List.mem_cons_self y List.mem_cons_self,
      map_zipWith_left (Nat.succ.inj hlen) fun x' hx y' hy =>
        h x' (List.mem_cons_of_mem _ hx) y' (List.mem_cons_of_mem _ hy)]

theorem map_zipWith_right {β γ δ : Type} {f : β → γ → δ} {g : δ → γ} {xs : List β} {ys : List γ}
    (hlen : ys.length = xs.length) (h : ∀ x ∈ xs, ∀ y ∈ ys, g (f x y) = y) : (List.zipWith f xs ys).map g = ys := by
  rw [List.zipWith_comm]
  exact map_zipWith_left hlen.symm fun y hy x hx => h x hx y hy

section Halves

variable (w : ExpertWeights α)

theorem ExpertWeights.pairs_shape : ∀ t ∈ List.zipWith (fun g u => Tensor.cat 0 [g, u]) w.gate w.up,
    t.shape = (w.rows + w.rows) :: w.inner := by
  intro t ht
  obtain ⟨g, hg, u, hu, rfl⟩ : ∃ g ∈ w.gate, ∃ u ∈ w.up, Tensor.cat 0 [g, u] = t := by
    rw [← List.map_uncurry_zip_eq_zipWith] at ht
    obtain ⟨⟨g, u⟩, hgu, rfl⟩ := List.mem_map.1 ht
    exact ⟨g, (List.of_mem_zip hgu).1, u, (List.of_mem_zip hgu).2, rfl⟩
  exact Tensor.shape_cat_pair (w.gate_shape g hg) (w.up_shape u hu)

theorem ExpertWeights.pairs_ne_nil (hne : w.gate ≠ []) :
    List.zipWith (fun g u => Tensor.cat 0 [g, u]) w.gate w.up ≠ [] := by
  refine List.ne_nil_of_length_pos ?_
  rw [List.length_zipWith, w.up_length, Nat.min_self]
  exact List.length_pos_of_ne_nil hne

theorem ExpertWeights.gateUp_shape (hne : w.gate ≠ []) :
    w.gateUp.shape = (List.zipWith (fun g u => Tensor.cat 0 [g, u]) w.gate w.up).length ::
      (w.rows + w.rows) :: w.inner :=
  Tensor.shape_stack w.pairs_shape (w.pairs_ne_nil hne) 0

/-- **The first half of the fused tensor** is the stack of the gates. -/
theorem ExpertWeights.gate_half (hne : w.gate ≠ []) : w.gateUp.narrow 1 0 (0 + w.rows) = Tensor.stack 0 w.gate := by
  have hfit : 0 + w.rows ≤ ((w.rows + w.rows) :: w.inner).getD 0 0 := by
    rw [List.getD_cons_zero]
    omega
  rw [ExpertWeights.gateUp, Tensor.narrow_stack w.pairs_shape (w.pairs_ne_nil hne) hfit]
  refine congrArg (Tensor.stack 0) (map_zipWith_left w.up_length fun g hg u hu => ?_)
  exact Tensor.narrow_cat_left (w.gate_shape g hg) (w.up_shape u hu)

/-- **The second half of the fused tensor** is the stack of the ups. -/
theorem ExpertWeights.up_half (hne : w.gate ≠ []) :
    w.gateUp.narrow 1 w.rows (w.rows + w.rows) = Tensor.stack 0 w.up := by
  have hfit : w.rows + w.rows ≤ ((w.rows + w.rows) :: w.inner).getD 0 0 := le_of_eq rfl
  rw [ExpertWeights.gateUp, Tensor.narrow_stack w.pairs_shape (w.pairs_ne_nil hne) hfit]
  refine congrArg (Tensor.stack 0) (map_zipWith_right w.up_length fun g hg u hu => ?_)
  exact Tensor.narrow_cat_right (w.gate_shape g hg) (w.up_shape u hu)

end Halves

/-- **Both layouts of the same weights have one internal form.** -/
theorem fused_same (h : names.Distinct) (ho : names.projOrder = GATE_DOWN_UP) {w : ExpertWeights α}
    (hne : w.gate ≠ []) {pe fu : StateDict α} (hp : HoldsPerExpert names w pe) (hf : HoldsFused names w fu)
    (hsame : AgreeOn (names.keys true)ᶜ pe fu) :
    ∃ a b, (routedExpertsOp names true).hfToPrime pe = .ok a ∧ (routedExpertsOp names true).hfToPrime fu = .ok b ∧
      Same a b := by
  obtain ⟨a, ha⟩ := stacks_forward_isOk h (hp.perExpert ho).shape
  have hrank : 1 < w.gateUp.shape.length := by
    rw [w.gateUp_shape hne]
    simp
  have hsize : w.gateUp.size 1 = w.rows + w.rows := Tensor.size_of_shape (w.gateUp_shape hne) 1
  obtain ⟨b, hb, hget⟩ := fused_forward h hf.gateUp hf.downProj hrank hsize
  refine ⟨a, b, (routed_hfToPrime fun _ => hp.gateUp).trans ha, hb, fun k => ?_⟩
  by_cases hk : ∃ proj ∈ names.projOrder, k ∈ names.stackKeys proj
  · obtain ⟨proj, hproj, hkey⟩ := hk
    have hproj' : proj ∈ GATE_DOWN_UP := ho ▸ hproj
    have hak := stacks_forward h ha hproj (hp.run hproj') k hkey
    rcases hkey with rfl | ⟨e, rfl⟩
    · rw [hak, if_pos ⟨rfl, w.proj_ne_nil hne _⟩, hget]
      have hd : ∀ wn ∈ ["w1", "w2", "w3"], names.stacked wn ≠ names.downProj := fun wn hw => (h.split wn hw).2.symm
      have hw : ∀ {x y : String}, x ≠ y → names.stacked x ≠ names.stacked y := fun hxy heq => hxy (stacked_inj heq)
      have hcases : proj = ("w1", "gate_proj") ∨ proj = ("w2", "down_proj") ∨ proj = ("w3", "up_proj") := by
        simpa [GATE_DOWN_UP] using hproj'
      rcases hcases with rfl | rfl | rfl
      · rw [if_neg (hw (by decide)), if_neg (hd "w1" (by decide)), if_neg (hw (by decide)), if_pos rfl, w.gate_half hne]
        rfl
      · rw [if_pos rfl]
        rfl
      · rw [if_neg (hw (by decide)), if_neg (hd "w3" (by decide)), if_pos rfl, w.up_half hne]
        rfl
    · have hitem : ∀ q ∈ GATE_DOWN_UP, (names.item proj.2).format e ≠ names.stacked q.1 :=
        fun q hq => (h.own q (ho.symm ▸ hq) proj hproj e).symm
      have hmem : (names.item proj.2).format e ∈ names.stackKeys proj := Or.inr ⟨e, rfl⟩
      have hdown : (names.item proj.2).format e ≠ names.downProj := fun heq => h.downProj proj hproj (heq ▸ hmem)
      have hgate : (names.item proj.2).format e ≠ names.gateUp := fun heq => h.gateUp proj hproj (heq ▸ hmem)
      rw [hget, if_neg (hitem ("w2", "down_proj") (by decide)), if_neg hdown,
        if_neg (hitem ("w3", "up_proj") (by decide)), if_neg (hitem ("w1", "gate_proj") (by decide)), if_neg hgate,
        hf.experts proj hproj' e, hak, if_neg fun heq => hitem proj hproj' heq.1]
      by_cases he : e < (w.proj proj.2).length
      · exact if_pos ⟨e, he, rfl⟩
      · have hnone : ¬ ∃ i < (w.proj proj.2).length, (names.item proj.2).format e = (names.item proj.2).format i :=
          fun ⟨i, hi, heq⟩ => he (format_inj heq ▸ hi)
        rw [if_neg hnone, hp.experts proj hproj' e, List.getElem?_eq_none (not_lt.1 he)]
  · have hout : k ∉ names.keys false := by
      rintro (hin | ⟨hff, -⟩)
      · exact hk hin
      · exact nomatch hff
    have hw : ∀ proj ∈ GATE_DOWN_UP, k ≠ names.stacked proj.1 :=
      fun proj hproj heq => hk ⟨proj, ho.symm ▸ hproj, Or.inl heq⟩
    rw [stacks_local.1.frame ha k hout, hget, if_neg (hw ("w2", "down_proj") (by decide)),
      if_neg (hw ("w3", "up_proj") (by decide)), if_neg (hw ("w1", "gate_proj") (by decide))]
    by_cases hkd : k = names.downProj
    · rw [if_pos hkd, hkd, hp.downProj]
    · by_cases hkg : k = names.gateUp
      · rw [if_neg hkd, if_pos hkg, hkg, hp.gateUp]
      · rw [if_neg hkd, if_neg hkg]
        refine hsame k ?_
        rintro (hin | ⟨-, hin⟩)
        · exact hk hin
        · rcases hin with hin | hin | hin | hin | hin
          · exact hkg hin
          · exact hkd hin
          · exact hw ("w1", "gate_proj") (by decide) hin
          · exact hw ("w2", "down_proj") (by decide) hin
          · exact hw ("w3", "up_proj") (by decide) hin

/-! ## There and back -/

/-- Without the fused key the operator's round trip is that of its stacks. -/
theorem routed_roundTrip_stacks (h : names.Distinct) (hg : fused = true → sd.get? names.gateUp = none) :
    RoundTrip (routedExpertsOp names fused).hfToPrime (routedExpertsOp names fused).primeToHf sd ↔
      RoundTrip (applyHfToPrime (names.stackOps.map .stack)) (applyPrimeToHf (names.stackOps.map .stack)) sd := by
  have hback : ∀ {d : StateDict α}, applyHfToPrime (names.stackOps.map .stack) sd = .ok d →
      (routedExpertsOp names fused).primeToHf d = applyPrimeToHf (names.stackOps.map .stack) d := by
    intro d hd
    refine routed_primeToHf fun hf => ?_
    rw [stacks_local.1.frame hd _ (gateUp_not_mem h), hg hf]
  constructor
  · rintro ⟨d, d', hd, hd', hs⟩
    rw [routed_hfToPrime hg] at hd
    exact ⟨d, d', hd, (hback hd).symm.trans hd', hs⟩
  · rintro ⟨d, d', hd, hd', hs⟩
    exact ⟨d, d', (routed_hfToPrime hg).trans hd, (hback hd).trans hd', hs⟩

/-- **The operator gives back exactly the dicts of per-expert weights.** -/
theorem routed_roundTrip (h : names.Distinct) :
    RoundTrip (routedExpertsOp names fused).hfToPrime (routedExpertsOp names fused).primeToHf sd ↔
      (fused = true → sd.get? names.gateUp = none) ∧ PerExpert names sd := by
  constructor
  · intro hround
    have hg : fused = true → sd.get? names.gateUp = none := by
      rintro rfl
      obtain ⟨d, d', hd, hd', hs⟩ := hround
      have hgone := forward_gateUp h hd
      rw [routed_primeToHf fun _ => hgone] at hd'
      rw [← hs, stacks_local.2.frame hd' _ (gateUp_not_mem h), hgone]
    exact ⟨hg, (stacks_roundTrip h).1 ((routed_roundTrip_stacks h hg).1 hround)⟩
  · rintro ⟨hg, hper⟩
    exact (routed_roundTrip_stacks h hg).2 ((stacks_roundTrip h).2 hper)

/-- `sd'` holds every run of experts of `sd` stacked under the internal name, and none of its keys. -/
structure StackedForm (names : RoutedExperts) (sd sd' : StateDict α) : Prop where
  stacked : ∀ proj ∈ names.projOrder, ∀ items, Run (names.item proj.2) 0 sd items →
    sd'.get? (names.stacked proj.1) = if items = [] then none else some (Tensor.stack 0 items)
  popped : ∀ proj ∈ names.projOrder, ∀ items, Run (names.item proj.2) 0 sd items → ∀ e < items.length,
    sd'.get? ((names.item proj.2).format e) = none

/-- `sd'` holds every expert's slice of the stacked tensors of `sd` under its own key, and no internal name. -/
structure PerExpertForm (names : RoutedExperts) (sd sd' : StateDict α) : Prop where
  internal : ∀ proj ∈ names.projOrder, sd'.get? (names.stacked proj.1) = none
  experts : ∀ proj ∈ names.projOrder, ∀ t, sd.get? (names.stacked proj.1) = some t → ∀ e < t.size 0,
    sd'.get? ((names.item proj.2).format e) = some (t.select 0 e)

theorem stackedForm (h : names.Distinct) (hper : PerExpert names sd)
    (hok : applyHfToPrime (names.stackOps.map .stack) sd = .ok sd') : StackedForm names sd sd' where
  stacked proj hp items hrun := by
    rw [stacks_forward h hok hp hrun _ (Or.inl rfl)]
    by_cases hne : items = []
    · rw [if_neg fun hc => hc.2 hne, if_pos hne]
      split
      · rfl
      · exact hper.internal proj hp
    · rw [if_pos ⟨rfl, hne⟩, if_neg hne]
  popped proj hp items hrun e he := by
    rw [stacks_forward h hok hp hrun _ (Or.inr ⟨e, rfl⟩), if_neg fun hc => h.own proj hp proj hp e hc.1.symm]
    exact if_pos ⟨e, he, rfl⟩

/-- **Expert weight conversion is invertible** on dicts of per-expert weights, a fused input amounts to the per-expert
one, backward emits the per-expert layout, and chains over disjoint keys are as invertible as their operators. -/
theorem expert_conversion (names : RoutedExperts) (h : names.Distinct) (fused : Bool) :
    (∀ sd : StateDict α, RoundTrip (routedExpertsOp names fused).hfToPrime (routedExpertsOp names fused).primeToHf sd ↔
      (fused = true → sd.get? names.gateUp = none) ∧ PerExpert names sd) ∧
    (∀ sd sd' : StateDict α, (fused = true → sd.get? names.gateUp = none) → PerExpert names sd →
      (routedExpertsOp names fused).hfToPrime sd = .ok sd' → StackedForm names sd sd') ∧
    (fused = true → names.projOrder = GATE_DOWN_UP → ∀ w : ExpertWeights α, w.gate ≠ [] → ∀ pe fu : StateDict α,
      HoldsPerExpert names w pe → HoldsFused names w fu → AgreeOn (names.keys fused)ᶜ pe fu →
      ∃ a b c, (routedExpertsOp names fused).hfToPrime pe = .ok a ∧ (routedExpertsOp names fused).hfToPrime fu = .ok b ∧
        Same a b ∧ (routedExpertsOp names fused).primeToHf b = .ok c ∧ Same c pe) ∧
    (∀ sd sd' : StateDict α, (routedExpertsOp names fused).hfToPrime sd = .ok sd' → fused = true →
      sd'.get? names.gateUp = none) ∧
    (∀ sd : StateDict α, (fused = true → sd.get? names.gateUp = none) →
      ((∃ sd', (routedExpertsOp names fused).primeToHf sd = .ok sd') ↔
        ∀ proj ∈ names.projOrder, ∀ t, sd.get? (names.stacked proj.1) = some t → t.shape ≠ []) ∧
      ∀ sd', (routedExpertsOp names fused).primeToHf sd = .ok sd' →
        PerExpertForm names sd sd' ∧ (fused = true → sd'.get? names.gateUp = none)) ∧
    Covers (routedExpertsOp names fused : ConvOp α) (names.keys fused) ∧
    (∀ (ops : List (ConvOp α)) (Ks : List (Set String)), List.Forall₂ Covers ops Ks → Ks.Pairwise Disjoint →
      ∀ sd, RoundTrip (applyHfToPrime ops) (applyPrimeToHf ops) sd ↔
        ∀ op ∈ ops, RoundTrip op.hfToPrime op.primeToHf sd) ∧
    (∀ op : Rename, op.hf ≠ op.prime → ∀ sd : StateDict α,
      RoundTrip (ConvOp.rename op).hfToPrime (ConvOp.rename op).primeToHf sd ↔ sd.get? op.prime = none) ∧
    (∀ op : Stack, op.indexOffset = 0 → (∀ e, op.stacked ≠ op.item.format e) → ∀ (sd : StateDict α) items,
      Run op.item 0 sd items → (RoundTrip (ConvOp.stack op).hfToPrime (ConvOp.stack op).primeToHf sd ↔
        sd.get? op.stacked = none ∧ Stackable op.dim items)) ∧
    (∀ (op : SplitConcat) (sd : StateDict α) (t : Tensor α) (sizes : List Nat), sd.get? op.combined = some t →
      op.dim < t.shape.length → op.sizes (t.size op.dim) = .ok sizes → sizes.length = op.parts.length →
      sizes.sum = t.size op.dim → op.parts ≠ [] → (op.parts.map Prod.fst).Nodup →
      (∀ part ∈ op.parts, sd.get? part.1 = none) →
      RoundTrip (ConvOp.splitConcat op).hfToPrime (ConvOp.splitConcat op).primeToHf sd) := by
  refine ⟨fun sd => routed_roundTrip h, fun sd sd' hg hper hok => ?_, ?_, fun sd sd' hok hf => ?_, fun sd hg => ⟨?_, ?_⟩,
    routed_covers, fun ops Ks hc hd sd => chain_roundTrip hc hd, fun op hne sd => rename_roundTrip hne,
    fun op ho hk sd items hrun => stack_roundTrip ho hk hrun,
    fun op sd t sizes ht hd hs hl hsum hne hn ha => splitConcat_roundTrip ht hd hs hl hsum hne hn ha⟩
  · rw [routed_hfToPrime hg] at hok
    exact stackedForm h hper hok
  · rintro rfl ho w hne pe fu hp hf hsame
    obtain ⟨a, b, ha, hb, hab⟩ := fused_same h ho hne hp hf hsame
    obtain ⟨a', c, ha', hc, hs⟩ := (routed_roundTrip h).2 ⟨fun _ => hp.gateUp, hp.perExpert ho⟩
    cases ha.symm.trans ha'
    obtain ⟨c', hc', hcc⟩ := routed_covers.backward.same hab hc
    exact ⟨a, b, c', ha, hb, hab, hc', hcc.symm.trans hs⟩
  · subst hf
    exact forward_gateUp h hok
  · rw [routed_primeToHf hg]
    exact stacks_backward_isOk h
  · intro sd' hok
    rw [routed_primeToHf hg] at hok
    refine ⟨⟨fun proj hp => (stacks_backward h hok hp).1, fun proj hp => (stacks_backward h hok hp).2⟩, fun hf => ?_⟩
    rw [stacks_local.2.frame hok _ (gateUp_not_mem h), hg hf]

namespace Sample

def qwen : RoutedExperts := container "model.layers.0" "mlp.experts"

/-- A weight of expert `e`, each element its own. -/
def weight (base : ℤ) (shape : List Nat) (e : Nat) : Tensor ℤ :=
  Tensor.ofFn shape fun idx => base + 10 * e + 2 * idx.getD 0 0 + idx.getD 1 0

def gate : Nat → Tensor ℤ := weight 100 [3, 2]
def up : Nat → Tensor ℤ := weight 200 [3, 2]
def down : Nat → Tensor ℤ := weight 300 [2, 3]

/-- A layer of two experts of distinct weights. -/
def layer : StateDict ℤ :=
  ⟨[("gate_proj", gate), ("up_proj", up), ("down_proj", down)].flatMap fun p =>
    (List.range 2).map fun e => ((qwen.item p.1).format e, p.2 e), by decide +kernel⟩

/-- What the operator stacks of a projection. -/
theorem run {proj : String} {weights : Nat → Tensor ℤ}
    (hp : (proj, weights) ∈ [("gate_proj", gate), ("up_proj", up), ("down_proj", down)]) :
    Run (qwen.item proj) 0 layer [weights 0, weights 1] := by
  have hheld : ∀ e < 2, layer.get? ((qwen.item proj).format e) = some (weights e) := fun e he =>
    get?_of_mem (List.mem_flatMap.2 ⟨_, hp, List.mem_map.2 ⟨e, List.mem_range.2 he, rfl⟩⟩)
  have hlast : ∀ p ∈ ["gate_proj", "up_proj", "down_proj"], (layer.get? ((qwen.item p).format 2)).isNone := by
    decide +kernel
  intro i hi
  rcases Nat.lt_or_eq_of_le hi with hlt | rfl
  · have hcases : i = 0 ∨ i = 1 := by
      have : i < 2 := hlt
      omega
    rcases hcases with rfl | rfl
    · exact hheld 0 (by decide)
    · exact hheld 1 (by decide)
  · exact Option.isNone_iff_eq_none.1 (hlast proj (List.mem_map_of_mem (f := Prod.fst) hp))

end Sample

open Sample in
/-- Qwen's operator stacks the layer of two experts, each projection under its own name, and gives it back. -/
theorem expert_conversion_layer :
    RoundTrip (routedExpertsOp qwen true).hfToPrime (routedExpertsOp qwen true).primeToHf layer ∧
    ∃ sd, (routedExpertsOp qwen true).hfToPrime layer = .ok sd ∧
      sd.get? "model.layers.0.mlp.experts.w1" = some (Tensor.stack 0 [gate 0, gate 1]) ∧
      sd.get? "model.layers.0.mlp.experts.w2" = some (Tensor.stack 0 [down 0, down 1]) ∧
      sd.get? "model.layers.0.mlp.experts.w3" = some (Tensor.stack 0 [up 0, up 1]) := by
  have hnone : ∀ key ∈ ["model.layers.0.mlp.experts.gate_up_proj", "model.layers.0.mlp.experts.w1",
      "model.layers.0.mlp.experts.w2", "model.layers.0.mlp.experts.w3"], (layer.get? key).isNone := by
    decide +kernel
  have hfused : layer.get? qwen.gateUp = none := Option.isNone_iff_eq_none.1 (hnone _ (by decide +kernel))
  have hcases : ∀ {proj : String × String}, proj ∈ qwen.projOrder →
      proj = ("w1", "gate_proj") ∨ proj = ("w2", "down_proj") ∨ proj = ("w3", "up_proj") := by
    intro proj hp
    simpa [qwen, container, GATE_DOWN_UP] using hp
  have hper : PerExpert qwen layer := by
    refine ⟨fun proj hp => ?_, fun proj hp items hr => ?_⟩
    · rcases hcases hp with rfl | rfl | rfl
      · exact Option.isNone_iff_eq_none.1 (hnone _ (by decide +kernel))
      · exact Option.isNone_iff_eq_none.1 (hnone _ (by decide +kernel))
      · exact Option.isNone_iff_eq_none.1 (hnone _ (by decide +kernel))
    · rcases hcases hp with rfl | rfl | rfl
      · rw [run_unique hr (@run "gate_proj" gate (by simp))]
        decide
      · rw [run_unique hr (@run "down_proj" down (by simp))]
        decide
      · rw [run_unique hr (@run "up_proj" up (by simp))]
        decide
  obtain ⟨hround, hforward, -⟩ := @expert_conversion ℤ _ qwen (container_distinct _ _) true
  have hback := (hround layer).2 ⟨fun _ => hfused, hper⟩
  obtain ⟨sd, _, hsd, -, -⟩ := id hback
  have hform := hforward layer sd (fun _ => hfused) hper hsd
  exact ⟨hback, sd, hsd, hform.stacked ("w1", "gate_proj") (by decide) _ (run (by simp)),
    hform.stacked ("w2", "down_proj") (by decide) _ (run (by simp)),
    hform.stacked ("w3", "up_proj") (by decide) _ (run (by simp))⟩

/-- What is not given back: a dropped key, a dict that holds an internal name already, experts of two shapes; and a fused
input without experts does not amount to a per-expert one. -/
theorem conversion_exceptions :
    (Covers (.drop ⟨"mtp.weight", false⟩ : ConvOp ℤ) {"mtp.weight"} ∧
      ¬ RoundTrip (applyHfToPrime [.drop ⟨"mtp.weight", false⟩]) (applyPrimeToHf [.drop ⟨"mtp.weight", false⟩])
        (Dict.empty.set "mtp.weight" (Tensor.ofFn [1] fun _ => (1 : ℤ)))) ∧
    ¬ RoundTrip (routedExpertsOp (container "model.layers.0" "mlp.experts") true).hfToPrime
      (routedExpertsOp (container "model.layers.0" "mlp.experts") true).primeToHf
      (Dict.empty.set "model.layers.0.mlp.experts.w1" (Tensor.ofFn [1] fun _ => (1 : ℤ))) ∧
    (∀ sd', (routedExpertsOp (container "model.layers.0" "mlp.experts") true).hfToPrime
      ((Dict.empty.set "model.layers.0.mlp.experts.0.gate_proj.weight" (Tensor.ofFn [1] fun _ => (1 : ℤ))).set
        "model.layers.0.mlp.experts.1.gate_proj.weight" (Tensor.ofFn [2] fun _ => (1 : ℤ))) ≠ .ok sd') ∧
    ∃ a b, (routedExpertsOp (container "model.layers.0" "mlp.experts") true).hfToPrime Dict.empty = .ok a ∧
      (routedExpertsOp (container "model.layers.0" "mlp.experts") true).hfToPrime
        ((Dict.empty.set "model.layers.0.mlp.experts.gate_up_proj" (Tensor.ofFn [0, 2, 1] fun _ => (0 : ℤ))).set
          "model.layers.0.mlp.experts.down_proj" (Tensor.ofFn [0, 1, 1] fun _ => (0 : ℤ))) = .ok b ∧ ¬ Same a b := by
  refine ⟨⟨?_, ?_⟩, ?_, ?_, ?_⟩
  · refine covers_drop fun k hk => ?_
    simpa [Drop.hits] using hk
  · rintro ⟨d, d', hd, hd', hs⟩
    rw [applyHfToPrime_cons, applyHfToPrime_nil] at hd
    rw [applyPrimeToHf_cons, applyPrimeToHf_nil] at hd'
    have hgone : d'.get? "mtp.weight" = none := by
      have : Drop.drop ⟨"mtp.weight", false⟩ d = d' := Except.ok.inj hd'
      rw [← this, get?_drop]
      rfl
    rw [hs] at hgone
    exact nomatch hgone
  · intro hround
    have hnone := ((routed_roundTrip (container_distinct _ _)).1 hround).2.internal ("w1", "gate_proj") (by decide)
    exact nomatch hnone
  · intro sd' h
    have hfail : ((routedExpertsOp (container "model.layers.0" "mlp.experts") true).hfToPrime
      ((Dict.empty.set "model.layers.0.mlp.experts.0.gate_proj.weight" (Tensor.ofFn [1] fun _ => (1 : ℤ))).set
        "model.layers.0.mlp.experts.1.gate_proj.weight" (Tensor.ofFn [2] fun _ => (1 : ℤ)))).toOption.isNone = true := by
      decide +kernel
    rw [h] at hfail
    exact nomatch hfail
  · have hbare : ((routedExpertsOp (container "model.layers.0" "mlp.experts") true).hfToPrime
      (Dict.empty : StateDict ℤ)).toOption.map (fun a => (a.get? "model.layers.0.mlp.experts.w1").isNone) = some true := by
      decide +kernel
    have hfused : ((routedExpertsOp (container "model.layers.0" "mlp.experts") true).hfToPrime
        ((Dict.empty.set "model.layers.0.mlp.experts.gate_up_proj" (Tensor.ofFn [0, 2, 1] fun _ => (0 : ℤ))).set
          "model.layers.0.mlp.experts.down_proj" (Tensor.ofFn [0, 1, 1] fun _ => (0 : ℤ)))).toOption.map
        (fun b => (b.get? "model.layers.0.mlp.experts.w1").isNone) = some false := by
      decide +kernel
    cases ha : (routedExpertsOp (container "model.layers.0" "mlp.experts") true).hfToPrime (Dict.empty : StateDict ℤ) with
    | error e =>
      rw [ha] at hbare
      exact nomatch hbare
    | ok a =>
      cases hb : (routedExpertsOp (container "model.layers.0" "mlp.experts") true).hfToPrime
          ((Dict.empty.set "model.layers.0.mlp.experts.gate_up_proj" (Tensor.ofFn [0, 2, 1] fun _ => (0 : ℤ))).set
            "model.layers.0.mlp.experts.down_proj" (Tensor.ofFn [0, 1, 1] fun _ => (0 : ℤ))) with
      | error e =>
        rw [hb] at hfused
        exact nomatch hfused
      | ok b =>
        rw [ha] at hbare
        rw [hb] at hfused
        refine ⟨a, b, rfl, rfl, fun hs => ?_⟩
        have hbare : (a.get? "model.layers.0.mlp.experts.w1").isNone = true := Option.some.inj hbare
        have hfused : (b.get? "model.layers.0.mlp.experts.w1").isNone = false := Option.some.inj hfused
        rw [← hs, hbare] at hfused
        exact nomatch hfused

end Conversion
end Aether
