import AetherRl.ConversionLocal
import AetherRl.Numeral
/-!
# ConversionStack — stacking a run of indexed keys, and back

The loop of a `Stack` takes the longest run of its keys from element zero on (`Run`).  Forward the run ends up under the
stacked key and nowhere else; backward every entry of the stacked tensor has its own key again.  The two undo each other
exactly on the dicts that hold no stacked tensor and whose run has one shape (`stack_roundTrip`).
-/
namespace Aether
namespace Conversion

open Dict

variable {α : Type} [Zero α] {K : Set String} {sd sd' : StateDict α}

theorem format_inj {item : ItemPattern} {e e' : Nat} (h : item.format e = item.format e') : e = e' := by
  have hl := congrArg String.toList h
  simp only [ItemPattern.format, String.toList_append, List.append_assoc] at hl
  have hdigits := List.append_cancel_right (List.append_cancel_left hl)
  rw [← Numeral.ofDigitChars_toString e, ← Numeral.ofDigitChars_toString e', hdigits]

/-- From element `e` on, the dict holds the keys of the pattern for `items`, and not the next. -/
def Run (item : ItemPattern) (e : Nat) (sd : StateDict α) (items : List (Tensor α)) : Prop :=
  ∀ i ≤ items.length, sd.get? (item.format (e + i)) = items[i]?

theorem run_unique {item : ItemPattern} {e : Nat} {xs ys : List (Tensor α)} (hx : Run item e sd xs)
    (hy : Run item e sd ys) : xs = ys := by
  have key : ∀ {xs ys : List (Tensor α)}, Run item e sd xs → Run item e sd ys → xs.length ≤ ys.length := by
    intro xs ys hx hy
    by_contra hlt
    have hx' := hx ys.length (by omega)
    rw [hy ys.length le_rfl, List.getElem?_eq_none le_rfl, List.getElem?_eq_getElem (by omega)] at hx'
    exact nomatch hx'
  have hlen : xs.length = ys.length := le_antisymm (key hx hy) (key hy hx)
  refine List.ext_getElem? fun i => ?_
  by_cases hi : i ≤ xs.length
  · rw [← hx i hi, hy i (hlen ▸ hi)]
  · rw [List.getElem?_eq_none (by omega), List.getElem?_eq_none (by omega)]

theorem Run.of_agreeOn {item : ItemPattern} {e : Nat} {items : List (Tensor α)} (hK : ∀ i, item.format i ∈ K)
    (ha : AgreeOn K sd sd') (h : Run item e sd items) : Run item e sd' items :=
  fun i hi => (ha _ (hK _)).symm.trans (h i hi)

/-- **The loop pops the run**, and nothing else. -/
theorem collect_run {item : ItemPattern} : ∀ {turns : Nat} {e : Nat} {sd : StateDict α}, sd.entries.length ≤ turns →
    Run item e sd (Stack.collect item turns e sd).1 ∧ ∀ k, (Stack.collect item turns e sd).2.get? k =
      if ∃ i < (Stack.collect item turns e sd).1.length, k = item.format (e + i) then none else sd.get? k
  | 0, e, sd, hlen => by
    have hnone := get?_eq_none_of_length (Nat.le_zero.1 hlen)
    exact ⟨fun i hi => by rw [Stack.collect, hnone]; rfl, fun k => by rw [Stack.collect, hnone, ite_self]⟩
  | turns + 1, e, sd, hlen => by
    cases hget : sd.get? (item.format e) with
    | none =>
      have hstop : Stack.collect item (turns + 1) e sd = ([], sd) := by rw [Stack.collect, hget]
      rw [hstop]
      refine ⟨fun i hi => ?_, fun k => (if_neg ?_).symm⟩
      · rw [Nat.le_zero.1 hi, Nat.add_zero, hget]
        rfl
      · rintro ⟨i, hi, -⟩
        exact absurd hi (Nat.not_lt_zero i)
    | some t =>
      have hshort : (sd.erase (item.format e)).entries.length ≤ turns := by
        have := length_erase (d := sd) (k := item.format e) (by rw [hget]; exact Option.some_ne_none t)
        omega
      obtain ⟨hrun, hpop⟩ := collect_run (e := e + 1) hshort
      have hstep : Stack.collect item (turns + 1) e sd =
          (t :: (Stack.collect item turns (e + 1) (sd.erase (item.format e))).1,
            (Stack.collect item turns (e + 1) (sd.erase (item.format e))).2) := by
        rw [Stack.collect, hget]
      rw [hstep]
      generalize Stack.collect item turns (e + 1) (sd.erase (item.format e)) = rest at hrun hpop
      constructor
      · intro i hi
        cases i with
        | zero => exact hget
        | succ i =>
          have hne : item.format (e + 1 + i) ≠ item.format e := fun h => by
            have := format_inj h
            omega
          have hnext : e + (i + 1) = e + 1 + i := by omega
          have := hrun i (Nat.le_of_succ_le_succ hi)
          rw [get?_erase, if_neg hne] at this
          rw [hnext, this]
          rfl
      · intro k
        have hsplit : (∃ i < rest.1.length + 1, k = item.format (e + i)) ↔
            (∃ i < rest.1.length, k = item.format (e + 1 + i)) ∨ k = item.format e := by
          constructor
          · rintro ⟨i, hi, hk⟩
            cases i with
            | zero => exact Or.inr hk
            | succ i => exact Or.inl ⟨i, Nat.lt_of_succ_lt_succ hi, hk.trans (by rw [Nat.add_right_comm]; rfl)⟩
          · rintro (⟨i, hi, hk⟩ | hk)
            · exact ⟨i + 1, Nat.succ_lt_succ hi, hk.trans (by rw [Nat.add_right_comm]; rfl)⟩
            · exact ⟨0, Nat.succ_pos _, hk⟩
        rw [hpop, get?_erase, List.length_cons]
        by_cases hin : ∃ i < rest.1.length, k = item.format (e + 1 + i)
        · rw [if_pos hin, if_pos (hsplit.2 (Or.inl hin))]
        · by_cases hk : k = item.format e
          · rw [if_neg hin, if_pos hk, if_pos (hsplit.2 (Or.inr hk))]
          · rw [if_neg hin, if_neg hk, if_neg fun h => (hsplit.1 h).elim hin hk]

theorem exists_run (item : ItemPattern) (sd : StateDict α) : ∃ items, Run item 0 sd items :=
  ⟨_, (collect_run (e := 0) (le_refl sd.entries.length)).1⟩

/-! ## Forward -/

/-- The tensors have one shape, which has room for a new dimension at `dim`. -/
def Stackable (dim : Nat) (items : List (Tensor α)) : Prop :=
  ∀ t ∈ items, dim ≤ t.shape.length ∧ ∀ u ∈ items, u.shape = t.shape

theorem torchStack_eq_ok {items : List (Tensor α)} {dim : Nat} {t : Tensor α} (hne : items ≠ []) :
    torchStack items dim = .ok t ↔ Stackable dim items ∧ t = Tensor.stack dim items := by
  cases items with
  | nil => exact absurd rfl hne
  | cons u us =>
    rw [torchStack]
    by_cases hdim : u.shape.length < dim
    · rw [if_pos hdim]
      refine iff_of_false (fun h => nomatch h) fun h => ?_
      have := (h.1 u List.mem_cons_self).1
      omega
    · rw [if_neg hdim]
      by_cases hall : ∀ v ∈ u :: us, v.shape = u.shape
      · rw [if_pos hall]
        have hst : Stackable dim (u :: us) := fun v hv => by
          rw [hall v hv]
          exact ⟨not_lt.1 hdim, hall⟩
        simp only [Except.ok.injEq, hst, true_and]
        exact eq_comm
      · rw [if_neg hall]
        exact iff_of_false (fun h => nomatch h) fun h => hall (h.1 u List.mem_cons_self).2

/-- **Forward**: the run is popped, and its stack, if there is one, put under the stacked key. -/
theorem Stack.hfToPrime_run (op : Stack) {items : List (Tensor α)} (h : Run op.item 0 sd items) :
    ∃ popped : StateDict α,
      (∀ k, popped.get? k = if ∃ i < items.length, k = op.item.format i then none else sd.get? k) ∧
      op.hfToPrime sd = if items = [] then .ok popped else
        torchStack items op.dim >>= fun stacked => .ok (popped.set op.stacked stacked) := by
  obtain ⟨hrun, hpop⟩ := @collect_run _ _ op.item _ 0 _ (le_refl sd.entries.length)
  rw [run_unique h hrun]
  refine ⟨(Stack.collect op.item sd.entries.length 0 sd).2, fun k => ?_, ?_⟩
  · rw [hpop]
    simp only [Nat.zero_add]
  · rw [Stack.hfToPrime]
    generalize Stack.collect op.item sd.entries.length 0 sd = r
    obtain ⟨_ | ⟨t, ts⟩, popped⟩ := r
    · rfl
    · rfl

/-- **What a forward `Stack` leaves**, where it returns. -/
theorem Stack.hfToPrime_eq_ok (op : Stack) {items : List (Tensor α)} (h : Run op.item 0 sd items)
    (hok : op.hfToPrime sd = .ok sd') : (items ≠ [] → Stackable op.dim items) ∧ ∀ k, sd'.get? k =
      if k = op.stacked ∧ items ≠ [] then some (Tensor.stack op.dim items)
      else if ∃ i < items.length, k = op.item.format i then none else sd.get? k := by
  obtain ⟨popped, hpop, heq⟩ := op.hfToPrime_run h
  rw [hok] at heq
  by_cases hne : items = []
  · rw [if_pos hne] at heq
    cases heq
    refine ⟨fun h => absurd hne h, fun k => ?_⟩
    rw [hpop, if_neg fun h : k = op.stacked ∧ items ≠ [] => h.2 hne]
  · rw [if_neg hne] at heq
    obtain ⟨t, ht, hset⟩ := Checked.bind_eq_ok.1 heq.symm
    obtain ⟨hst, rfl⟩ := (torchStack_eq_ok hne).1 ht
    cases hset
    refine ⟨fun _ => hst, fun k => ?_⟩
    rw [get?_set, hpop]
    simp only [hne, ne_eq, not_false_eq_true, and_true]

theorem Stack.hfToPrime_isOk (op : Stack) {items : List (Tensor α)} (h : Run op.item 0 sd items)
    (hst : items ≠ [] → Stackable op.dim items) : ∃ sd', op.hfToPrime sd = .ok sd' := by
  obtain ⟨popped, -, heq⟩ := op.hfToPrime_run h
  by_cases hne : items = []
  · exact ⟨popped, by rw [heq, if_pos hne]⟩
  · refine ⟨popped.set op.stacked (Tensor.stack op.dim items), ?_⟩
    rw [heq, if_neg hne, (torchStack_eq_ok hne).2 ⟨hst hne, rfl⟩]
    rfl

/-! ## Backward -/

theorem get?_foldl_set {f : Nat → String} (hf : ∀ i j, f i = f j → i = j) (g : Nat → Tensor α) (k : String) :
    ∀ (n : Nat) (sd : StateDict α), (∀ i < n, k = f i →
      ((List.range n).foldl (fun sd e => sd.set (f e) (g e)) sd).get? k = some (g i)) ∧
      ((∀ i < n, k ≠ f i) → ((List.range n).foldl (fun sd e => sd.set (f e) (g e)) sd).get? k = sd.get? k)
  | 0, sd => ⟨fun i hi => absurd hi (Nat.not_lt_zero i), fun _ => rfl⟩
  | n + 1, sd => by
    obtain ⟨hin, hout⟩ := get?_foldl_set hf g k n sd
    rw [List.range_succ, List.foldl_append, List.foldl_cons, List.foldl_nil, get?_set]
    constructor
    · intro i hi hk
      by_cases hlast : k = f n
      · rw [if_pos hlast, hf n i (hlast.symm.trans hk)]
      · have hin' : i < n := by
          have : i ≠ n := fun h => hlast (h ▸ hk)
          omega
        rw [if_neg hlast, hin i hin' hk]
    · intro hall
      rw [if_neg (hall n (Nat.lt_succ_self n)), hout fun i hi => hall i (Nat.lt_succ_of_lt hi)]

theorem Stack.get?_unstack (op : Stack) (t : Tensor α) (sd : StateDict α) {e : Nat} (he : e < t.size op.dim) :
    (op.unstack t sd).get? (op.item.format (op.indexOffset + e)) = some (t.select op.dim e) :=
  (get?_foldl_set (fun _ _ h => Nat.add_left_cancel (format_inj h)) (fun e => t.select op.dim e) _ _ sd).1 e he rfl

theorem Stack.get?_unstack_of_ne (op : Stack) (t : Tensor α) (sd : StateDict α) {k : String}
    (hk : ∀ e < t.size op.dim, k ≠ op.item.format (op.indexOffset + e)) : (op.unstack t sd).get? k = sd.get? k :=
  (get?_foldl_set (fun _ _ h => Nat.add_left_cancel (format_inj h)) (fun e => t.select op.dim e) _ _ sd).2 hk

theorem Stack.primeToHf_none (op : Stack) (h : sd.get? op.stacked = none) : op.primeToHf sd = .ok sd := by
  rw [Stack.primeToHf, h]

theorem Stack.primeToHf_some (op : Stack) {t : Tensor α} (h : sd.get? op.stacked = some t) :
    op.primeToHf sd = if op.dim < t.shape.length then .ok (op.unstack t (sd.erase op.stacked)) else .error .indexError := by
  rw [Stack.primeToHf, h]

/-- **Backward, no stacked tensor is left.** -/
theorem Stack.primeToHf_stacked (op : Stack) (hkey : ∀ e, op.stacked ≠ op.item.format e)
    (h : op.primeToHf sd = .ok sd') : sd'.get? op.stacked = none := by
  cases hget : sd.get? op.stacked with
  | none =>
    rw [op.primeToHf_none hget] at h
    cases h
    exact hget
  | some t =>
    rw [op.primeToHf_some hget] at h
    split at h
    · cases h
      rw [op.get?_unstack_of_ne t _ fun e _ => hkey _, get?_erase, if_pos rfl]
    · exact nomatch h

/-! ## Both -/

theorem covers_stack {op : Stack} (hs : op.stacked ∈ K) (hi : ∀ e, op.item.format e ∈ K) :
    Covers (.stack op : ConvOp α) K where
  forward := by
    refine ⟨fun {d d'} h k hk => ?_, fun {d₁ d₂ d₁'} ha h => ?_⟩
    · obtain ⟨items, hrun⟩ := exists_run op.item d
      rw [(op.hfToPrime_eq_ok hrun h).2 k, if_neg fun hst : k = op.stacked ∧ items ≠ [] => hk (hst.1 ▸ hs)]
      exact if_neg fun ⟨i, _, hit⟩ => hk (hit ▸ hi i)
    · obtain ⟨items, hrun⟩ := exists_run op.item d₁
      obtain ⟨hst, hget⟩ := op.hfToPrime_eq_ok hrun h
      obtain ⟨d₂', h₂⟩ := op.hfToPrime_isOk (hrun.of_agreeOn hi ha) hst
      refine ⟨d₂', h₂, fun k hk => ?_⟩
      rw [hget, (op.hfToPrime_eq_ok (hrun.of_agreeOn hi ha) h₂).2 k, ha k hk]
  backward := by
    have hun : ∀ t : Tensor α, Local K (fun sd => if op.dim < t.shape.length then .ok (op.unstack t sd)
        else (.error .indexError : Except ConvError (StateDict α))) := by
      intro t
      by_cases hdim : op.dim < t.shape.length
      · simp only [if_pos hdim]
        exact Local.foldl _ fun e _ => hi _
      · simp only [if_neg hdim]
        exact Local.error _
    refine Local.lookup hs Local.pure (fun t => (Local.erase hs).bind (hun t)) (fun d h => ?_) fun d t h => ?_
    · rw [ConvOp.primeToHf, op.primeToHf_none h]
    · rw [ConvOp.primeToHf, op.primeToHf_some h]
      rfl

/-- **A `Stack` gives back** exactly the dicts that hold no stacked tensor and whose run can be stacked. -/
theorem stack_roundTrip {op : Stack} (hoff : op.indexOffset = 0) (hkey : ∀ e, op.stacked ≠ op.item.format e)
    {items : List (Tensor α)} (hrun : Run op.item 0 sd items) :
    RoundTrip op.hfToPrime op.primeToHf sd ↔ sd.get? op.stacked = none ∧ Stackable op.dim items := by
  constructor
  · rintro ⟨d, d', h, h', hs⟩
    refine ⟨(hs op.stacked).symm.trans (op.primeToHf_stacked hkey h'), ?_⟩
    by_cases hne : items = []
    · intro t ht
      rw [hne] at ht
      exact nomatch ht
    · exact (op.hfToPrime_eq_ok hrun h).1 hne
  · rintro ⟨hnone, hst⟩
    obtain ⟨d, h⟩ := op.hfToPrime_isOk hrun fun _ => hst
    have hget := (op.hfToPrime_eq_ok hrun h).2
    by_cases hne : items = []
    · have hsame : Same d sd := fun k => by
        rw [hget, if_neg fun h : k = op.stacked ∧ items ≠ [] => h.2 hne, hne]
        exact if_neg fun ⟨i, hi, _⟩ => absurd hi (Nat.not_lt_zero i)
      exact ⟨d, d, h, op.primeToHf_none ((hsame _).trans hnone), hsame⟩
    · obtain ⟨u, hu⟩ := List.exists_mem_of_ne_nil _ hne
      have hshape : ∀ t ∈ items, t.shape = u.shape := (hst u hu).2
      have hdim : op.dim ≤ u.shape.length := (hst u hu).1
      have hsome : d.get? op.stacked = some (Tensor.stack op.dim items) := by rw [hget, if_pos ⟨rfl, hne⟩]
      have hrank : op.dim < (Tensor.stack op.dim items).shape.length := by
        rw [Tensor.shape_stack hshape hne, List.length_insertIdx_of_le_length hdim]
        omega
      have hsize : (Tensor.stack op.dim items).size op.dim = items.length := Tensor.size_stack hshape hne hdim
      refine ⟨d, _, h, by rw [op.primeToHf_some hsome, if_pos hrank], fun k => ?_⟩
      by_cases hk : ∃ e < items.length, k = op.item.format e
      · obtain ⟨e, he, rfl⟩ := hk
        have hun := op.get?_unstack (Tensor.stack op.dim items) (d.erase op.stacked) (hsize.symm ▸ he)
        have hheld := hrun e (Nat.le_of_lt he)
        rw [hoff, Nat.zero_add] at hun
        rw [Nat.zero_add, List.getElem?_eq_getElem he] at hheld
        rw [hun, hheld, Tensor.select_stack hshape hdim he]
      · have hout : ∀ e < (Tensor.stack op.dim items).size op.dim, k ≠ op.item.format (op.indexOffset + e) := by
          intro e he heq
          rw [hoff, Nat.zero_add] at heq
          exact hk ⟨e, hsize ▸ he, heq⟩
        rw [op.get?_unstack_of_ne _ _ hout, get?_erase]
        by_cases hks : k = op.stacked
        · rw [if_pos hks, hks, hnone]
        · rw [if_neg hks, hget, if_neg fun h : k = op.stacked ∧ items ≠ [] => hks h.1, if_neg hk]

end Conversion
end Aether
