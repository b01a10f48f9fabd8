import AetherRl.Tensor
import Mathlib.Data.List.GetD
/-!
# TensorStack — tensors in a new dimension

`stack` puts tensors of one shape one behind the other in a new dimension; `select` takes them out again, and what
`narrow` takes from a later dimension of the stack it takes from each of them.
-/

namespace Shape

theorem inside_length : ∀ {s idx : List Nat}, Inside s idx → idx.length = s.length
  | [], [], _ => rfl
  | _ :: _, _ :: _, h => congrArg (· + 1) (inside_length h.2)

theorem inside_insertIdx : ∀ {d n i : Nat} {s idx : List Nat}, Inside s idx → i < n →
    Inside (s.insertIdx d n) (idx.insertIdx d i)
  | 0, n, i, s, idx, h, hi => by
    rw [List.insertIdx_zero, List.insertIdx_zero]
    exact ⟨hi, h⟩
  | d + 1, n, i, [], [], h, hi => by
    rw [List.insertIdx_succ_nil, List.insertIdx_succ_nil]
    exact h
  | d + 1, n, i, m :: s, j :: idx, h, hi => by
    rw [List.insertIdx_succ_cons, List.insertIdx_succ_cons]
    exact ⟨h.1, inside_insertIdx h.2 hi⟩

theorem inside_set : ∀ {d n i : Nat} {s idx : List Nat}, Inside s idx → i < n → Inside (s.set d n) (idx.set d i)
  | _, _, _, [], [], h, _ => h
  | 0, _, _, _ :: _, _ :: _, h, hi => ⟨hi, h.2⟩
  | _ + 1, _, _, _ :: _, _ :: _, h, hi => ⟨h.1, inside_set h.2 hi⟩

theorem inside_getD : ∀ {d : Nat} {s idx : List Nat}, Inside s idx → d < s.length → idx.getD d 0 < s.getD d 0
  | _, [], [], _, hd => absurd hd (Nat.not_lt_zero _)
  | 0, _ :: _, _ :: _, h, _ => h.1
  | d + 1, _ :: s, _ :: idx, h, hd => by
    rw [List.getD_cons_succ, List.getD_cons_succ]
    exact inside_getD h.2 (Nat.lt_of_succ_lt_succ hd)

/-- **A place of a narrowed dimension** is a place of the whole, moved by the start. -/
theorem inside_modify : ∀ {d start n : Nat} {s idx : List Nat}, Inside (s.set d n) idx → start + n ≤ s.getD d 0 →
    Inside s (idx.modify d (· + start))
  | _, _, _, [], [], _, _ => by simp
  | 0, start, n, m :: s, i :: idx, h, hle => by
    have hin : i < n := h.1
    have hm : start + n ≤ m := hle
    have hlt : i + start < m := by omega
    exact ⟨hlt, h.2⟩
  | d + 1, _, _, _ :: _, _ :: _, h, hle => ⟨h.1, inside_modify h.2 hle⟩

end Shape

open Shape

namespace Tensor

variable {α : Type} [Zero α] {s : List Nat} {ts : List (Tensor α)}

/-- The tensors one behind the other in a new dimension `d`. -/
def stack (d : Nat) (ts : List (Tensor α)) : Tensor α :=
  ofFn ((ts.headD empty).shape.insertIdx d ts.length) fun idx => (ts.getD (idx.getD d 0) empty).get (idx.eraseIdx d)

theorem shape_headD (hs : ∀ t ∈ ts, t.shape = s) (hne : ts ≠ []) : (ts.headD empty).shape = s := by
  cases ts with
  | nil => exact absurd rfl hne
  | cons t ts => exact hs t List.mem_cons_self

theorem shape_stack (hs : ∀ t ∈ ts, t.shape = s) (hne : ts ≠ []) (d : Nat) :
    (stack d ts).shape = s.insertIdx d ts.length := by
  rw [stack, shape_ofFn, shape_headD hs hne]

theorem size_stack (hs : ∀ t ∈ ts, t.shape = s) (hne : ts ≠ []) {d : Nat} (hd : d ≤ s.length) :
    (stack d ts).size d = ts.length := by
  rw [size_of_shape (shape_stack hs hne d), List.getD_eq_getElem?_getD, List.getElem?_insertIdx_self, if_pos hd]
  rfl

theorem get_stack (hs : ∀ t ∈ ts, t.shape = s) {d e : Nat} (hd : d ≤ s.length) (he : e < ts.length) {idx : List Nat}
    (hi : Inside s idx) : (stack d ts).get (idx.insertIdx d e) = ts[e].get idx := by
  have hne : ts ≠ [] := List.ne_nil_of_length_pos (Nat.lt_of_le_of_lt (Nat.zero_le e) he)
  have hlen : d ≤ idx.length := by rw [inside_length hi]; exact hd
  have hget : (idx.insertIdx d e).getD d 0 = e := by
    rw [List.getD_eq_getElem?_getD, List.getElem?_insertIdx_self, if_pos hlen]
    rfl
  have hin : Inside ((ts.headD empty).shape.insertIdx d ts.length) (idx.insertIdx d e) := by
    rw [shape_headD hs hne]
    exact inside_insertIdx hi he
  rw [stack, get_ofFn hin, hget, List.eraseIdx_insertIdx_self, List.getD_eq_getElem _ _ he]

/-- **What was stacked is selected**: entry `e` of the new dimension is tensor `e`. -/
theorem select_stack (hs : ∀ t ∈ ts, t.shape = s) {d e : Nat} (hd : d ≤ s.length) (he : e < ts.length) :
    (stack d ts).select d e = ts[e] := by
  have hne : ts ≠ [] := List.ne_nil_of_length_pos (Nat.lt_of_le_of_lt (Nat.zero_le e) he)
  have hshape : (stack d ts).shape.eraseIdx d = s := by rw [shape_stack hs hne, List.eraseIdx_insertIdx_self]
  refine ext_inside (hshape.trans (hs _ (List.getElem_mem he)).symm) fun idx hi => ?_
  have hin : Inside s idx := hshape ▸ hi
  rw [select, get_ofFn (hshape.symm ▸ hin)]
  exact get_stack hs hd he hin

theorem shape_narrow (t : Tensor α) (d start n : Nat) (h : start + n ≤ t.size d) :
    (t.narrow d start (start + n)).shape = t.shape.set d n := by
  rw [narrow, shape_ofFn, Nat.min_eq_left h, Nat.add_sub_cancel_left]

theorem get_narrow {t : Tensor α} {d start n : Nat} (h : start + n ≤ t.size d) {idx : List Nat}
    (hi : Inside (t.shape.set d n) idx) :
    (t.narrow d start (start + n)).get idx = t.get (idx.modify d (· + start)) := by
  have hin : Inside (t.shape.set d (min (start + n) (t.size d) - start)) idx := by
    rw [Nat.min_eq_left h, Nat.add_sub_cancel_left]
    exact hi
  rw [narrow, get_ofFn hin]

/-- **A piece of a later dimension of the stack** is the stack of the pieces. -/
theorem narrow_stack (hs : ∀ t ∈ ts, t.shape = s) (hne : ts ≠ []) {d start n : Nat} (h : start + n ≤ s.getD d 0) :
    (stack 0 ts).narrow (d + 1) start (start + n) = stack 0 (ts.map (narrow d start (start + n))) := by
  have hs' : ∀ u ∈ ts.map (narrow d start (start + n)), u.shape = s.set d n := by
    intro u hu
    obtain ⟨t, ht, rfl⟩ := List.mem_map.1 hu
    rw [shape_narrow t d start n (by rw [size_of_shape (hs t ht)]; exact h), hs t ht]
  have hne' : ts.map (narrow d start (start + n)) ≠ [] := by simpa using hne
  have hstack : (stack 0 ts).shape = ts.length :: s := shape_stack hs hne 0
  have hle : start + n ≤ (stack 0 ts).size (d + 1) := by
    rw [size_of_shape hstack]
    exact h
  have hshape : ((stack 0 ts).narrow (d + 1) start (start + n)).shape = ts.length :: s.set d n := by
    rw [shape_narrow _ _ _ _ hle, hstack]
    rfl
  have hshape' : (stack 0 (ts.map (narrow d start (start + n)))).shape = ts.length :: s.set d n := by
    rw [shape_stack hs' hne', List.length_map]
    rfl
  refine ext_inside (hshape.trans hshape'.symm) fun idx hi => ?_
  rw [hshape] at hi
  match idx, hi with
  | e :: idx, ⟨he, hidx⟩ =>
    have hte : (ts[e]).shape = s := hs _ (List.getElem_mem he)
    have hhead : Inside ((stack 0 ts).shape.set (d + 1) n) (e :: idx) := by
      rw [hstack]
      exact ⟨he, hidx⟩
    have hpiece : (stack 0 (ts.map (narrow d start (start + n)))).get (e :: idx) =
        (ts[e].narrow d start (start + n)).get idx := by
      have := get_stack hs' (Nat.zero_le _) (by simpa using he) hidx (e := e)
      simpa using this
    rw [get_narrow hle hhead, hpiece, List.modify_succ_cons,
      get_narrow (by rw [size_of_shape hte]; exact h) (by rw [hte]; exact hidx)]
    exact get_stack hs (Nat.zero_le _) he (inside_modify hidx h)

/-! ## Two tensors side by side -/

section Pair

variable {t u : Tensor α} {m n : Nat}

theorem shape_cat_pair (ht : t.shape = m :: s) (hu : u.shape = n :: s) : (cat 0 [t, u]).shape = (m + n) :: s := by
  rw [cat, shape_ofFn, List.map_cons, List.map_cons, List.map_nil, size_of_shape ht, size_of_shape hu]
  simp [ht]

theorem get_cat_pair (ht : t.shape = m :: s) (hu : u.shape = n :: s) {i : Nat} {idx : List Nat} (hi : i < m + n)
    (hidx : Inside s idx) :
    (cat 0 [t, u]).get (i :: idx) = if i < m then t.get (i :: idx) else u.get ((i - m) :: idx) := by
  have hin : Inside (([t, u].headD empty).shape.set 0 ([t, u].map (·.size 0)).sum) (i :: idx) := by
    have := shape_cat_pair ht hu
    rw [cat, shape_ofFn] at this
    rw [this]
    exact ⟨hi, hidx⟩
  have hlt : i - m < n ∨ i < m := by omega
  rw [cat, get_ofFn hin, catGet, size_of_shape ht]
  by_cases him : i < m
  · rw [if_pos (show (i :: idx).getD 0 0 < (m :: s).getD 0 0 from him), if_pos him]
    rfl
  · rw [if_neg (show ¬ (i :: idx).getD 0 0 < (m :: s).getD 0 0 from him), if_neg him, catGet, size_of_shape hu,
      if_pos (show (i :: idx).getD 0 0 - (m :: s).getD 0 0 < (n :: s).getD 0 0 from hlt.resolve_right him)]
    rfl

/-- **The first half of two tensors side by side** is the first. -/
theorem narrow_cat_left (ht : t.shape = m :: s) (hu : u.shape = n :: s) :
    (cat 0 [t, u]).narrow 0 0 (0 + m) = t := by
  have hle : 0 + m ≤ (cat 0 [t, u]).size 0 := by
    rw [size_of_shape (shape_cat_pair ht hu), List.getD_cons_zero]
    omega
  have hshape : ((cat 0 [t, u]).narrow 0 0 (0 + m)).shape = m :: s := by
    rw [shape_narrow _ _ _ _ hle, shape_cat_pair ht hu, List.set_cons_zero]
  refine ext_inside (hshape.trans ht.symm) fun idx hi => ?_
  rw [hshape] at hi
  match idx, hi with
  | i :: idx, ⟨him, hidx⟩ =>
    rw [get_narrow hle (by rw [shape_cat_pair ht hu]; exact ⟨him, hidx⟩), List.modify_zero_cons, Nat.add_zero,
      get_cat_pair ht hu (Nat.lt_add_right n him) hidx, if_pos him]

/-- **The second half of two tensors side by side** is the second. -/
theorem narrow_cat_right (ht : t.shape = m :: s) (hu : u.shape = n :: s) :
    (cat 0 [t, u]).narrow 0 m (m + n) = u := by
  have hle : m + n ≤ (cat 0 [t, u]).size 0 := by
    rw [size_of_shape (shape_cat_pair ht hu), List.getD_cons_zero]
  have hshape : ((cat 0 [t, u]).narrow 0 m (m + n)).shape = n :: s := by
    rw [shape_narrow _ _ _ _ hle, shape_cat_pair ht hu, List.set_cons_zero]
  refine ext_inside (hshape.trans hu.symm) fun idx hi => ?_
  rw [hshape] at hi
  match idx, hi with
  | i :: idx, ⟨hin, hidx⟩ =>
    rw [get_narrow hle (by rw [shape_cat_pair ht hu]; exact ⟨hin, hidx⟩), List.modify_zero_cons,
      get_cat_pair ht hu (by omega) hidx, if_neg (by omega), Nat.add_sub_cancel]

end Pair

/-! ## Pieces of one dimension -/

section Pieces

variable {t : Tensor α} {d : Nat}

/-- The consecutive pieces of the given sizes in dimension `d`, from `offset` on. -/
def pieces (d : Nat) (t : Tensor α) : List Nat → Nat → List (Tensor α)
  | [], _ => []
  | n :: sizes, offset => t.narrow d offset (offset + n) :: pieces d t sizes (offset + n)

theorem size_narrow (hd : d < t.shape.length) {start n : Nat} (h : start + n ≤ t.size d) :
    (t.narrow d start (start + n)).size d = n := by
  rw [size_of_shape (shape_narrow t d start n h), List.getD_eq_getElem _ _ (by rwa [List.length_set]), List.getElem_set_self]

theorem shape_pieces (hd : d < t.shape.length) : ∀ {sizes : List Nat} {offset : Nat}, offset + sizes.sum ≤ t.size d →
    ∀ u ∈ pieces d t sizes offset, ∃ n ∈ sizes, u.shape = t.shape.set d n ∧ u.size d = n
  | n :: sizes, offset, h, u, hu => by
    rw [List.sum_cons] at h
    have hfit : offset + n ≤ t.size d := by omega
    rcases List.mem_cons.1 hu with rfl | hu
    · exact ⟨n, List.mem_cons_self, shape_narrow t d offset n hfit, size_narrow hd hfit⟩
    · obtain ⟨m, hm, hs⟩ := shape_pieces hd (by omega) u hu
      exact ⟨m, List.mem_cons_of_mem _ hm, hs⟩

theorem sum_pieces (hd : d < t.shape.length) : ∀ {sizes : List Nat} {offset : Nat}, offset + sizes.sum ≤ t.size d →
    ((pieces d t sizes offset).map (·.size d)).sum = sizes.sum
  | [], _, _ => rfl
  | n :: sizes, offset, h => by
    rw [List.sum_cons] at h
    rw [pieces, List.map_cons, List.sum_cons, List.sum_cons, size_narrow hd (by omega), sum_pieces hd (by omega)]

/-- **Side by side, the pieces read as the whole.** -/
theorem catGet_pieces (hd : d < t.shape.length) {idx : List Nat} (hidx : Inside t.shape idx) :
    ∀ {sizes : List Nat} {offset x : Nat}, offset + sizes.sum ≤ t.size d → x < sizes.sum →
    catGet d (pieces d t sizes offset) x idx = t.get (idx.set d (offset + x))
  | [], _, x, _, hx => absurd hx (Nat.not_lt_zero x)
  | n :: sizes, offset, x, h, hx => by
    rw [List.sum_cons] at h hx
    have hfit : offset + n ≤ t.size d := by omega
    have hlen : d < idx.length := by rwa [inside_length hidx]
    rw [pieces, catGet, size_narrow hd hfit]
    by_cases hxn : x < n
    · rw [if_pos hxn, get_narrow hfit (inside_set hidx hxn)]
      refine congrArg t.get (List.ext_getElem? fun i => ?_)
      rw [List.getElem?_modify, List.getElem?_set, List.getElem?_set]
      by_cases hi : d = i
      · rw [if_pos hi, if_pos hi, if_pos hlen, if_pos hlen]
        simp [hi, Nat.add_comm]
      · simp [hi]
    · rw [if_neg hxn, catGet_pieces hd hidx (by omega) (by omega), show offset + n + (x - n) = offset + x by omega]

theorem catGet_filter {p : Tensor α → Bool} : ∀ {ts : List (Tensor α)}, (∀ u ∈ ts, p u = false → u.size d = 0) →
    ∀ x idx, catGet d (ts.filter p) x idx = catGet d ts x idx
  | [], _, _, _ => rfl
  | u :: ts, h, x, idx => by
    have ih := catGet_filter fun v hv => h v (List.mem_cons_of_mem _ hv)
    by_cases hu : p u = true
    · rw [List.filter_cons_of_pos hu, catGet, catGet, ih]
    · have hzero : u.size d = 0 := h u List.mem_cons_self (Bool.eq_false_iff.2 hu)
      rw [List.filter_cons_of_neg hu, catGet, ih, hzero, if_neg (Nat.not_lt_zero x), Nat.sub_zero]

theorem sum_filter {p : Tensor α → Bool} : ∀ {ts : List (Tensor α)}, (∀ u ∈ ts, p u = false → u.size d = 0) →
    ((ts.filter p).map (·.size d)).sum = (ts.map (·.size d)).sum
  | [], _ => rfl
  | u :: ts, h => by
    have ih := sum_filter fun v hv => h v (List.mem_cons_of_mem _ hv)
    by_cases hu : p u = true
    · rw [List.filter_cons_of_pos hu, List.map_cons, List.map_cons, List.sum_cons, List.sum_cons, ih]
    · rw [List.filter_cons_of_neg hu, List.map_cons, List.sum_cons, ih, h u List.mem_cons_self (Bool.eq_false_iff.2 hu),
        Nat.zero_add]

/-- **The pieces of a whole dimension side by side** are the tensor. -/
theorem cat_pieces (hd : d < t.shape.length) {sizes : List Nat} (hsum : sizes.sum = t.size d) {p : Tensor α → Bool}
    (hp : ∀ u ∈ pieces d t sizes 0, p u = false → u.size d = 0) (hne : (pieces d t sizes 0).filter p ≠ []) :
    cat d ((pieces d t sizes 0).filter p) = t := by
  have hfit : 0 + sizes.sum ≤ t.size d := by omega
  have hsize : t.size d = t.shape[d] := List.getD_eq_getElem _ _ hd
  have htotal : (((pieces d t sizes 0).filter p).map (·.size d)).sum = t.size d := by
    rw [sum_filter hp, sum_pieces hd hfit, hsum]
  have hshape : (cat d ((pieces d t sizes 0).filter p)).shape = t.shape := by
    rw [cat, shape_ofFn, htotal]
    cases hf : (pieces d t sizes 0).filter p with
    | nil => exact absurd hf hne
    | cons u us =>
      have hu : u ∈ pieces d t sizes 0 := List.mem_of_mem_filter (hf ▸ List.mem_cons_self)
      obtain ⟨n, -, hs, -⟩ := shape_pieces hd hfit u hu
      rw [List.headD_cons, hs, List.set_set, hsize, List.set_getElem_self]
  refine ext_inside hshape fun idx hi => ?_
  have hin : Inside t.shape idx := hshape ▸ hi
  have hx : idx.getD d 0 < sizes.sum := by
    rw [hsum]
    exact inside_getD hin hd
  have hi' : Inside ((((pieces d t sizes 0).filter p).headD empty).shape.set d
      (((pieces d t sizes 0).filter p).map (·.size d)).sum) idx := hi
  have hlen : d < idx.length := by rwa [inside_length hin]
  rw [cat, get_ofFn hi', catGet_filter hp, catGet_pieces hd hin hfit hx, Nat.zero_add, List.getD_eq_getElem _ _ hlen,
    List.set_getElem_self]

end Pieces

end Tensor
