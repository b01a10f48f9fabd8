import AetherRl.RingForward
/-!
# RingBackward — the gradients are those of one call, summed over the ranks

After `c` iterations each rank's `dq`, `dk` and `dv` agree with the gradients of one call in the first `c` groups of
heads: `dq` with the rank's own call, `dk` and `dv` with the sum over all ranks of what their calls give its rows.
-/
namespace Aether
namespace Ring

open Tensor Shape

section
variable {α : Type} [AddCommMonoid α]

/-! ## The kernel, group by group -/

/-- One query head of what the kernel reads. -/
def QuerySide.head (x : QuerySide α) (j : Nat) : QuerySide α :=
  ⟨x.dout.select 1 j, x.q.select 1 j, x.out.select 1 j, x.softmaxLse.select 0 j⟩

/-- One group of query heads. -/
def QuerySide.group (m c : Nat) (x : QuerySide α) : QuerySide α :=
  ⟨heads m c x.dout, heads m c x.q, heads m c x.out, chunk m c x.softmaxLse⟩

structure QuerySide.Shaped (x : QuerySide α) (sq hq d : Nat) : Prop where
  dout : x.dout.shape = [sq, hq, d]
  q : x.q.shape = [sq, hq, d]
  out : x.out.shape = [sq, hq, d]
  lse : x.softmaxLse.shape = [hq, sq]

structure KernelGrads.Shaped (g : KernelGrads α) (sq hq sk hk d : Nat) : Prop where
  dq : g.dq.shape = [sq, hq, d]
  dk : g.dk.shape = [sk, hk, d]
  dv : g.dv.shape = [sk, hk, d]

/-- The kernel computes the gradient of each query head from its KV head only, and those of a KV head from its query
heads only. -/
def GqaBackward (bwd : QuerySide α → Tensor α → Tensor α → KernelGrads α) : Prop :=
  ∃ (dqHead : QuerySide α → Tensor α → Tensor α → Tensor α)
    (dkHead dvHead : List (QuerySide α) → Tensor α → Tensor α → Tensor α),
    ∀ (x : QuerySide α) (k v : Tensor α) (sq hq d sk hk : Nat), x.Shaped sq hq d → k.shape = [sk, hk, d] →
      v.shape = [sk, hk, d] → hk ∣ hq →
      (bwd x k v).Shaped sq hq sk hk d ∧
      (∀ j < hq, (bwd x k v).dq.select 1 j =
        dqHead (x.head j) (k.select 1 (j / (hq / hk))) (v.select 1 (j / (hq / hk)))) ∧
      ∀ j < hk,
        (bwd x k v).dk.select 1 j =
          dkHead ((List.range (hq / hk)).map fun i => x.head (j * (hq / hk) + i)) (k.select 1 j) (v.select 1 j) ∧
        (bwd x k v).dv.select 1 j =
          dvHead ((List.range (hq / hk)).map fun i => x.head (j * (hq / hk) + i)) (k.select 1 j) (v.select 1 j)

theorem QuerySide.Shaped.group {x : QuerySide α} {m c h sq d : Nat} (hx : x.Shaped sq (m * h) d) (hc : c < m) :
    (x.group m c).Shaped sq h d :=
  ⟨shape_heads hx.dout hc, shape_heads hx.q hc, shape_heads hx.out hc, shape_chunk hx.lse hc⟩

theorem QuerySide.head_group {x : QuerySide α} {m c h sq d j : Nat} (hx : x.Shaped sq (m * h) d) (hc : c < m)
    (hj : j < h) : (x.group m c).head j = x.head (c * h + j) := by
  unfold QuerySide.head QuerySide.group
  dsimp only
  rw [select_heads hx.dout hc hj, select_heads hx.q hc hj, select_heads hx.out hc hj, select_chunk hx.lse hc hj]

/-- **A call with a group of heads** returns the gradients of that group. -/
theorem GqaBackward.group {bwd : QuerySide α → Tensor α → Tensor α → KernelGrads α} (h : GqaBackward bwd)
    {x : QuerySide α} {k v : Tensor α} {sq sk m s g d c : Nat} (hm : 0 < m) (hs : 0 < s)
    (hx : x.Shaped sq (m * (s * g)) d) (hk : k.shape = [sk, m * s, d]) (hv : v.shape = [sk, m * s, d]) (hc : c < m) :
    bwd (x.group m c) (heads m c k) (heads m c v) =
      ⟨heads m c (bwd x k v).dq, heads m c (bwd x k v).dk, heads m c (bwd x k v).dv⟩ := by
  obtain ⟨dqHead, dkHead, dvHead, h⟩ := h
  have hdvd : m * s ∣ m * (s * g) := ⟨g, (Nat.mul_assoc m s g).symm⟩
  have hg : m * (s * g) / (m * s) = g := by rw [← Nat.mul_assoc, Nat.mul_div_cancel_left g (Nat.mul_pos hm hs)]
  have hgc : s * g / s = g := Nat.mul_div_cancel_left g hs
  obtain ⟨hshape, hdq, hdkv⟩ := h x k v _ _ _ _ _ hx hk hv hdvd
  obtain ⟨hshapec, hdqc, hdkvc⟩ := h _ _ _ _ _ _ _ _ (hx.group hc) (shape_heads hk hc) (shape_heads hv hc)
    (Nat.dvd_mul_right s g)
  have hqueries : ∀ j < s, ((List.range (s * g / s)).map fun i => (x.group m c).head (j * (s * g / s) + i)) =
      (List.range (m * (s * g) / (m * s))).map fun i => x.head ((c * s + j) * (m * (s * g) / (m * s)) + i) := by
    intro j hj
    rw [hg, hgc]
    refine List.map_congr_left fun i hi => ?_
    rw [QuerySide.head_group hx hc (place_lt hj (List.mem_range.1 hi))]
    congr 1
    ring
  have hparts : ∀ {a b : KernelGrads α}, a.dq = b.dq → a.dk = b.dk → a.dv = b.dv → a = b := by
    rintro ⟨_, _, _⟩ ⟨_, _, _⟩ rfl rfl rfl
    rfl
  refine hparts ?_ ?_ ?_
  · refine ext_heads hshapec.dq (shape_heads hshape.dq hc) fun j hj => ?_
    obtain ⟨hkv, hplace⟩ := kvHead_group (c := c) hm hs hj
    rw [hdqc j hj, select_heads hshape.dq hc hj, hdq _ (place_lt hc hj), QuerySide.head_group hx hc hj,
      select_heads hk hc hkv, select_heads hv hc hkv, hplace]
  · refine ext_heads hshapec.dk (shape_heads hshape.dk hc) fun j hj => ?_
    rw [(hdkvc j hj).1, select_heads hshape.dk hc hj, (hdkv _ (place_lt hc hj)).1, hqueries j hj, select_heads hk hc hj,
      select_heads hv hc hj]
  · refine ext_heads hshapec.dv (shape_heads hshape.dv hc) fun j hj => ?_
    rw [(hdkvc j hj).2, select_heads hshape.dv hc hj, (hdkv _ (place_lt hc hj)).2, hqueries j hj, select_heads hk hc hj,
      select_heads hv hc hj]

/-! ## The reduction -/

/-- What a gradient over the key rows from `start` on gives row `x`. -/
def keyRowGrad (start : Nat) (grad : Tensor α) (x : Nat) (idx : List Nat) : α :=
  if start ≤ x ∧ x < start + grad.size 0 then grad.get ((x - start) :: idx) else 0

/-- The gradients of rank `r`'s key rows, summed over the `n` ranks. -/
def summedGrads (n T H d : Nat) (start : Nat → Nat) (G : Nat → Tensor α) (r : Nat) : Tensor α :=
  ofFn [T, H, d] fun idx =>
    match idx with
    | x :: rest => ((List.range n).map fun i => keyRowGrad (start i) (G i) (r * T + x) rest).sum
    | [] => 0

section
variable {n T m s d : Nat} {R : Nat → SavedRank α} {G : Nat → Tensor α}

theorem shape_gradBuffer {me : SavedRank α} (hk : me.k.shape = [T, m * s, d]) (grad : Tensor α) :
    (gradBuffer n s me grad).shape = [n * T, s, d] := by
  show [me.k.size 0 * n, s, me.k.size 2] = _
  rw [size_of_shape hk, size_of_shape hk]
  show [T * n, s, d] = _
  rw [Nat.mul_comm]

theorem get_gradBuffer {me : SavedRank α} (hk : me.k.shape = [T, m * s, d]) (grad : Tensor α) {x j e : Nat}
    (hx : x < n * T) (hj : j < s) (he : e < d) :
    (gradBuffer n s me grad).get [x, j, e] = keyRowGrad me.args.localKSliceStart grad x [j, e] := by
  have hin : Inside (gradBuffer n s me grad).shape [x, j, e] := by
    rw [shape_gradBuffer hk]
    exact ⟨hx, hj, he, trivial⟩
  rw [gradBuffer, write, shape_ofFn] at hin
  rw [gradBuffer, write, get_ofFn hin, keyRowGrad]
  have hzero : (ofFn [me.k.size 0 * n, s, me.k.size 2] fun _ => (0 : α)).get [x, j, e] = 0 := get_ofFn hin
  rw [hzero]
  rfl

/-- **The reduction of a group of heads** leaves each rank that group of its summed gradients. -/
theorem reduceScatter_group (hn : 0 < n) (hk : ∀ r < n, (R r).k.shape = [T, m * s, d])
    (hG : ∀ r < n, ∃ a, (G r).shape = [a, m * s, d]) {c : Nat} (hc : c < m) :
    reduceScatter ((List.range n).map fun r => gradBuffer n s (R r) (heads m c (G r))) =
      (List.range n).map fun r =>
        heads m c (summedGrads n T (m * s) d (fun r => (R r).args.localKSliceStart) G r) := by
  have hshape : (sumAll ((List.range n).map fun r => gradBuffer n s (R r) (heads m c (G r)))).shape = [n * T, s, d] := by
    rw [sumAll, shape_ofFn, head_range hn]
    exact shape_gradBuffer (hk 0 hn) _
  have hlen : ((List.range n).map fun r => gradBuffer n s (R r) (heads m c (G r))).length = n := by simp
  unfold reduceScatter
  rw [hlen]
  refine List.map_congr_left fun r hr => ?_
  replace hr := List.mem_range.1 hr
  have hsum : (summedGrads n T (m * s) d (fun r => (R r).args.localKSliceStart) G r).shape = [T, m * s, d] := rfl
  refine ext₃ (shape_chunk hshape hr) (shape_heads hsum hc) fun x hx j hj e he => ?_
  have hlow : Inside [s, d] [j, e] := ⟨hj, he, trivial⟩
  have hwide : Inside [T, m * s, d] [x, c * s + j, e] := ⟨hx, place_lt hc hj, he, trivial⟩
  have hplace : Inside (sumAll ((List.range n).map fun r => gradBuffer n s (R r) (heads m c (G r)))).shape
      [r * T + x, j, e] := by
    rw [hshape]
    exact ⟨place_lt hr hx, hlow⟩
  rw [get_chunk hshape hr hx hlow, get_heads hsum hc hx hj he]
  rw [sumAll, shape_ofFn] at hplace
  rw [sumAll, get_ofFn hplace, List.map_map]
  refine Eq.trans ?_ (get_ofFn hwide).symm
  dsimp only
  refine congrArg List.sum (List.map_congr_left fun i hi => ?_)
  replace hi := List.mem_range.1 hi
  obtain ⟨a, ha⟩ := hG i hi
  have hsize : (heads m c (G i)).size 0 = a := size_of_shape (shape_heads ha hc) 0
  have hsize' : (G i).size 0 = a := size_of_shape ha 0
  show (gradBuffer n s (R i) (heads m c (G i))).get [r * T + x, j, e] = _
  rw [get_gradBuffer (hk i hi) _ (place_lt hr hx) hj he, keyRowGrad, keyRowGrad, hsize, hsize']
  by_cases hrow : (R i).args.localKSliceStart ≤ r * T + x ∧ r * T + x < (R i).args.localKSliceStart + a
  · rw [if_pos hrow, if_pos hrow]
    exact get_heads ha hc (by omega) hj he
  · rw [if_neg hrow, if_neg hrow]

end

/-! ## Groups written one after the other -/

/-- `t` agrees with `whole` in the first `c` groups of `w` heads. -/
structure Filled (c w : Nat) (t whole : Tensor α) : Prop where
  shape : t.shape = whole.shape
  agree : ∀ i j e, j < c * w → t.get [i, j, e] = whole.get [i, j, e]

section
variable {t whole : Tensor α} {S m w d c : Nat}

theorem get_write (ht : t.shape = [S, m * w, d]) {part : Tensor α} {start i j e : Nat} (hi : i < S) (hj : j < m * w)
    (he : e < d) : (t.write 1 start part).get [i, j, e] =
      if start ≤ j ∧ j < start + part.size 1 then part.get [i, j - start, e] else t.get [i, j, e] := by
  refine get_ofFn ?_
  rw [ht]
  exact ⟨hi, hj, he, trivial⟩

/-- **Writing group `c`** fills one more. -/
theorem Filled.write (h : Filled c w t whole) (hw : whole.shape = [S, m * w, d]) (hc : c < m) :
    Filled (c + 1) w (t.write 1 (c * w) (heads m c whole)) whole := by
  refine ⟨h.shape, fun i j e hj => ?_⟩
  by_cases hin : i < S ∧ e < d
  · have hjm : j < m * w := lt_of_lt_of_le hj (Nat.mul_le_mul_right w hc)
    have hsize : (heads m c whole).size 1 = w := size_of_shape (shape_heads hw hc) 1
    rw [get_write (h.shape.trans hw) hin.1 hjm hin.2, hsize]
    rw [Nat.succ_mul] at hj
    by_cases hnew : c * w ≤ j ∧ j < c * w + w
    · rw [if_pos hnew, get_heads hw hc hin.1 (by omega) hin.2, Nat.add_sub_cancel' hnew.1]
    · rw [if_neg hnew]
      exact h.agree i j e (by omega)
  · have hout : ¬ Inside [S, m * w, d] [i, j, e] := fun h => hin ⟨h.1, h.2.2.1⟩
    have hshape : (t.write 1 (c * w) (heads m c whole)).shape = [S, m * w, d] := h.shape.trans hw
    rw [(t.write 1 (c * w) (heads m c whole)).outside _ (hshape ▸ hout), whole.outside _ (hw ▸ hout)]

theorem Filled.eq (h : Filled m w t whole) (hw : whole.shape = [S, m * w, d]) : t = whole :=
  ext₃ (h.shape.trans hw) hw fun i _ j hj e _ => h.agree i j e hj

/-- With one group, the group is the whole. -/
theorem filled_only (hw : whole.shape = [S, 1 * w, d]) : Filled 1 w (heads 1 0 whole) whole := by
  have hsame : heads 1 0 whole = whole := by
    refine ext₃ (shape_heads hw Nat.one_pos) (hw.trans (by rw [Nat.one_mul])) fun i hi j hj e he => ?_
    rw [get_heads hw Nat.one_pos hi hj he, Nat.zero_mul, Nat.zero_add]
  rw [hsame]
  exact ⟨rfl, fun _ _ _ _ => rfl⟩

end

/-! ## The loop -/

/-- One backward call on everything a rank saved and its slice of the gathered keys. -/
def wholeBackward (bwd : RankInput α → QuerySide α → Tensor α → Tensor α → KernelGrads α) (ranks : List (SavedRank α))
    (me : SavedRank α) : KernelGrads α :=
  bwd me.toRankInput ⟨me.dout, me.q, me.out, me.softmaxLse⟩
    ((gathered (ranks.map (·.toRankInput))).1.narrow 0 me.args.localKSliceStart me.args.localKSliceStop)
    ((gathered (ranks.map (·.toRankInput))).2.narrow 0 me.args.localKSliceStart me.args.localKSliceStop)

/-- What the ranks saved: one shape of keys, and each rank its own number of rows. -/
structure RanksShaped (R : Nat → SavedRank α) (n T m s g d : Nat) (sq : Nat → Nat) : Prop where
  k : ∀ r < n, (R r).k.shape = [T, m * s, d]
  v : ∀ r < n, (R r).v.shape = [T, m * s, d]
  queries : ∀ r < n, (⟨(R r).dout, (R r).q, (R r).out, (R r).softmaxLse⟩ : QuerySide α).Shaped (sq r) (m * (s * g)) d

section
variable (fill : Tensor α) {bwd : RankInput α → QuerySide α → Tensor α → Tensor α → KernelGrads α}
  {R : Nat → SavedRank α} {n T m s g d : Nat} {sq : Nat → Nat}

abbrev inputs (R : Nat → SavedRank α) : Nat → RankInput α := fun r => (R r).toRankInput

theorem map_inputs : ((List.range n).map R).map (·.toRankInput) = (List.range n).map (inputs R) := List.map_map

theorem shape_gathered (hn : 0 < n) (hR : RanksShaped R n T m s g d sq) :
    (gathered ((List.range n).map (inputs R))).1.shape = [n * T, m * s, d] ∧
      (gathered ((List.range n).map (inputs R))).2.shape = [n * T, m * s, d] := by
  simp only [gathered, List.map_map]
  exact ⟨shape_cat hn hR.k, shape_cat hn hR.v⟩

theorem shaped_wholeBackward (hb : ∀ me, GqaBackward (bwd me)) (hn : 0 < n) (hR : RanksShaped R n T m s g d sq) {r : Nat}
    (hr : r < n) : (wholeBackward bwd ((List.range n).map R) (R r)).Shaped (sq r) (m * (s * g))
      (min (R r).args.localKSliceStop (n * T) - (R r).args.localKSliceStart) (m * s) d := by
  obtain ⟨hK, hV⟩ := shape_gathered hn hR
  obtain ⟨_, _, _, h⟩ := hb (R r).toRankInput
  unfold wholeBackward
  rw [map_inputs]
  exact (h _ _ _ _ _ _ _ _ (hR.queries r hr) (shape_rows hK _ _) (shape_rows hV _ _)
    ⟨g, (Nat.mul_assoc m s g).symm⟩).1

theorem narrow_chunk {t : Tensor α} {w c : Nat} {l : List Nat} (hm : 0 < m) (ht : t.shape = m * w :: l) :
    t.narrow 0 (c * w) ((c + 1) * w) = chunk m c t := by
  have hsize : t.size 0 / m = w := by
    rw [size_of_cons ht]
    exact Nat.mul_div_cancel_left w hm
  rw [chunk, piece, hsize]

/-- **A rank's call of iteration `c`** returns that group of the whole call's gradients. -/
theorem backwardCall_eq (hb : ∀ me, GqaBackward (bwd me)) (hn : 0 < n) (hs : 0 < s) (hR : RanksShaped R n T m s g d sq)
    {c r : Nat} (hc : c < m) (hr : r < n) {b : KvBuffers α}
    (hbuf : b.kvBuffer = (heads m c (gathered ((List.range n).map (inputs R))).1,
      heads m c (gathered ((List.range n).map (inputs R))).2)) :
    backwardCall bwd b s (c * s) (R r) = ⟨heads m c (wholeBackward bwd ((List.range n).map R) (R r)).dq,
      heads m c (wholeBackward bwd ((List.range n).map R) (R r)).dk,
      heads m c (wholeBackward bwd ((List.range n).map R) (R r)).dv⟩ := by
  have hm : 0 < m := Nat.zero_lt_of_lt hc
  have hq := hR.queries r hr
  obtain ⟨hK, hV⟩ := shape_gathered hn hR
  have hkq : (R r).k.size 1 = m * s := size_of_shape (hR.k r hr) 1
  have hqq : (R r).q.size 1 = m * (s * g) := size_of_shape hq.q 1
  obtain ⟨hleft, hright⟩ := query_slice (g := g) (c := c) hm hs
  have hgroup := (hb (R r).toRankInput).group hm hs hq
    (shape_rows hK (R r).args.localKSliceStart (R r).args.localKSliceStop)
    (shape_rows hV (R r).args.localKSliceStart (R r).args.localKSliceStop) hc
  unfold backwardCall wholeBackward
  rw [map_inputs]
  simp only [hkq, hqq, hleft, hright, hbuf]
  rw [narrow_heads hq.dout hm, narrow_heads hq.q hm, narrow_heads hq.out hm, narrow_chunk hm hq.lse, rows_heads hK hc,
    rows_heads hV hc]
  exact hgroup

/-- The gradients a rank should end with. -/
def expected (bwd : RankInput α → QuerySide α → Tensor α → Tensor α → KernelGrads α) (R : Nat → SavedRank α)
    (n T H d r : Nat) : KernelGrads α where
  dq := (wholeBackward bwd ((List.range n).map R) (R r)).dq
  dk := summedGrads n T H d (fun i => (R i).args.localKSliceStart)
    (fun i => (wholeBackward bwd ((List.range n).map R) (R i)).dk) r
  dv := summedGrads n T H d (fun i => (R i).args.localKSliceStart)
    (fun i => (wholeBackward bwd ((List.range n).map R) (R i)).dv) r

/-- The first `c` groups of a rank's gradients are there. -/
structure GradsFilled (c s g : Nat) (have_ want : KernelGrads α) : Prop where
  dq : Filled c (s * g) have_.dq want.dq
  dk : Filled c s have_.dk want.dk
  dv : Filled c s have_.dv want.dv

/-- **A rank's store of iteration `c`** fills one more group. -/
theorem storeGrads_filled (hb : ∀ me, GqaBackward (bwd me)) (hn : 0 < n) (hs : 0 < s) (hR : RanksShaped R n T m s g d sq)
    {c r : Nat} (hc : c < m) (hr : r < n) {x : KernelGrads α}
    (hx : GradsFilled c s g x (expected bwd R n T (m * s) d r)) :
    GradsFilled (c + 1) s g (storeGrads s (c * s) (R r) x (heads m c (expected bwd R n T (m * s) d r).dq)
      (heads m c (expected bwd R n T (m * s) d r).dk) (heads m c (expected bwd R n T (m * s) d r).dv))
      (expected bwd R n T (m * s) d r) := by
  have hm : 0 < m := Nat.zero_lt_of_lt hc
  have hq := hR.queries r hr
  have hkq : (R r).k.size 1 = m * s := size_of_shape (hR.k r hr) 1
  have hqq : (R r).q.size 1 = m * (s * g) := size_of_shape hq.q 1
  obtain ⟨hleft, _⟩ := query_slice (g := g) (c := c) hm hs
  have hdq : (expected bwd R n T (m * s) d r).dq.shape = [sq r, m * (s * g), d] := (shaped_wholeBackward hb hn hR hr).dq
  have hkv : ∀ {y want : Tensor α}, want.shape = [T, m * s, d] → Filled c s y want →
      Filled (c + 1) s (if s ≠ m * s then y.write 1 (c * s) (heads m c want) else heads m c want) want := by
    intro y want hw hy
    by_cases hone : s = m * s
    · have hm1 : m = 1 := Nat.eq_of_mul_eq_mul_right hs (by rw [Nat.one_mul]; exact hone.symm)
      subst hm1
      obtain rfl : c = 0 := Nat.lt_one_iff.1 hc
      rw [if_neg (not_not.2 hone)]
      exact filled_only hw
    · rw [if_pos hone]
      exact hy.write hw hc
  unfold storeGrads
  simp only [hkq, hqq, hleft]
  exact ⟨hx.dq.write hdq hc, hkv rfl hx.dk, hkv rfl hx.dv⟩

/-- **One iteration** of the group fills one more group of every rank's gradients. -/
theorem backwardStep_filled (hb : ∀ me, GqaBackward (bwd me)) (hn : 0 < n) (hs : 0 < s)
    (hR : RanksShaped R n T m s g d sq) {c : Nat} (hc : c < m) {b : KvBuffers α}
    (hbuf : b.Awaits ((List.range n).map (inputs R)) m c) {x : Nat → KernelGrads α}
    (hx : ∀ r < n, GradsFilled c s g (x r) (expected bwd R n T (m * s) d r)) :
    ∃ b' y, b'.Awaits ((List.range n).map (inputs R)) m (c + 1) ∧
      (∀ r < n, GradsFilled (c + 1) s g (y r) (expected bwd R n T (m * s) d r)) ∧
      backwardStep fill bwd ((List.range n).map R) (m * s) s (b, (List.range n).map x) (c * s) =
        (b', (List.range n).map y) := by
  obtain ⟨hread, hnext⟩ := advance_holds fill hn hs hR.k hR.v hc hbuf
  have hcalls : ((List.range n).map R).map (backwardCall bwd
      (b.advance fill ((List.range n).map (inputs R)) (m * s) s (c * s)) s (c * s)) =
      (List.range n).map fun r => ⟨heads m c (wholeBackward bwd ((List.range n).map R) (R r)).dq,
        heads m c (wholeBackward bwd ((List.range n).map R) (R r)).dk,
        heads m c (wholeBackward bwd ((List.range n).map R) (R r)).dv⟩ := by
    rw [List.map_map]
    exact List.map_congr_left fun r hr => backwardCall_eq hb hn hs hR hc (List.mem_range.1 hr) hread
  have hshape := fun r (hr : r < n) => shaped_wholeBackward hb hn hR hr
  have hdk := reduceScatter_group (G := fun r => (wholeBackward bwd ((List.range n).map R) (R r)).dk) hn hR.k
    (fun r hr => ⟨_, (hshape r hr).dk⟩) hc
  have hdv := reduceScatter_group (G := fun r => (wholeBackward bwd ((List.range n).map R) (R r)).dv) hn hR.k
    (fun r hr => ⟨_, (hshape r hr).dv⟩) hc
  refine ⟨_, fun r => storeGrads s (c * s) (R r) (x r) (heads m c (expected bwd R n T (m * s) d r).dq)
    (heads m c (expected bwd R n T (m * s) d r).dk) (heads m c (expected bwd R n T (m * s) d r).dv), hnext,
    fun r hr => storeGrads_filled hb hn hs hR hc hr (hx r hr), ?_⟩
  have hlen : ((List.range n).map R).length = n := by simp
  unfold backwardStep
  dsimp only
  rw [map_inputs, hcalls, hlen, List.zipWith_map, List.zipWith_self, List.zipWith_map, List.zipWith_self, hdk, hdv,
    List.zip_map', List.zip_map', List.zip_map', List.zipWith_map, List.zipWith_self]
  rfl

/-- **After `c` iterations** the first `c` groups of every rank's gradients are there. -/
theorem backward_loop (hb : ∀ me, GqaBackward (bwd me)) (hn : 0 < n) (hs : 0 < s) (hR : RanksShaped R n T m s g d sq)
    {first : KvBuffers α} (hfirst : first.Awaits ((List.range n).map (inputs R)) m 0) {x : Nat → KernelGrads α}
    (hx : ∀ r < n, GradsFilled 0 s g (x r) (expected bwd R n T (m * s) d r)) :
    ∀ c ≤ m, ∃ b y, b.Awaits ((List.range n).map (inputs R)) m c ∧
      (∀ r < n, GradsFilled c s g (y r) (expected bwd R n T (m * s) d r)) ∧
      ((List.range c).map (· * s)).foldl (backwardStep fill bwd ((List.range n).map R) (m * s) s)
        (first, (List.range n).map x) = (b, (List.range n).map y)
  | 0, _ => ⟨first, x, hfirst, hx, rfl⟩
  | c + 1, hc => by
    obtain ⟨b, y, hbuf, hy, hloop⟩ := backward_loop hb hn hs hR hfirst hx c (Nat.le_of_succ_le hc)
    obtain ⟨b', z, hbuf', hz, hstep⟩ := backwardStep_filled fill hb hn hs hR hc hbuf hy
    refine ⟨b', z, hbuf', hz, ?_⟩
    rw [List.range_succ, List.map_append, List.map_cons, List.map_nil, List.foldl_append, hloop, List.foldl_cons,
      List.foldl_nil, hstep]

/-- **The backward is one call's `dq` and the ranks' calls' `dk` and `dv`, summed.** -/
theorem ringBackward_eq (fresh : List Nat → Tensor α) (hfresh : ∀ l, (fresh l).shape = l)
    (hb : ∀ me, GqaBackward (bwd me)) (hn : 0 < n) (hm : 0 < m) (hs : 0 < s) (hR : RanksShaped R n T m s g d sq) :
    ringBackward fill fresh bwd ((List.range n).map R) (m * s) s =
      (List.range n).map fun r => expected bwd R n T (m * s) d r := by
  have hfirst : ((KvBuffers.new fill).allGather fill (gatherHeads ((List.range n).map (inputs R)) 0 s)).Awaits
      ((List.range n).map (inputs R)) m 0 := by
    intro h0
    have hgather := gatherHeads_eq hn hm hR.k hR.v h0
    rw [Nat.zero_mul, Nat.zero_add] at hgather
    exact congrArg some hgather
  have hshape := fun r (hr : r < n) => shaped_wholeBackward hb hn hR hr
  have hempty : ∀ {t whole : Tensor α} {w : Nat}, t.shape = whole.shape → Filled 0 w t whole := fun ht =>
    ⟨ht, fun _ _ _ hj => absurd hj (by rw [Nat.zero_mul]; exact Nat.not_lt_zero _)⟩
  have hstart : ∀ r < n, GradsFilled 0 s g
      (⟨fresh (R r).q.shape, fresh (R r).k.shape, fresh (R r).k.shape⟩ : KernelGrads α)
      (expected bwd R n T (m * s) d r) := fun r hr =>
    ⟨hempty ((hfresh _).trans ((hR.queries r hr).q.trans (hshape r hr).dq.symm)),
      hempty ((hfresh _).trans (hR.k r hr)), hempty ((hfresh _).trans (hR.k r hr))⟩
  obtain ⟨b, y, _, hy, hloop⟩ := backward_loop fill hb hn hs hR hfirst hstart m (Nat.le_refl m)
  have hparts : ∀ {a b : KernelGrads α}, a.dq = b.dq → a.dk = b.dk → a.dv = b.dv → a = b := by
    rintro ⟨_, _, _⟩ ⟨_, _, _⟩ rfl rfl rfl
    rfl
  unfold ringBackward
  rw [map_inputs, strides_eq hs, List.map_map]
  refine (congrArg Prod.snd hloop).trans (List.map_congr_left fun r hr => ?_)
  replace hr := List.mem_range.1 hr
  exact hparts ((hy r hr).dq.eq (hshape r hr).dq) ((hy r hr).dk.eq rfl) ((hy r hr).dv.eq rfl)

end

end

end Ring
end Aether
