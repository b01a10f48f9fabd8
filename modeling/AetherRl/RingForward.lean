import AetherRl.Ring
/-!
# RingForward — the loop over strides is one call with all heads

After `c` iterations the buffer holds the gathered heads of stride `c - 1`, the next stride is in flight, and the outputs
are the first `c` groups of heads of one call.
-/
namespace Aether
namespace Ring

open Tensor Shape

section
variable {α : Type} [Zero α]

/-! ## The kernel, group by group -/

/-- The kernel computes each query head, and its log-sum-exp, from its KV head only. -/
def GqaForward (fwd : Tensor α → Tensor α → Tensor α → Tensor α × Tensor α) : Prop :=
  ∃ head lseHead : Tensor α → Tensor α → Tensor α → Tensor α,
    ∀ (q k v : Tensor α) (sq hq d sk hk : Nat), q.shape = [sq, hq, d] → k.shape = [sk, hk, d] → v.shape = [sk, hk, d] →
      hk ∣ hq →
      (fwd q k v).1.shape = [sq, hq, d] ∧ (fwd q k v).2.shape = [hq, sq] ∧
      ∀ j < hq,
        (fwd q k v).1.select 1 j =
          head (q.select 1 j) (k.select 1 (j / (hq / hk))) (v.select 1 (j / (hq / hk))) ∧
        (fwd q k v).2.select 0 j =
          lseHead (q.select 1 j) (k.select 1 (j / (hq / hk))) (v.select 1 (j / (hq / hk)))

/-- The KV head of a query head in a group, and in the whole. -/
theorem kvHead_group {m s g c j : Nat} (hm : 0 < m) (hs : 0 < s) (hj : j < s * g) :
    j / (s * g / s) < s ∧ (c * (s * g) + j) / (m * (s * g) / (m * s)) = c * s + j / (s * g / s) := by
  have hg : 0 < g := Nat.pos_of_mul_pos_left (Nat.zero_lt_of_lt hj)
  have hwhole : m * (s * g) / (m * s) = g := by
    rw [← Nat.mul_assoc, Nat.mul_div_cancel_left g (Nat.mul_pos hm hs)]
  rw [hwhole, Nat.mul_div_cancel_left g hs]
  constructor
  · exact Nat.div_lt_of_lt_mul (Nat.mul_comm s g ▸ hj)
  · rw [← Nat.mul_assoc, Nat.mul_comm (c * s) g, Nat.mul_add_div hg]

/-- **A call with a group of heads** returns that group of a call with all heads. -/
theorem GqaForward.group {fwd : Tensor α → Tensor α → Tensor α → Tensor α × Tensor α} (h : GqaForward fwd)
    {q k v : Tensor α} {sq sk m s g d c : Nat} (hm : 0 < m) (hs : 0 < s) (hq : q.shape = [sq, m * (s * g), d])
    (hk : k.shape = [sk, m * s, d]) (hv : v.shape = [sk, m * s, d]) (hc : c < m) :
    fwd (heads m c q) (heads m c k) (heads m c v) = (heads m c (fwd q k v).1, chunk m c (fwd q k v).2) := by
  obtain ⟨head, lseHead, h⟩ := h
  have hdvd : m * s ∣ m * (s * g) := ⟨g, (Nat.mul_assoc m s g).symm⟩
  obtain ⟨hout, hlse, hwhole⟩ := h q k v _ _ _ _ _ hq hk hv hdvd
  obtain ⟨houtc, hlsec, hgroup⟩ := h _ _ _ _ _ _ _ _ (shape_heads hq hc) (shape_heads hk hc) (shape_heads hv hc)
    (Nat.dvd_mul_right s g)
  refine Prod.ext ?_ ?_
  · refine ext_heads houtc (shape_heads hout hc) fun j hj => ?_
    obtain ⟨hkv, hplace⟩ := kvHead_group (c := c) hm hs hj
    rw [(hgroup j hj).1, select_heads hout hc hj, (hwhole _ (place_lt hc hj)).1, select_heads hq hc hj,
      select_heads hk hc hkv, select_heads hv hc hkv, hplace]
  · refine ext_rows hlsec (shape_chunk hlse hc) fun j hj => ?_
    obtain ⟨hkv, hplace⟩ := kvHead_group (c := c) hm hs hj
    rw [(hgroup j hj).2, select_chunk hlse hc hj, (hwhole _ (place_lt hc hj)).2, select_heads hq hc hj,
      select_heads hk hc hkv, select_heads hv hc hkv, hplace]

/-! ## The strides -/

theorem strides_eq {m s : Nat} (hs : 0 < s) : strides (m * s) s = (List.range m).map (· * s) := by
  have hcount : (m * s + s - 1) / s = m := by
    rw [Nat.add_sub_assoc hs, Nat.mul_comm m s, Nat.mul_add_div hs, Nat.div_eq_of_lt (Nat.sub_lt hs Nat.one_pos),
      Nat.add_zero]
  rw [strides, hcount]

/-- **The query heads of a stride** are a group. -/
theorem query_slice {m s g c : Nat} (hm : 0 < m) (hs : 0 < s) :
    c * s * (m * (s * g)) / (m * s) = c * (s * g) ∧ (c * s + s) * (m * (s * g)) / (m * s) = (c + 1) * (s * g) := by
  have hpos : 0 < m * s := Nat.mul_pos hm hs
  have hslice : ∀ b, b * s * (m * (s * g)) / (m * s) = b * (s * g) := fun b => by
    have hreorder : b * s * (m * (s * g)) = m * s * (b * (s * g)) := by ring
    rw [hreorder, Nat.mul_div_cancel_left _ hpos]
  refine ⟨hslice c, ?_⟩
  rw [← Nat.succ_mul]
  exact hslice (c + 1)

/-! ## The buffers along the loop -/

variable (fill : Tensor α) {R : Nat → RankInput α} {n T m s d : Nat}

/-- K and V of every rank, in rank order. -/
def gathered (ranks : List (RankInput α)) : Tensor α × Tensor α := (cat 0 (ranks.map (·.k)), cat 0 (ranks.map (·.v)))

theorem gatherHeads_eq (hn : 0 < n) (hm : 0 < m) (hk : ∀ r < n, (R r).k.shape = [T, m * s, d])
    (hv : ∀ r < n, (R r).v.shape = [T, m * s, d]) {c : Nat} (hc : c < m) :
    gatherHeads ((List.range n).map R) (c * s) (c * s + s) =
      (heads m c (gathered ((List.range n).map R)).1, heads m c (gathered ((List.range n).map R)).2) := by
  have hone : ∀ {f : Nat → Tensor α}, (∀ r < n, (f r).shape = [T, m * s, d]) →
      (List.range n).map (fun r => (f r).narrow 1 (c * s) (c * s + s)) = (List.range n).map fun r => heads m c (f r) := by
    intro f hf
    refine List.map_congr_left fun r hr => ?_
    rw [← Nat.succ_mul]
    exact narrow_heads (hf r (List.mem_range.1 hr)) hm
  unfold gatherHeads gathered
  simp only [List.map_map]
  refine Prod.ext ?_ ?_
  · exact (congrArg (cat 0) (hone hk)).trans (cat_heads_rows hn hk hc)
  · exact (congrArg (cat 0) (hone hv)).trans (cat_heads_rows hn hv hc)

/-- Before iteration `c`, the gather of its heads is in flight. -/
def KvBuffers.Awaits (ranks : List (RankInput α)) (m c : Nat) (b : KvBuffers α) : Prop :=
  c < m → b.inFlight = some (heads m c (gathered ranks).1, heads m c (gathered ranks).2)

/-- **In iteration `c` the kernel reads the heads of stride `c`**, and the next gather is on its way. -/
theorem advance_holds (hn : 0 < n) (hs : 0 < s) (hk : ∀ r < n, (R r).k.shape = [T, m * s, d])
    (hv : ∀ r < n, (R r).v.shape = [T, m * s, d]) {c : Nat} (hc : c < m) {b : KvBuffers α}
    (hb : b.Awaits ((List.range n).map R) m c) :
    (b.advance fill ((List.range n).map R) (m * s) s (c * s)).kvBuffer =
        (heads m c (gathered ((List.range n).map R)).1, heads m c (gathered ((List.range n).map R)).2) ∧
      (b.advance fill ((List.range n).map R) (m * s) s (c * s)).Awaits ((List.range n).map R) m (c + 1) := by
  have hm : 0 < m := Nat.zero_lt_of_lt hc
  have hwait : b.wait.swap.kvBuffer =
      (heads m c (gathered ((List.range n).map R)).1, heads m c (gathered ((List.range n).map R)).2) := by
    show b.inFlight.getD b.kvBufferCopy = _
    rw [hb hc]
    rfl
  have hmore : c * s < m * s - s ↔ c + 1 < m := by
    obtain ⟨m, rfl⟩ := Nat.exists_eq_succ_of_ne_zero (Nat.pos_iff_ne_zero.1 hm)
    rw [Nat.succ_mul, Nat.add_sub_cancel, Nat.mul_lt_mul_right hs]
    omega
  unfold KvBuffers.advance
  dsimp only
  by_cases hlast : c + 1 < m
  · rw [if_pos (hmore.2 hlast)]
    refine ⟨hwait, fun _ => ?_⟩
    have hnext := gatherHeads_eq hn hm hk hv hlast
    rw [Nat.succ_mul] at hnext
    exact congrArg some hnext
  · rw [if_neg fun h => hlast (hmore.1 h)]
    exact ⟨hwait, fun h => absurd h hlast⟩

/-! ## The loop -/

variable {fwd : Tensor α → Tensor α → Tensor α → Tensor α × Tensor α} {me : RankInput α} {sq g : Nat}

/-- One kernel call on a rank's queries and its slice of the gathered keys. -/
def wholeCall (fwd : Tensor α → Tensor α → Tensor α → Tensor α × Tensor α) (ranks : List (RankInput α))
    (me : RankInput α) : Tensor α × Tensor α :=
  fwd me.q ((gathered ranks).1.narrow 0 me.args.localKSliceStart me.args.localKSliceStop)
    ((gathered ranks).2.narrow 0 me.args.localKSliceStart me.args.localKSliceStop)

/-- **One iteration** appends its group of heads of the whole call. -/
theorem forwardStep_eq (hf : GqaForward fwd) (hn : 0 < n) (hs : 0 < s) (hk : ∀ r < n, (R r).k.shape = [T, m * s, d])
    (hv : ∀ r < n, (R r).v.shape = [T, m * s, d]) (hq : me.q.shape = [sq, m * (s * g), d])
    (hmk : me.k.shape = [T, m * s, d]) {c : Nat} (hc : c < m) {b : KvBuffers α}
    (hb : b.Awaits ((List.range n).map R) m c) (outs lses : List (Tensor α)) :
    ∃ b', b'.Awaits ((List.range n).map R) m (c + 1) ∧
      forwardStep fill fwd ((List.range n).map R) me s (b, outs, lses) (c * s) =
        (b', outs ++ [heads m c (wholeCall fwd ((List.range n).map R) me).1],
          lses ++ [chunk m c (wholeCall fwd ((List.range n).map R) me).2]) := by
  have hm : 0 < m := Nat.zero_lt_of_lt hc
  obtain ⟨hbuf, hnext⟩ := advance_holds fill hn hs hk hv hc hb
  have hkq : me.k.size 1 = m * s := size_of_shape hmk 1
  have hqq : me.q.size 1 = m * (s * g) := size_of_shape hq 1
  obtain ⟨hleft, hright⟩ := query_slice (g := g) (c := c) hm hs
  have hK : (gathered ((List.range n).map R)).1.shape = [n * T, m * s, d] := by
    simp only [gathered, List.map_map]
    exact shape_cat hn hk
  have hV : (gathered ((List.range n).map R)).2.shape = [n * T, m * s, d] := by
    simp only [gathered, List.map_map]
    exact shape_cat hn hv
  have hcall := hf.group hm hs hq (shape_rows hK me.args.localKSliceStart me.args.localKSliceStop)
    (shape_rows hV me.args.localKSliceStart me.args.localKSliceStop) hc
  refine ⟨_, hnext, ?_⟩
  unfold forwardStep
  simp only [hkq, hqq, hleft, hright, hbuf]
  rw [narrow_heads hq hm, rows_heads hK hc, rows_heads hV hc, hcall]
  rfl

/-- **After `c` iterations** the outputs are the first `c` groups of heads of the whole call. -/
theorem forward_loop (hf : GqaForward fwd) (hn : 0 < n) (hs : 0 < s) (hk : ∀ r < n, (R r).k.shape = [T, m * s, d])
    (hv : ∀ r < n, (R r).v.shape = [T, m * s, d]) (hq : me.q.shape = [sq, m * (s * g), d])
    (hmk : me.k.shape = [T, m * s, d]) {first : KvBuffers α} (hfirst : first.Awaits ((List.range n).map R) m 0) :
    ∀ c ≤ m, ∃ b, b.Awaits ((List.range n).map R) m c ∧
      ((List.range c).map (· * s)).foldl (forwardStep fill fwd ((List.range n).map R) me s) (first, [], []) =
        (b, (List.range c).map fun i => heads m i (wholeCall fwd ((List.range n).map R) me).1,
          (List.range c).map fun i => chunk m i (wholeCall fwd ((List.range n).map R) me).2)
  | 0, _ => ⟨first, hfirst, rfl⟩
  | c + 1, hc => by
    obtain ⟨b, hb, hloop⟩ := forward_loop hf hn hs hk hv hq hmk hfirst c (Nat.le_of_succ_le hc)
    obtain ⟨b', hb', hstep⟩ := forwardStep_eq fill hf hn hs hk hv hq hmk hc hb
      ((List.range c).map fun i => heads m i (wholeCall fwd ((List.range n).map R) me).1)
      ((List.range c).map fun i => chunk m i (wholeCall fwd ((List.range n).map R) me).2)
    refine ⟨b', hb', ?_⟩
    rw [List.range_succ, List.map_append, List.map_cons, List.map_nil, List.foldl_append, hloop, List.foldl_cons,
      List.foldl_nil, hstep, List.map_append, List.map_append]
    rfl

/-- **The forward is one call with all heads at once.** -/
theorem ringForward_eq (hf : GqaForward fwd) (hn : 0 < n) (hm : 0 < m) (hs : 0 < s)
    (hk : ∀ r < n, (R r).k.shape = [T, m * s, d]) (hv : ∀ r < n, (R r).v.shape = [T, m * s, d])
    (hq : me.q.shape = [sq, m * (s * g), d]) (hmk : me.k.shape = [T, m * s, d]) :
    ringForward fill fwd ((List.range n).map R) me s = wholeCall fwd ((List.range n).map R) me := by
  have hK : (gathered ((List.range n).map R)).1.shape = [n * T, m * s, d] := by
    simp only [gathered, List.map_map]
    exact shape_cat hn hk
  have hV : (gathered ((List.range n).map R)).2.shape = [n * T, m * s, d] := by
    simp only [gathered, List.map_map]
    exact shape_cat hn hv
  have hfirst : ((KvBuffers.new fill).allGather fill (gatherHeads ((List.range n).map R) 0 s)).Awaits
      ((List.range n).map R) m 0 := by
    intro h0
    have hgather := gatherHeads_eq hn hm hk hv h0
    rw [Nat.zero_mul, Nat.zero_add] at hgather
    exact congrArg some hgather
  obtain ⟨b, _, hloop⟩ := forward_loop fill hf hn hs hk hv hq hmk hfirst m (Nat.le_refl m)
  have hkq : me.k.size 1 = m * s := size_of_shape hmk 1
  have hdvd : m * s ∣ m * (s * g) := ⟨g, (Nat.mul_assoc m s g).symm⟩
  have hshape : (wholeCall fwd ((List.range n).map R) me).1.shape = [sq, m * (s * g), d] ∧
      (wholeCall fwd ((List.range n).map R) me).2.shape = [m * (s * g), sq] := by
    obtain ⟨_, _, h⟩ := hf
    have hwhole := h _ _ _ _ _ _ _ _ hq (shape_rows hK me.args.localKSliceStart me.args.localKSliceStop)
      (shape_rows hV me.args.localKSliceStart me.args.localKSliceStop) hdvd
    exact ⟨hwhole.1, hwhole.2.1⟩
  unfold ringForward
  rw [hkq, strides_eq hs]
  dsimp only
  rw [hloop]
  refine Prod.ext (cat_heads hm hshape.1) ?_
  exact cat_shards hm hshape.2

end

end Ring
end Aether
