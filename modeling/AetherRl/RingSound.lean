import AetherRl.RingBackward
import Mathlib.Algebra.Ring.Int.Defs
/-!
# RingSound — ring attention is attention over the gathered keys

Both classes, forward and backward, against one kernel call with all heads on a rank's slice of the gathered keys.
-/
namespace Aether
namespace Ring

open Tensor Shape

section
variable {α : Type} [AddCommMonoid α]

/-- What a rank saves for the backward, and the gradient it is then given. -/
def RankInput.saved (me : RankInput α) (outLse : Tensor α × Tensor α) (dout : Tensor α) : SavedRank α where
  toRankInput := me
  out := outLse.1
  softmaxLse := outLse.2
  dout := dout

/-- The arguments of the group: keys of one shape on every rank, queries of their own length. -/
structure Prepared (R : Nat → RankInput α) (dout : Nat → Tensor α) (n T Hq Hk d : Nat) (sq : Nat → Nat) : Prop where
  q : ∀ r < n, (R r).q.shape = [sq r, Hq, d]
  k : ∀ r < n, (R r).k.shape = [T, Hk, d]
  v : ∀ r < n, (R r).v.shape = [T, Hk, d]
  dout : ∀ r < n, (dout r).shape = [sq r, Hq, d]

/-- Forward and backward with the kernel of `fwd` and `bwd` are one call on the gathered keys. -/
theorem ring_eq_whole (fill : Tensor α) (fresh : List Nat → Tensor α) (hfresh : ∀ l, (fresh l).shape = l)
    {fwd : RankInput α → Tensor α → Tensor α → Tensor α → Tensor α × Tensor α}
    {bwd : RankInput α → QuerySide α → Tensor α → Tensor α → KernelGrads α} (hf : ∀ me, GqaForward (fwd me))
    (hb : ∀ me, GqaBackward (bwd me)) {R : Nat → RankInput α} {dout : Nat → Tensor α} {n T m s g d : Nat}
    {sq : Nat → Nat} (hn : 0 < n) (hm : 0 < m) (hs : 0 < s)
    (hR : Prepared R dout n T (m * (s * g)) (m * s) d sq) :
    (∀ r < n, ringForward fill (fwd (R r)) ((List.range n).map R) (R r) s =
        wholeCall (fwd (R r)) ((List.range n).map R) (R r)) ∧
    ringBackward fill fresh bwd ((List.range n).map fun r =>
        (R r).saved (ringForward fill (fwd (R r)) ((List.range n).map R) (R r) s) (dout r)) (m * s) s =
      (List.range n).map fun r => expected bwd (fun r =>
        (R r).saved (wholeCall (fwd (R r)) ((List.range n).map R) (R r)) (dout r)) n T (m * s) d r := by
  have hforward : ∀ r < n, ringForward fill (fwd (R r)) ((List.range n).map R) (R r) s =
      wholeCall (fwd (R r)) ((List.range n).map R) (R r) := fun r hr =>
    ringForward_eq fill (hf _) hn hm hs hR.k hR.v (hR.q r hr) (hR.k r hr)
  refine ⟨hforward, ?_⟩
  have hsaved : ((List.range n).map fun r =>
      (R r).saved (ringForward fill (fwd (R r)) ((List.range n).map R) (R r) s) (dout r)) =
      (List.range n).map fun r => (R r).saved (wholeCall (fwd (R r)) ((List.range n).map R) (R r)) (dout r) :=
    List.map_congr_left fun r hr => by rw [hforward r (List.mem_range.1 hr)]
  rw [hsaved]
  have hK : (gathered ((List.range n).map R)).1.shape = [n * T, m * s, d] := by
    simp only [gathered, List.map_map]
    exact shape_cat hn hR.k
  have hV : (gathered ((List.range n).map R)).2.shape = [n * T, m * s, d] := by
    simp only [gathered, List.map_map]
    exact shape_cat hn hR.v
  have hshaped : RanksShaped (fun r => (R r).saved (wholeCall (fwd (R r)) ((List.range n).map R) (R r)) (dout r)) n T m s
      g d sq := by
    refine ⟨hR.k, hR.v, fun r hr => ?_⟩
    obtain ⟨_, _, h⟩ := hf (R r)
    obtain ⟨hout, hlse, _⟩ := h _ _ _ _ _ _ _ _ (hR.q r hr)
      (shape_rows hK (R r).args.localKSliceStart (R r).args.localKSliceStop)
      (shape_rows hV (R r).args.localKSliceStart (R r).args.localKSliceStop) ⟨g, (Nat.mul_assoc m s g).symm⟩
    exact ⟨hR.dout r hr, hR.q r hr, hout, hlse⟩
  exact ringBackward_eq fill fresh hfresh hb hn hm hs hshaped

/-- **Ring attention equals attention over the gathered keys**: on every rank the forward of either class is one kernel
call with all heads on the rank's slice of the gathered keys and values; the backward returns that call's `dq`, and for
`dk` and `dv` the sum over all ranks of what their calls give the rank's key rows.  The stride is nowhere in it. -/
theorem ring_eq_gathered (kernel3 : Kernel (Int × Int) α) (kernel4 : Kernel (Option Int × Option Int) α)
    (settings : Settings α) (fill : Tensor α) (fresh : List Nat → Tensor α) (R : Nat → RankInput α)
    (dout : Nat → Tensor α) (n T Hq Hk d stride : Nat) (sq : Nat → Nat) (hfresh : ∀ l, (fresh l).shape = l)
    (hf3 : ∀ params, GqaForward (kernel3.forward params)) (hb3 : ∀ params, GqaBackward (kernel3.backward params))
    (hf4 : ∀ params, GqaForward (kernel4.forward params)) (hb4 : ∀ params, GqaBackward (kernel4.backward params))
    (hn : 0 < n) (hHk : 0 < Hk) (hgqa : Hk ∣ Hq) (hstride : stride ∣ Hk) (hR : Prepared R dout n T Hq Hk d sq) :
    let ranks := (List.range n).map R
    let fwd3 := fun me : RankInput α => kernel3.forward (fa3Params settings me.args (me.q.size 2))
    let bwd3 := fun me : RankInput α => kernel3.backward (fa3Params settings me.args (me.q.size 2))
    let fwd4 := fun me : RankInput α => kernel4.forward (fa4Params settings me.args (me.q.size 2))
    let bwd4 := fun me : RankInput α => kernel4.backward (fa4Params settings me.args (me.q.size 2))
    ((∀ r < n, ringFa3Forward kernel3 settings fill ranks (R r) stride = wholeCall (fwd3 (R r)) ranks (R r)) ∧
      ringFa3Backward kernel3 settings fill fresh ((List.range n).map fun r =>
          (R r).saved (ringFa3Forward kernel3 settings fill ranks (R r) stride) (dout r)) Hk stride =
        (List.range n).map fun r => expected bwd3 (fun r =>
          (R r).saved (wholeCall (fwd3 (R r)) ranks (R r)) (dout r)) n T Hk d r) ∧
    ((∀ r < n, ringFa4Forward kernel4 settings fill ranks (R r) stride = wholeCall (fwd4 (R r)) ranks (R r)) ∧
      ringFa4Backward kernel4 settings fill fresh ((List.range n).map fun r =>
          (R r).saved (ringFa4Forward kernel4 settings fill ranks (R r) stride) (dout r)) Hk stride =
        (List.range n).map fun r => expected bwd4 (fun r =>
          (R r).saved (wholeCall (fwd4 (R r)) ranks (R r)) (dout r)) n T Hk d r) := by
  obtain ⟨m, rfl⟩ := hstride
  obtain ⟨g, rfl⟩ := hgqa
  have hs : 0 < stride := Nat.pos_of_mul_pos_right hHk
  have hm : 0 < m := Nat.pos_of_mul_pos_left hHk
  rw [Nat.mul_comm stride m] at hR ⊢
  rw [Nat.mul_assoc] at hR
  intro ranks fwd3 bwd3 fwd4 bwd4
  have h3 := ring_eq_whole fill fresh hfresh (fun me => hf3 (fa3Params settings me.args (me.q.size 2)))
    (fun me => hb3 (fa3Params settings me.args (me.q.size 2))) hn hm hs hR
  have h4 := ring_eq_whole fill fresh hfresh (fun me => hf4 (fa4Params settings me.args (me.q.size 2)))
    (fun me => hb4 (fa4Params settings me.args (me.q.size 2))) hn hm hs hR
  exact ⟨h3, h4⟩

end

/-! ### Two ranks with documents of one token -/

namespace Sample

/-- A query that sees one key, its own: the output is the value, the log-sum-exp the score. -/
def outHead (q _k v : Tensor Int) : Tensor Int := ofFn [q.size 0, q.size 1] fun idx => v.get idx

def lseHead (q k _v : Tensor Int) : Tensor Int :=
  ofFn [q.size 0] fun idx => ((List.range (q.size 1)).map fun e => q.get (idx ++ [e]) * k.get (idx ++ [e])).sum

/-- The heads of a kernel's answer side by side. -/
def stack (sq hq d : Nat) (head : Nat → Tensor Int) : Tensor Int :=
  ofFn [sq, hq, d] fun idx =>
    match idx with
    | [i, j, e] => (head j).get [i, e]
    | _ => 0

def stackRows (hq sq : Nat) (row : Nat → Tensor Int) : Tensor Int :=
  ofFn [hq, sq] fun idx =>
    match idx with
    | [j, i] => (row j).get [i]
    | _ => 0

def forward (q k v : Tensor Int) : Tensor Int × Tensor Int :=
  let kv := fun j => j / (q.size 1 / k.size 1)
  (stack (q.size 0) (q.size 1) (q.size 2) fun j => outHead (q.select 1 j) (k.select 1 (kv j)) (v.select 1 (kv j)),
    stackRows (q.size 1) (q.size 0) fun j => lseHead (q.select 1 j) (k.select 1 (kv j)) (v.select 1 (kv j)))

/-- The one weight is constant: only the values have a gradient, the sum of their query heads' `dout`. -/
def valueGrad (queries : List (QuerySide Int)) (k : Tensor Int) : Tensor Int :=
  ofFn [k.size 0, k.size 1] fun idx => (queries.map fun x => x.dout.get idx).sum

def zeroLike (t : Tensor Int) : Tensor Int := ofFn [t.size 0, t.size 1] fun _ => 0

def backward (x : QuerySide Int) (k v : Tensor Int) : KernelGrads Int where
  dq := stack (x.q.size 0) (x.q.size 1) (x.q.size 2) fun j => zeroLike (x.head j).q
  dk := stack (k.size 0) (k.size 1) (k.size 2) fun j => zeroLike (k.select 1 j)
  dv := stack (k.size 0) (k.size 1) (k.size 2) fun j =>
    valueGrad ((List.range (x.q.size 1 / k.size 1)).map fun i => x.head (j * (x.q.size 1 / k.size 1) + i)) (v.select 1 j)

def kernel3 : Kernel (Int × Int) Int := ⟨fun _ => forward, fun _ => backward⟩
def kernel4 : Kernel (Option Int × Option Int) Int := ⟨fun _ => forward, fun _ => backward⟩

theorem select_stack {sq hq d j : Nat} {head : Nat → Tensor Int} (hj : j < hq) (hh : (head j).shape = [sq, d]) :
    (stack sq hq d head).select 1 j = head j := by
  have hs : (stack sq hq d head).shape = [sq, hq, d] := rfl
  refine ext₂ (shape_select hs) hh fun i hi e he => ?_
  have hin : Inside [sq, hq, d] [i, j, e] := ⟨hi, hj, he, trivial⟩
  rw [get_select hs]
  exact get_ofFn hin

theorem select_stackRows {hq sq j : Nat} {row : Nat → Tensor Int} (hj : j < hq) (hh : (row j).shape = [sq]) :
    (stackRows hq sq row).select 0 j = row j := by
  have hs : (stackRows hq sq row).shape = [hq, sq] := rfl
  refine ext_inside ((shape_select_row hs).trans hh.symm) fun idx hi => ?_
  rw [shape_select_row hs] at hi
  match idx, hi with
  | [i], hi =>
    have hin : Inside [hq, sq] [j, i] := ⟨hj, hi.1, trivial⟩
    rw [get_select_row hs hi.1]
    exact get_ofFn hin

theorem forward_gqa : GqaForward forward := by
  refine ⟨outHead, lseHead, fun q k v sq hq d sk hk hqs hks hvs _ => ?_⟩
  have hq0 : q.size 0 = sq := size_of_shape hqs 0
  have hq1 : q.size 1 = hq := size_of_shape hqs 1
  have hq2 : q.size 2 = d := size_of_shape hqs 2
  have hk1 : k.size 1 = hk := size_of_shape hks 1
  have hrow : ∀ j, (q.select 1 j).size 0 = sq ∧ (q.select 1 j).size 1 = d := fun j =>
    ⟨size_of_shape (shape_select hqs) 0, size_of_shape (shape_select hqs) 1⟩
  simp only [forward, hq0, hq1, hq2, hk1]
  refine ⟨rfl, rfl, fun j hj => ⟨select_stack hj ?_, select_stackRows hj ?_⟩⟩
  · rw [outHead, shape_ofFn, (hrow j).1, (hrow j).2]
  · rw [lseHead, shape_ofFn, (hrow j).1]

theorem backward_gqa : GqaBackward backward := by
  refine ⟨fun x _ _ => zeroLike x.q, fun _ k _ => zeroLike k, fun queries _ v => valueGrad queries v,
    fun x k v sq hq d sk hk hx hks hvs _ => ?_⟩
  have hq0 : x.q.size 0 = sq := size_of_shape hx.q 0
  have hq1 : x.q.size 1 = hq := size_of_shape hx.q 1
  have hq2 : x.q.size 2 = d := size_of_shape hx.q 2
  have hk0 : k.size 0 = sk := size_of_shape hks 0
  have hk1 : k.size 1 = hk := size_of_shape hks 1
  have hk2 : k.size 2 = d := size_of_shape hks 2
  have hzero : ∀ {t : Tensor Int} {a b : Nat}, t.shape = [a, b] → (zeroLike t).shape = [a, b] := by
    intro t a b ht
    rw [zeroLike, shape_ofFn, size_of_shape ht, size_of_shape ht]
    rfl
  simp only [backward, hq0, hq1, hq2, hk0, hk1, hk2]
  refine ⟨⟨rfl, rfl, rfl⟩, fun j hj => select_stack hj (hzero (shape_select hx.q)),
    fun j hj => ⟨select_stack hj (hzero (shape_select hks)), select_stack hj ?_⟩⟩
  rw [valueGrad, shape_ofFn, size_of_shape (shape_select hvs), size_of_shape (shape_select hvs)]
  rfl

/-- Rank `r` has one token of four query heads and two KV heads, and sees its own key. -/
def rank (r : Nat) : RankInput Int where
  args := ⟨[0, 1], [0, 1], 1, 1, r, r + 1⟩
  q := ofFn [1, 4, 1] fun _ => 1
  k := ofFn [1, 2, 1] fun _ => 2
  v := ofFn [1, 2, 1] fun idx => r + idx.getD 1 0

def ranks : List (RankInput Int) := (List.range 2).map rank

/-- The gradient of each query head. -/
def dout (r : Nat) : Tensor Int := ofFn [1, 4, 1] fun idx => 10 * r + idx.getD 1 0

def settings : Settings Int := ⟨true, (-1, -1), fun _ => 1⟩

def zeros (l : List Nat) : Tensor Int := ofFn l fun _ => 0

/-- What the backward of one kernel call gives rank `r`. -/
def grads (r : Nat) : KernelGrads Int :=
  expected (fun _ => backward) (fun r => (rank r).saved (wholeCall forward ranks (rank r)) (dout r)) 2 1 2 1 r

end Sample

open Sample in
/-- A KV head a stride: both classes compute the whole call on both ranks, and each KV head of a rank is given the sum of
its query heads' gradients. -/
theorem ring_two_ranks :
    (∀ r < 2, ringFa3Forward kernel3 settings empty ranks (rank r) 1 = wholeCall forward ranks (rank r)) ∧
    (∀ r < 2, ringFa4Forward kernel4 settings empty ranks (rank r) 1 = wholeCall forward ranks (rank r)) ∧
    ringFa3Backward kernel3 settings empty zeros ((List.range 2).map fun r =>
      (rank r).saved (ringFa3Forward kernel3 settings empty ranks (rank r) 1) (dout r)) 2 1 = [grads 0, grads 1] ∧
    ringFa4Backward kernel4 settings empty zeros ((List.range 2).map fun r =>
      (rank r).saved (ringFa4Forward kernel4 settings empty ranks (rank r) 1) (dout r)) 2 1 = [grads 0, grads 1] ∧
    (wholeCall forward ranks (rank 1)).1.get [0, 2, 0] = 2 ∧
    [grads 0, grads 1].map (fun g => [g.dv.get [0, 0, 0], g.dv.get [0, 1, 0]]) = [[1, 5], [21, 25]] := by
  obtain ⟨⟨hforward3, hbackward3⟩, hforward4, hbackward4⟩ :=
    ring_eq_gathered kernel3 kernel4 settings empty zeros rank dout 2 1 4 2 1 1 (fun _ => 1) (fun _ => rfl)
      (fun _ => forward_gqa) (fun _ => backward_gqa) (fun _ => forward_gqa) (fun _ => backward_gqa) (by decide)
      (by decide) (by decide) (by decide) ⟨fun _ _ => rfl, fun _ _ => rfl, fun _ _ => rfl, fun _ _ => rfl⟩
  refine ⟨hforward3, hforward4, hbackward3, hbackward4, ?_, ?_⟩
  · decide +kernel
  · decide +kernel

end Ring
end Aether
