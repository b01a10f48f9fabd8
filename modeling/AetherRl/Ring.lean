import AetherRl.Heads
/-!
# Ring — attention over keys gathered from every rank

`trainer/models/layers/ring_attn.py`: `_RingFA3Varlen` and `_RingFA4Varlen`.  The KV heads are gathered a stride at a
time, the next stride while the kernel runs on this one.  The two classes differ in the kernel they call; the kernels are
parameters.  Memory that was not written holds anything, and so does a buffer a gather is under way into.
-/
namespace Aether
namespace Ring

open Tensor Shape

/-! ## The kernels -/

/-- What a kernel is called with beside the tensors; `W` is how it takes the window. -/
structure KernelParams (W α : Type) where
  cuSeqlensQ : List Nat
  cuSeqlensK : List Nat
  maxSeqlenQ : Nat
  maxSeqlenK : Nat
  softmaxScale : α
  causal : Bool
  window : W

/-- The gradients of a call. -/
structure KernelGrads (α : Type) [Zero α] where
  dq : Tensor α
  dk : Tensor α
  dv : Tensor α

/-- What the backward kernel reads beside K and V. -/
structure QuerySide (α : Type) [Zero α] where
  dout : Tensor α
  q : Tensor α
  out : Tensor α
  softmaxLse : Tensor α

/-- The low-level forward, with `out` and `lse`, and backward. -/
structure Kernel (W α : Type) [Zero α] where
  forward : KernelParams W α → Tensor α → Tensor α → Tensor α → Tensor α × Tensor α
  backward : KernelParams W α → QuerySide α → Tensor α → Tensor α → KernelGrads α

/-- What `ring_flash_attn` prepares for a rank. -/
structure RingArgs where
  cuSeqlensQ : List Nat
  cuSeqlensK : List Nat
  maxSeqlenQ : Nat
  maxSeqlenK : Nat
  localKSliceStart : Nat
  localKSliceStop : Nat

section
variable {α : Type} [Zero α]

/-- What every rank's call has in common; `headDim` to the power of minus a half is the scale. -/
structure Settings (α : Type) where
  causal : Bool
  windowSize : Int × Int
  rsqrt : Nat → α

def fa3Params (settings : Settings α) (args : RingArgs) (headDim : Nat) : KernelParams (Int × Int) α where
  cuSeqlensQ := args.cuSeqlensQ
  cuSeqlensK := args.cuSeqlensK
  maxSeqlenQ := args.maxSeqlenQ
  maxSeqlenK := args.maxSeqlenK
  softmaxScale := settings.rsqrt headDim
  causal := settings.causal
  window := settings.windowSize

/-- FA4 takes no bound for the bound `-1`. -/
def fa4Params (settings : Settings α) (args : RingArgs) (headDim : Nat) : KernelParams (Option Int × Option Int) α where
  cuSeqlensQ := args.cuSeqlensQ
  cuSeqlensK := args.cuSeqlensK
  maxSeqlenQ := args.maxSeqlenQ
  maxSeqlenK := args.maxSeqlenK
  softmaxScale := settings.rsqrt headDim
  causal := settings.causal
  window := (if settings.windowSize.1 ≠ -1 then some settings.windowSize.1 else none,
    if settings.windowSize.2 ≠ -1 then some settings.windowSize.2 else none)

/-! ## The buffers -/

/-- `kv_buffer` and `kv_buffer_copy`, each with K and V, and what the gathers under way will leave in the copy. -/
structure KvBuffers (α : Type) [Zero α] where
  kvBuffer : Tensor α × Tensor α
  kvBufferCopy : Tensor α × Tensor α
  inFlight : Option (Tensor α × Tensor α)

/-- `fill` is what unwritten memory holds. -/
def KvBuffers.new (fill : Tensor α) : KvBuffers α := ⟨(fill, fill), (fill, fill), none⟩

/-- The two `all_gather` calls into the copy. -/
def KvBuffers.allGather (fill : Tensor α) (b : KvBuffers α) (kv : Tensor α × Tensor α) : KvBuffers α :=
  { b with kvBufferCopy := (fill, fill), inFlight := some kv }

def KvBuffers.wait (b : KvBuffers α) : KvBuffers α :=
  { b with kvBufferCopy := b.inFlight.getD b.kvBufferCopy, inFlight := none }

def KvBuffers.swap (b : KvBuffers α) : KvBuffers α :=
  { b with kvBuffer := b.kvBufferCopy, kvBufferCopy := b.kvBuffer }

/-- A rank's arguments. -/
structure RankInput (α : Type) [Zero α] where
  args : RingArgs
  q : Tensor α
  k : Tensor α
  v : Tensor α

/-- What gathering the heads `left:right` of K and V leaves on every rank. -/
def gatherHeads (ranks : List (RankInput α)) (left right : Nat) : Tensor α × Tensor α :=
  (cat 0 (ranks.map fun x => x.k.narrow 1 left right), cat 0 (ranks.map fun x => x.v.narrow 1 left right))

/-- `range(0, nheads_k, heads_k_stride)`. -/
def strides (nheadsK headsKStride : Nat) : List Nat :=
  (List.range ((nheadsK + headsKStride - 1) / headsKStride)).map (· * headsKStride)

/-- The start of a loop's body: the gather is waited for, the buffers swap, the next gather starts. -/
def KvBuffers.advance (fill : Tensor α) (ranks : List (RankInput α)) (nheadsK headsKStride i : Nat) (b : KvBuffers α) :
    KvBuffers α :=
  let b := b.wait.swap
  if i < nheadsK - headsKStride then
    b.allGather fill (gatherHeads ranks (i + headsKStride) (i + headsKStride + headsKStride))
  else b

/-! ## Forward -/

def forwardStep (fill : Tensor α) (fwd : Tensor α → Tensor α → Tensor α → Tensor α × Tensor α)
    (ranks : List (RankInput α)) (me : RankInput α) (headsKStride : Nat)
    (st : KvBuffers α × List (Tensor α) × List (Tensor α)) (i : Nat) :
    KvBuffers α × List (Tensor α) × List (Tensor α) :=
  let nheads := me.q.size 1
  let nheadsK := me.k.size 1
  let b := st.1.advance fill ranks nheadsK headsKStride i
  let q := me.q.narrow 1 (i * nheads / nheadsK) ((i + headsKStride) * nheads / nheadsK)
  let k := b.kvBuffer.1.narrow 0 me.args.localKSliceStart me.args.localKSliceStop
  let v := b.kvBuffer.2.narrow 0 me.args.localKSliceStart me.args.localKSliceStop
  let (out, lse) := fwd q k v
  (b, st.2.1 ++ [out], st.2.2 ++ [lse])

/-- `out` and `lse` of a rank. -/
def ringForward (fill : Tensor α) (fwd : Tensor α → Tensor α → Tensor α → Tensor α × Tensor α)
    (ranks : List (RankInput α)) (me : RankInput α) (headsKStride : Nat) : Tensor α × Tensor α :=
  let first := (KvBuffers.new fill).allGather fill (gatherHeads ranks 0 headsKStride)
  let st := (strides (me.k.size 1) headsKStride).foldl (forwardStep fill fwd ranks me headsKStride) (first, [], [])
  (cat 1 st.2.1, cat 0 st.2.2)

/-- `_RingFA3Varlen.forward` on a rank. -/
def ringFa3Forward (kernel : Kernel (Int × Int) α) (settings : Settings α) (fill : Tensor α)
    (ranks : List (RankInput α)) (me : RankInput α) (headsKStride : Nat) : Tensor α × Tensor α :=
  ringForward fill (kernel.forward (fa3Params settings me.args (me.q.size 2))) ranks me headsKStride

/-- `_RingFA4Varlen.forward` on a rank. -/
def ringFa4Forward (kernel : Kernel (Option Int × Option Int) α) (settings : Settings α) (fill : Tensor α)
    (ranks : List (RankInput α)) (me : RankInput α) (headsKStride : Nat) : Tensor α × Tensor α :=
  ringForward fill (kernel.forward (fa4Params settings me.args (me.q.size 2))) ranks me headsKStride

end

/-! ## Backward -/

section
variable {α : Type} [AddCommMonoid α]

/-- What a rank saved, and the gradient it is given. -/
structure SavedRank (α : Type) [Zero α] extends RankInput α where
  out : Tensor α
  softmaxLse : Tensor α
  dout : Tensor α

/-- A rank's kernel call of one iteration. -/
def backwardCall (bwd : RankInput α → QuerySide α → Tensor α → Tensor α → KernelGrads α) (b : KvBuffers α)
    (headsKStride i : Nat) (me : SavedRank α) : KernelGrads α :=
  let nheads := me.q.size 1
  let nheadsK := me.k.size 1
  let left := i * nheads / nheadsK
  let right := (i + headsKStride) * nheads / nheadsK
  bwd me.toRankInput
    ⟨me.dout.narrow 1 left right, me.q.narrow 1 left right, me.out.narrow 1 left right,
      me.softmaxLse.narrow 0 left right⟩
    (b.kvBuffer.1.narrow 0 me.args.localKSliceStart me.args.localKSliceStop)
    (b.kvBuffer.2.narrow 0 me.args.localKSliceStart me.args.localKSliceStop)

/-- One of the two `dkv_buffer`s: zero but for the rows of the local slice, which the kernel wrote. -/
def gradBuffer (worldSize headsKStride : Nat) (me : SavedRank α) (grad : Tensor α) : Tensor α :=
  (ofFn [me.k.size 0 * worldSize, headsKStride, me.k.size 2] fun _ => 0).write 0 me.args.localKSliceStart grad

/-- A rank's gradients after an iteration, from its `dq_i` and the chunks the reduction left it. -/
def storeGrads (headsKStride i : Nat) (me : SavedRank α) (g : KernelGrads α) (dq dk dv : Tensor α) : KernelGrads α :=
  let nheads := me.q.size 1
  let nheadsK := me.k.size 1
  { dq := g.dq.write 1 (i * nheads / nheadsK) dq
    dk := if headsKStride ≠ nheadsK then g.dk.write 1 i dk else dk
    dv := if headsKStride ≠ nheadsK then g.dv.write 1 i dv else dv }

def backwardStep (fill : Tensor α) (bwd : RankInput α → QuerySide α → Tensor α → Tensor α → KernelGrads α)
    (ranks : List (SavedRank α)) (nheadsK headsKStride : Nat) (st : KvBuffers α × List (KernelGrads α)) (i : Nat) :
    KvBuffers α × List (KernelGrads α) :=
  let b := st.1.advance fill (ranks.map (·.toRankInput)) nheadsK headsKStride i
  let calls := ranks.map (backwardCall bwd b headsKStride i)
  let dk := reduceScatter (List.zipWith (fun me c => gradBuffer ranks.length headsKStride me c.dk) ranks calls)
  let dv := reduceScatter (List.zipWith (fun me c => gradBuffer ranks.length headsKStride me c.dv) ranks calls)
  (b, List.zipWith (fun me x => storeGrads headsKStride i me x.1 x.2.1.dq x.2.2.1 x.2.2.2) ranks
    (st.2.zip (calls.zip (dk.zip dv))))

/-- `dq`, `dk` and `dv` of each rank; `nheadsK` is every rank's. -/
def ringBackward (fill : Tensor α) (fresh : List Nat → Tensor α)
    (bwd : RankInput α → QuerySide α → Tensor α → Tensor α → KernelGrads α) (ranks : List (SavedRank α))
    (nheadsK headsKStride : Nat) : List (KernelGrads α) :=
  let first := (KvBuffers.new fill).allGather fill (gatherHeads (ranks.map (·.toRankInput)) 0 headsKStride)
  let start := ranks.map fun me => (⟨fresh me.q.shape, fresh me.k.shape, fresh me.k.shape⟩ : KernelGrads α)
  ((strides nheadsK headsKStride).foldl (backwardStep fill bwd ranks nheadsK headsKStride) (first, start)).2

/-- `_RingFA3Varlen.backward` of the group. -/
def ringFa3Backward (kernel : Kernel (Int × Int) α) (settings : Settings α) (fill : Tensor α)
    (fresh : List Nat → Tensor α) (ranks : List (SavedRank α)) (nheadsK headsKStride : Nat) : List (KernelGrads α) :=
  ringBackward fill fresh (fun me => kernel.backward (fa3Params settings me.args (me.q.size 2))) ranks nheadsK headsKStride

/-- `_RingFA4Varlen.backward` of the group. -/
def ringFa4Backward (kernel : Kernel (Option Int × Option Int) α) (settings : Settings α) (fill : Tensor α)
    (fresh : List Nat → Tensor α) (ranks : List (SavedRank α)) (nheadsK headsKStride : Nat) : List (KernelGrads α) :=
  ringBackward fill fresh (fun me => kernel.backward (fa4Params settings me.args (me.q.size 2))) ranks nheadsK headsKStride

end

end Ring
end Aether
