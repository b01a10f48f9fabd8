import AetherRl.Dict
import AetherRl.TensorStack
/-!
# ConversionOps — state-dict conversion operators

The operators of trainer/models/conversion_ops.py: each transforms a state dict in place, forward (`hfToPrime`) from the
checkpoint layout to the training layout and backward (`primeToHf`).  A chain plays its operators in order, and backward
in reverse order.  Dimensions are counted from the front; tensors hold no device or dtype.
-/
namespace Aether
namespace Conversion

abbrev StateDict (α : Type) [Zero α] := Dict String (Tensor α)

/-- What the operators raise. -/
inductive ConvError
  | assertion (message : String)
  | zeroDivision
  | typeError
  | keyError (key : String)
  | indexError
  | runtimeError
  | valueError
  deriving DecidableEq, Repr

variable {α : Type} [Zero α]

/-- `name in sd`. -/
def keyPresent (name : String) (sd : StateDict α) : Bool := (sd.get? name).isSome

/-- `sd.pop(key)`. -/
def pop (sd : StateDict α) (key : String) : Except ConvError (Tensor α × StateDict α) :=
  match sd.get? key with
  | none => .error (.keyError key)
  | some t => .ok (t, sd.erase key)

/-- `torch.stack(tensors, dim=dim)`. -/
def torchStack (tensors : List (Tensor α)) (dim : Nat) : Except ConvError (Tensor α) :=
  match tensors with
  | [] => .error .runtimeError
  | t :: _ =>
    if t.shape.length < dim then .error .indexError
    else if ∀ u ∈ tensors, u.shape = t.shape then .ok (Tensor.stack dim tensors) else .error .runtimeError

/-- `torch.cat(tensors, dim=dim)`: tensors of shape `(0,)` are passed over. -/
def torchCat (tensors : List (Tensor α)) (dim : Nat) : Except ConvError (Tensor α) :=
  match tensors.filter (fun t => t.shape ≠ [0]) with
  | [] => match tensors.head? with
    | none => .error .valueError
    | some t => .ok t
  | t :: ts =>
    if t.shape.length ≤ dim then .error .indexError
    else if ∀ u ∈ ts, u.shape.length = t.shape.length ∧ u.shape.eraseIdx dim = t.shape.eraseIdx dim then
      .ok (Tensor.cat dim (t :: ts))
    else .error .runtimeError

/-! ## Name operators -/

/-- `sd[new] = sd.pop(old)` where `old` is there. -/
def moveKey (old new : String) (sd : StateDict α) : StateDict α :=
  match sd.get? old with
  | none => sd
  | some t => (sd.erase old).set new t

structure Rename where
  hf : String
  prime : String

def Rename.hfToPrime (op : Rename) (sd : StateDict α) : StateDict α := moveKey op.hf op.prime sd

def Rename.primeToHf (op : Rename) (sd : StateDict α) : StateDict α := moveKey op.prime op.hf sd

structure PrefixRename where
  hf : String
  prime : String

/-- `key.startswith(start)`. -/
def startsWith (key start : String) : Bool := start.toList.isPrefixOf key.toList

def PrefixRename.swap (old new : String) (sd : StateDict α) : Except ConvError (StateDict α) :=
  (sd.keys.filter (startsWith · old)).foldlM (fun sd key => do
    let (t, sd) ← pop sd key
    return sd.set (new ++ String.ofList (key.toList.drop old.length)) t) sd

def PrefixRename.hfToPrime (op : PrefixRename) (sd : StateDict α) : Except ConvError (StateDict α) :=
  swap op.hf op.prime sd

def PrefixRename.primeToHf (op : PrefixRename) (sd : StateDict α) : Except ConvError (StateDict α) :=
  swap op.prime op.hf sd

structure Drop where
  name : String
  isPrefix : Bool

/-- The key is one of those dropped. -/
def Drop.hits (op : Drop) (key : String) : Bool := if op.isPrefix then startsWith key op.name else key = op.name

def Drop.drop (op : Drop) (sd : StateDict α) : StateDict α := (sd.keys.filter op.hits).foldl Dict.erase sd

/-! ## Value operators -/

/-- A key pattern with its one `{e}` placeholder. -/
structure ItemPattern where
  before : String
  after : String

/-- `item.format(e=e)`. -/
def ItemPattern.format (item : ItemPattern) (e : Nat) : String := item.before ++ toString e ++ item.after

structure Stack where
  stacked : String
  item : ItemPattern
  dim : Nat
  indexOffset : Nat

/-- `while item.format(e=e) in sd`: each turn pops a key, so there are no more turns than entries. -/
def Stack.collect (item : ItemPattern) : Nat → Nat → StateDict α → List (Tensor α) × StateDict α
  | 0, _, sd => ([], sd)
  | turns + 1, e, sd =>
    match sd.get? (item.format e) with
    | none => ([], sd)
    | some t =>
      let (items, sd') := collect item turns (e + 1) (sd.erase (item.format e))
      (t :: items, sd')

def Stack.hfToPrime (op : Stack) (sd : StateDict α) : Except ConvError (StateDict α) :=
  match collect op.item sd.entries.length 0 sd with
  | ([], sd) => .ok sd
  | (t :: items, sd) => do
    let stacked ← torchStack (t :: items) op.dim
    return sd.set op.stacked stacked

/-- The entries of a tensor under their keys, from `e` on. -/
def Stack.unstack (op : Stack) (t : Tensor α) (sd : StateDict α) : StateDict α :=
  (List.range (t.size op.dim)).foldl (fun sd e => sd.set (op.item.format (op.indexOffset + e)) (t.select op.dim e)) sd

def Stack.primeToHf (op : Stack) (sd : StateDict α) : Except ConvError (StateDict α) :=
  match sd.get? op.stacked with
  | none => .ok sd
  | some t =>
    if op.dim < t.shape.length then .ok (op.unstack t (sd.erase op.stacked)) else .error .indexError

structure SplitConcat where
  combined : String
  parts : List (String × Option Nat)
  dim : Nat

def SplitConcat.sizes (op : SplitConcat) (total : Nat) : Except ConvError (List Nat) :=
  if op.parts.all fun part => part.2.isNone then
    let n := op.parts.length
    if n = 0 then .error .zeroDivision
    else if total % n = 0 then .ok (List.replicate n (total / n))
    else .error (.assertion s!"{op.combined}: dim {op.dim} size {total} not divisible by {n} parts")
  else
    op.parts.mapM fun part => match part.2 with
      | none => .error .typeError
      | some size => .ok size

/-- The parts of `t`, from `offset` on, under their keys. -/
def SplitConcat.split (dim : Nat) (t : Tensor α) : List (String × Nat) → Nat → StateDict α →
    Except ConvError (StateDict α)
  | [], _, sd => .ok sd
  | (key, size) :: parts, offset, sd =>
    if offset + size ≤ t.size dim then
      split dim t parts (offset + size) (sd.set key (t.narrow dim offset (offset + size)))
    else .error .runtimeError

def SplitConcat.hfToPrime (op : SplitConcat) (sd : StateDict α) : Except ConvError (StateDict α) :=
  match sd.get? op.combined with
  | none => .ok sd
  | some t =>
    if op.dim < t.shape.length then do
      let sizes ← op.sizes (t.size op.dim)
      split op.dim t ((op.parts.map Prod.fst).zip sizes) 0 (sd.erase op.combined)
    else .error .indexError

def SplitConcat.popAll : List String → StateDict α → Except ConvError (List (Tensor α) × StateDict α)
  | [], sd => .ok ([], sd)
  | key :: keys, sd => do
    let (t, sd) ← pop sd key
    let (tensors, sd) ← popAll keys sd
    return (t :: tensors, sd)

def SplitConcat.primeToHf (op : SplitConcat) (sd : StateDict α) : Except ConvError (StateDict α) :=
  if op.parts.all fun part => keyPresent part.1 sd then do
    let (tensors, sd) ← popAll (op.parts.map Prod.fst) sd
    let combined ← torchCat tensors op.dim
    return sd.set op.combined combined
  else .ok sd

structure Synthetic (α : Type) [Zero α] where
  prime : String
  factory : StateDict α → Tensor α

def Synthetic.hfToPrime (op : Synthetic α) (sd : StateDict α) : StateDict α := sd.set op.prime (op.factory sd)

def Synthetic.primeToHf (op : Synthetic α) (sd : StateDict α) : StateDict α := sd.erase op.prime

structure MapValue (α : Type) [Zero α] where
  prime : String
  forward : Tensor α → Tensor α
  backward : Tensor α → Tensor α

/-- `sd[key] = f(sd[key])` where the key is there. -/
def mapKey (key : String) (f : Tensor α → Tensor α) (sd : StateDict α) : StateDict α :=
  match sd.get? key with
  | none => sd
  | some t => sd.set key (f t)

def MapValue.hfToPrime (op : MapValue α) (sd : StateDict α) : StateDict α := mapKey op.prime op.forward sd

def MapValue.primeToHf (op : MapValue α) (sd : StateDict α) : StateDict α := mapKey op.prime op.backward sd

structure SqueezeLeading where
  key : String

def SqueezeLeading.primeToHf (op : SqueezeLeading) (sd : StateDict α) : Except ConvError (StateDict α) :=
  match sd.get? op.key with
  | none => .ok sd
  | some t =>
    match t.shape with
    | [] => .error .indexError
    | n :: _ => .ok (if n = 1 then sd.set op.key (t.select 0 0) else sd)

/-! ## Control flow -/

inductive ConvOp (α : Type) [Zero α]
  | rename (op : Rename)
  | prefixRename (op : PrefixRename)
  | drop (op : Drop)
  | stack (op : Stack)
  | splitConcat (op : SplitConcat)
  | synthetic (op : Synthetic α)
  | mapValue (op : MapValue α)
  | squeezeLeading (op : SqueezeLeading)
  | conditional (predicate : StateDict α → Bool) (then_ else_ : List (ConvOp α))
  | sequence (ops : List (ConvOp α))

mutual

def ConvOp.hfToPrime : ConvOp α → StateDict α → Except ConvError (StateDict α)
  | .rename op, sd => .ok (op.hfToPrime sd)
  | .prefixRename op, sd => op.hfToPrime sd
  | .drop op, sd => .ok (op.drop sd)
  | .stack op, sd => op.hfToPrime sd
  | .splitConcat op, sd => op.hfToPrime sd
  | .synthetic op, sd => .ok (op.hfToPrime sd)
  | .mapValue op, sd => .ok (op.hfToPrime sd)
  | .squeezeLeading _, sd => .ok sd
  | .conditional predicate then_ else_, sd =>
    if predicate sd then applyHfToPrime then_ sd else applyHfToPrime else_ sd
  | .sequence ops, sd => applyHfToPrime ops sd

/-- `for op in ops`. -/
def applyHfToPrime : List (ConvOp α) → StateDict α → Except ConvError (StateDict α)
  | [], sd => .ok sd
  | op :: ops, sd => op.hfToPrime sd >>= fun sd => applyHfToPrime ops sd

end

mutual

def ConvOp.primeToHf : ConvOp α → StateDict α → Except ConvError (StateDict α)
  | .rename op, sd => .ok (op.primeToHf sd)
  | .prefixRename op, sd => op.primeToHf sd
  | .drop op, sd => .ok (op.drop sd)
  | .stack op, sd => op.primeToHf sd
  | .splitConcat op, sd => op.primeToHf sd
  | .synthetic op, sd => .ok (op.primeToHf sd)
  | .mapValue op, sd => .ok (op.primeToHf sd)
  | .squeezeLeading op, sd => op.primeToHf sd
  | .conditional predicate then_ else_, sd =>
    if predicate sd then applyPrimeToHf then_ sd else applyPrimeToHf else_ sd
  | .sequence ops, sd => applyPrimeToHf ops sd

/-- `for op in reversed(ops)`: the operators behind the first, then the first. -/
def applyPrimeToHf : List (ConvOp α) → StateDict α → Except ConvError (StateDict α)
  | [], sd => .ok sd
  | op :: ops, sd => applyPrimeToHf ops sd >>= fun sd => op.primeToHf sd

end

/-- **Backward, the chain is played from its end.** -/
theorem applyPrimeToHf_reverse : ∀ (ops : List (ConvOp α)) (sd : StateDict α),
    applyPrimeToHf ops sd = ops.reverse.foldlM (fun sd op => op.primeToHf sd) sd
  | [], _ => rfl
  | op :: ops, sd => by
    rw [applyPrimeToHf, applyPrimeToHf_reverse ops sd, List.reverse_cons, List.foldlM_append]
    simp only [List.foldlM_cons, List.foldlM_nil, bind_pure]

/-! ## Routed experts -/

/-- Internal names and the checkpoint's names of the three projections. -/
def GATE_DOWN_UP : List (String × String) := [("w1", "gate_proj"), ("w2", "down_proj"), ("w3", "up_proj")]

/-- One layer's routed experts: `layer` is the source's `prefix`. -/
structure RoutedExperts where
  layer : String
  hfExperts : String
  primeExperts : String
  projOrder : List (String × String)
  hfProjSuffix : String

namespace RoutedExperts

variable (names : RoutedExperts)

/-- `f"{prefix}.{prime_experts}.{wn}"`. -/
def stacked (wn : String) : String := names.layer ++ "." ++ names.primeExperts ++ "." ++ wn

/-- `f"{prefix}.{hf_experts}.{{e}}.{hf_proj}{hf_proj_suffix}"`. -/
def item (hfProj : String) : ItemPattern :=
  ⟨names.layer ++ "." ++ names.hfExperts ++ ".", "." ++ hfProj ++ names.hfProjSuffix⟩

/-- `f"{prefix}.{hf_experts}.gate_up_proj"`. -/
def gateUp : String := names.layer ++ "." ++ names.hfExperts ++ ".gate_up_proj"

/-- `f"{prefix}.{hf_experts}.down_proj"`. -/
def downProj : String := names.layer ++ "." ++ names.hfExperts ++ ".down_proj"

def stackOps : List Stack := names.projOrder.map fun proj => ⟨names.stacked proj.1, names.item proj.2, 0, 0⟩

def fusedThen : List (ConvOp α) :=
  [.splitConcat ⟨names.gateUp, [(names.stacked "w1", none), (names.stacked "w3", none)], 1⟩,
    .rename ⟨names.downProj, names.stacked "w2"⟩]

end RoutedExperts

def routedExpertsOp (names : RoutedExperts) (fused : Bool) : ConvOp α :=
  if fused then .conditional (keyPresent names.gateUp) names.fusedThen (names.stackOps.map .stack)
  else .sequence (names.stackOps.map .stack)

end Conversion
end Aether
