import Mathlib.Data.Finset.Basic
import AetherRl.Dict
import AetherRl.PolicyRange
/-!
# PolicyTensors — which adapter tensors make a LoRA policy

`_validate_adapter_tensors` of `trainer/policy.py`: the names, dtypes and shapes of an adapter's tensors, plain, stacked
over the experts or one pair for each expert, and the target modules they are for.
-/
namespace Aether
namespace Publish

/-- What the publication of a policy raises. -/
inductive Raised
  | value (message : String)
  | key
  | type
  | zeroDivision
  | overflow
  | validation
  | json
  | safetensors
  | os
deriving DecidableEq

/-! ## Python's text methods -/

/-- The last place of a separator in a text: what stands before it and what after. -/
def lastSplit (separator : List Char) : List Char → Option (List Char × List Char)
  | [] => none
  | c :: cs =>
    match lastSplit separator cs with
    | some (before, after) => some (c :: before, after)
    | none => if separator <+: c :: cs then some ([], (c :: cs).drop separator.length) else none

/-- `text.rpartition(separator)` where the separator is in it, and `text.rsplit(separator, 1)`. -/
def rpartition (separator text : String) : Option (String × String) :=
  (lastSplit separator.toList text.toList).map fun (before, after) => (String.ofList before, String.ofList after)

/-- `text.partition(".")` where a dot is in it. -/
def partitionDot (text : String) : Option (String × String) :=
  match text.toList.dropWhile (· ≠ '.') with
  | [] => none
  | _ :: rest => some (String.ofList (text.toList.takeWhile (· ≠ '.')), String.ofList rest)

def endsWith (text ending : String) : Bool := decide (ending.toList <:+ text.toList)

/-- `part in text`. -/
def containsText (text part : String) : Bool := (lastSplit part.toList text.toList).isSome

/-- `text.removesuffix(ending)`. -/
def removeEnding (text ending : String) : String :=
  if endsWith text ending then String.ofList (text.toList.take (text.toList.length - ending.toList.length)) else text

/-- The characters that are digits and stand for no decimal: superscripts, circled digits and the like, as first and last
of a run. -/
def digitRuns : List (Nat × Nat) :=
  [(0xB2, 0xB3), (0xB9, 0xB9), (0x1369, 0x1371), (0x19DA, 0x19DA), (0x2070, 0x2070), (0x2074, 0x2079), (0x2080, 0x2089),
    (0x2460, 0x2468), (0x2474, 0x247C), (0x2488, 0x2490), (0x24EA, 0x24EA), (0x24F5, 0x24FD), (0x24FF, 0x24FF),
    (0x2776, 0x277E), (0x2780, 0x2788), (0x278A, 0x2792), (0x10A40, 0x10A43), (0x10E60, 0x10E68), (0x11052, 0x1105A),
    (0x1F100, 0x1F10A)]

/-- `text.isdigit()`. -/
def isDigitText (text : String) : Bool :=
  decide (text ≠ "") && text.toList.all fun c =>
    (PolicyFile.toAscii c).isDigit || digitRuns.any fun run => run.1 ≤ c.toNat && c.toNat ≤ run.2

/-! ## Pairs of tensors -/

structure AdapterTensor (δ : Type) where
  floating : Bool
  shape : List Nat
  data : δ
deriving DecidableEq

variable {δ : Type}

abbrev StateDict (δ : Type) := Dict String (AdapterTensor δ)

/-- The tensors that were found under one stem. -/
structure Pair (δ : Type) where
  a : Option (AdapterTensor δ)
  b : Option (AdapterTensor δ)

/-- The pairs by stem, and the target modules so far. -/
structure Paired (δ : Type) where
  pairs : Dict String (Pair δ)
  targetModules : List String

/-- The first loop, for one tensor. -/
def addTensor (found : Paired δ) (entry : String × AdapterTensor δ) : Except Raised (Paired δ) :=
  let (key, tensor) := entry
  match rpartition ".lora_" key with
  | none => .error (.value ("unsupported non-LoRA adapter tensor: " ++ key))
  | some (stem, ending) =>
    if stem = "" ∨ ending ∉ ["A.weight", "B.weight"] then
      .error (.value ("unsupported non-LoRA adapter tensor: " ++ key))
    else if tensor.floating = false then
      .error (.value ("LoRA adapter tensor must use a floating-point dtype: " ++ key))
    else
      let pair := (found.pairs.get? stem).getD ⟨none, none⟩
      let pair := if ending = "A.weight" then { pair with a := some tensor } else { pair with b := some tensor }
      .ok ⟨found.pairs.set stem pair, ((rpartition "." stem).map (·.2)).getD stem :: found.targetModules⟩

/-- The shapes of a complete pair of matrices. -/
structure PairShape where
  a : Nat × Nat
  b : Nat × Nat
deriving DecidableEq

def isStackedMoe (stem : String) : Bool := endsWith stem ".experts" || containsText stem ".experts.base_layer"

/-- The second loop, for one pair. -/
def checkPair (rank : Int) (stem : String) (pair : Pair δ) : Except Raised PairShape :=
  match pair.a, pair.b with
  | some loraA, some loraB =>
    match loraA.shape, loraB.shape with
    | [effectiveRank, inputs], [outputs, rankB] =>
      if effectiveRank ≠ rankB then .error (.value ("LoRA adapter tensor ranks do not match: " ++ stem))
      else if (effectiveRank : Int) ≠ rank ∧ isStackedMoe stem = true ∧ rank = 0 then .error .zeroDivision
      else if (effectiveRank : Int) ≠ rank ∧ (isStackedMoe stem = false ∨ (effectiveRank : Int) % rank ≠ 0) then
        .error (.value ("LoRA adapter tensor rank does not match manifest: " ++ stem))
      else .ok ⟨(effectiveRank, inputs), (outputs, rankB)⟩
    | _, _ => .error (.value ("LoRA adapter tensors must be matrices: " ++ stem))
  | _, _ => .error (.value ("LoRA adapter tensor pair is incomplete: " ++ stem))

/-! ## Experts -/

/-- The stems of stacked experts without their `.base_layer`. -/
def stackedRoots (stems : List String) : List String :=
  (stems.filter fun stem => endsWith stem ".experts" || endsWith stem ".experts.base_layer").map
    fun stem => removeEnding stem ".base_layer"

def checkStacked (pairs : List (String × PairShape)) (root : String) : Except Raised Unit :=
  match pairs.lookup (root ++ ".base_layer"), pairs.lookup root with
  | some gateUp, some down =>
    if gateUp.a.1 ≠ down.a.1 then .error (.value ("stacked MoE LoRA adapter expert counts do not match: " ++ root))
    else if gateUp.a.2 ≠ down.b.1 then .error (.value ("stacked MoE LoRA adapter hidden sizes do not match: " ++ root))
    else if gateUp.b.1 ≠ 2 * down.a.2 then
      .error (.value ("stacked MoE LoRA adapter intermediate sizes do not match: " ++ root))
    else .ok ()
  | _, _ => .error (.value ("stacked MoE LoRA adapter is incomplete: " ++ root))

abbrev Projections := Dict String PairShape
abbrev Experts := Dict Int Projections

/-- The third loop, for one pair. -/
def addExpert (perExpert : Dict String Experts) (entry : String × PairShape) : Except Raised (Dict String Experts) :=
  let (stem, pair) := entry
  if containsText stem ".experts." = false ∨ endsWith stem ".experts.base_layer" = true then .ok perExpert
  else
    match rpartition ".experts." stem with
    | none => .ok perExpert
    | some (root, expertProjection) =>
      match partitionDot expertProjection with
      | none => .error (.value ("unsupported MoE LoRA adapter tensor layout: " ++ stem))
      | some (expertId, projection) =>
        if isDigitText expertId = false ∨ projection ∉ ["gate_proj", "up_proj", "down_proj"] then
          .error (.value ("unsupported MoE LoRA adapter tensor layout: " ++ stem))
        else
          match PolicyFile.intOfText expertId.toList with
          | none => .error (.value "invalid literal for int()")
          | some expert =>
            let experts := (perExpert.get? root).getD Dict.empty
            let projections := (experts.get? expert).getD Dict.empty
            .ok (perExpert.set root (experts.set expert (projections.set projection pair)))

/-- The shapes of an expert, under the names of its tensors. -/
def expertShapes (projections : Projections) : Finset (String × Nat × Nat) :=
  (projections.entries.flatMap fun (projection, pair) =>
    [(projection ++ ".A", pair.a), (projection ++ ".B", pair.b)]).toFinset

/-- The last loop, for one expert after the first one's shapes. -/
def checkExpert (root : String) (reference : Option (Finset (String × Nat × Nat))) (projections : Projections) :
    Except Raised (Option (Finset (String × Nat × Nat))) :=
  match projections.get? "up_proj", projections.get? "down_proj" with
  | some up, some down =>
    if reference.any fun shapes => expertShapes projections ≠ shapes then
      .error (.value ("per-expert MoE LoRA adapter shapes do not match: " ++ root))
    else if up.a.2 ≠ down.b.1 ∨ up.b.1 ≠ down.a.2 then
      .error (.value ("per-expert MoE LoRA adapter dimensions do not match: " ++ root))
    else if (projections.get? "gate_proj").any fun gate => gate.a ≠ up.a ∨ gate.b ≠ up.b then
      .error (.value ("per-expert MoE gate and up projection shapes do not match: " ++ root))
    else .ok (some (reference.getD (expertShapes projections)))
  | _, _ => .error .key

/-- The projections an expert may have. -/
def projectionLayouts : List (Finset String) := [{"up_proj", "down_proj"}, {"gate_proj", "up_proj", "down_proj"}]

def checkExperts (root : String) (experts : Experts) : Except Raised Unit := do
  if experts.keys.toFinset ≠ ((List.range experts.keys.length).map Int.ofNat).toFinset then
    throw (.value ("per-expert MoE LoRA adapter expert IDs are not contiguous: " ++ root))
  let projectionSets := (experts.entries.map fun e => e.2.keys.toFinset).dedup
  if projectionSets ∉ projectionLayouts.map fun layout => [layout] then
    throw (.value ("per-expert MoE LoRA adapter projections are incomplete: " ++ root))
  let _ ← (experts.entries.map (·.2)).foldlM (checkExpert root) none
  pure ()

/-- `_validate_adapter_tensors`. -/
def validateAdapterTensors (stateDict : StateDict δ) (rank : Int) : Except Raised (List String) := do
  if stateDict.entries.isEmpty then throw (.value "LoRA state dict must not be empty")
  let found ← stateDict.entries.foldlM addTensor ⟨Dict.empty, []⟩
  let pairs ← found.pairs.entries.mapM fun (stem, pair) => do
    let shape ← checkPair rank stem pair
    pure (stem, shape)
  (stackedRoots (pairs.map (·.1))).forM (checkStacked pairs)
  let perExpert ← pairs.foldlM addExpert Dict.empty
  perExpert.entries.forM fun (root, experts) => checkExperts root experts
  pure (Rows.orderBy id found.targetModules.dedup)

end Publish
end Aether
