import AetherRl.Heads
import AetherRl.Checked
/-!
# Ulysses — context parallelism through an exchange of heads and rows

`trainer/models/layers/ulysses_attn.py`.  Every rank runs the same code on its own tensors, so the model runs the group:
a list holds the ranks' tensors in rank order, and the job raises what a rank raises.  The attention kernel is a
parameter.
-/
namespace Aether
namespace Ulysses

open Checked Tensor Shape

variable {α : Type} [Zero α]

/-! ## The exchange -/

def replicateKvHeads (t : Tensor α) (cpSize : Nat) : Except String (Tensor α) := do
  let h := t.size 1
  Checked.raiseUnless (cpSize % h = 0)
    s!"num_key_value_heads ({h}) must divide cp_size ({cpSize}) for the ulysses KV-replication path"
  return t.repeatInterleave 1 (cpSize / h)

/-- What a rank sends: its rows of each head group, `[S_local, H, D]` as `[cp_size, S_local, H_local, D]`. -/
def headGroups (cpSize : Nat) (t : Tensor α) : Except String (Tensor α) := do
  let h := t.size 1
  Checked.raiseUnless (h % cpSize = 0) (s!"num_heads ({h}) must be divisible by cp_size ({cpSize}); " ++
    "for GQA KV tensors with fewer heads than cp_size, replicate first via _replicate_kv_heads")
  return (t.reshape [t.size 0, cpSize, h / cpSize, t.size 2]).permute [1, 0, 2, 3]

def allToAllSeqToHead (cpSize : Nat) (ts : List (Tensor α)) : Except String (List (Tensor α)) := do
  let sent ← ts.mapM (headGroups cpSize)
  return List.zipWith (fun t out => out.reshape [cpSize * t.size 0, t.size 1 / cpSize, t.size 2]) ts
    (allToAllSingle sent)

/-- What a rank sends back: its heads of each rank's rows. -/
def rowGroups (cpSize : Nat) (t : Tensor α) : Except String (Tensor α) := do
  Checked.raiseUnless (t.size 0 % cpSize = 0) ""
  return t.reshape [cpSize, t.size 0 / cpSize, t.size 1, t.size 2]

def allToAllHeadToSeq (cpSize : Nat) (ts : List (Tensor α)) : Except String (List (Tensor α)) := do
  let sent ← ts.mapM (rowGroups cpSize)
  return List.zipWith (fun t out =>
    (out.permute [1, 0, 2, 3]).reshape [t.size 0 / cpSize, t.size 1 * cpSize, t.size 2]) ts (allToAllSingle sent)

/-! ## The call of the kernel -/

/-- How the sequence lengths are passed: in place, or by keyword to version 4. -/
inductive SeqlenArgs
  | inPlace (cuSeqlensQ cuSeqlensK : List Nat) (maxSeqlenQ maxSeqlenK : Nat)
  | byKeyword (cuSeqlensQ cuSeqlensK : List Nat)

/-- The keyword arguments; one that is absent is not passed. -/
structure FlashArgs (α : Type) where
  causal : Bool
  windowSize : Option (Int × Int)
  softmaxScale : Option α
  dropoutP : Option α
  deterministic : Option Bool
  seqlens : SeqlenArgs

/-- A kernel answers with its output, or with a tuple that starts with it. -/
inductive FlashOut (α : Type) [Zero α]
  | tensor (out : Tensor α)
  | tuple (out : Tensor α) (rest : List (Tensor α))

def FlashOut.first : FlashOut α → Tensor α
  | .tensor out => out
  | .tuple out _ => out

abbrev FlashFn (α : Type) [Zero α] := FlashArgs α → Tensor α → Tensor α → Tensor α → FlashOut α

def flashArgs [DecidableEq α] (cuSeqlensQ cuSeqlensK : List Nat) (maxSeqlenQ maxSeqlenK : Nat) (causal : Bool)
    (flashAttnVersion : Nat) (windowSize : Int × Int) (softmaxScale : Option α) (dropoutP : α)
    (deterministic : Option Bool) : FlashArgs α where
  causal := causal
  windowSize := if windowSize ≠ (-1, -1) then some windowSize else none
  softmaxScale := softmaxScale
  dropoutP := if dropoutP = 0 then none else some dropoutP
  deterministic := deterministic
  seqlens := if flashAttnVersion = 4 then .byKeyword cuSeqlensQ cuSeqlensK
    else .inPlace cuSeqlensQ cuSeqlensK maxSeqlenQ maxSeqlenK

/-- K or V with at least one head for each rank; `k` decides. -/
def enoughHeads (cpSize : Nat) (k t : Tensor α) : Except String (Tensor α) :=
  if k.size 1 < cpSize then replicateKvHeads t cpSize else .ok t

/-- `windowSize` has each rank's argument. -/
def ulyssesFlashAttnVarlenFunc [DecidableEq α] (flashFn : FlashFn α) (q k v : List (Tensor α))
    (cuSeqlensQ cuSeqlensK : List Nat) (maxSeqlenQ maxSeqlenK : Nat) (causal : Bool) (cpSize flashAttnVersion : Nat)
    (windowSize : List (Int × Int)) (softmaxScale : Option α) (dropoutP : α) (deterministic : Option Bool) :
    Except String (List (Tensor α)) := do
  let q ← allToAllSeqToHead cpSize q
  let k' ← k.mapM fun k => enoughHeads cpSize k k
  let v' ← (k.zip v).mapM fun kv => enoughHeads cpSize kv.1 kv.2
  let k ← allToAllSeqToHead cpSize k'
  let v ← allToAllSeqToHead cpSize v'
  let outs := List.zipWith (fun wq kv =>
    (flashFn (flashArgs cuSeqlensQ cuSeqlensK maxSeqlenQ maxSeqlenK causal flashAttnVersion wq.1 softmaxScale dropoutP
      deterministic) wq.2 kv.1 kv.2).first) (windowSize.zip q) (k.zip v)
  allToAllHeadToSeq cpSize outs

/-! ## What the exchange leaves on a rank -/

section
variable {n S h D : Nat} {t : Tensor α}

/-- The head groups of a rank's rows. -/
def sentHeads (n S h D : Nat) (t : Tensor α) : Tensor α := (t.reshape [S, n, h, D]).permute [1, 0, 2, 3]

theorem headGroups_ok (hn : 0 < n) (ht : t.shape = [S, n * h, D]) : headGroups n t = .ok (sentHeads n S h D t) := by
  unfold headGroups
  rw [size_of_shape ht, size_of_shape ht, size_of_shape ht]
  simp only [List.getD_cons_zero, List.getD_cons_succ]
  rw [raiseUnless_of _ (Nat.mul_mod_right n h), Nat.mul_div_cancel_left h hn]
  rfl

theorem shape_sentHeads : (sentHeads n S h D t).shape = [n, S, h, D] := shape_permute rfl

theorem get_sentHeads (ht : t.shape = [S, n * h, D]) {r i j d : Nat} (hr : r < n) (hi : i < S) (hj : j < h) (hd : d < D) :
    (sentHeads n S h D t).get [r, i, j, d] = t.get [i, r * h + j, d] := by
  rw [sentHeads, get_permute rfl hi hr hj hd]
  refine get_reshape ht ⟨hi, place_lt hr hj, hd, trivial⟩ ⟨hi, hr, hj, hd, trivial⟩ ?_
  simp only [ravel_cons, ravel_nil, List.prod_cons, List.prod_nil]
  ring

/-- **Rows for heads**: after the exchange a rank has every row of its group of heads. -/
theorem allToAllSeqToHead_shards (hn : 0 < n) (ht : t.shape = [n * S, n * h, D]) :
    allToAllSeqToHead n (shards n t) = .ok ((List.range n).map fun r => heads n r t) := by
  have hrow : ∀ i < n, (chunk n i t).shape = [S, n * h, D] := fun i hi => shape_chunk ht hi
  have hsent : ((shards n t).mapM (headGroups n)) =
      .ok ((List.range n).map fun i => sentHeads n S h D (chunk n i t)) := by
    rw [mapM_of_forall (g := sentHeads n S h D), shards, shardsAt, List.map_map]
    · rfl
    · intro u hu
      obtain ⟨i, hi, rfl⟩ := List.mem_map.1 hu
      exact headGroups_ok hn (hrow i (List.mem_range.1 hi))
  unfold allToAllSeqToHead
  rw [hsent, ok_bind, allToAllSingle_range, shards, shardsAt, List.zipWith_map, List.zipWith_self]
  refine congrArg Except.ok (List.map_congr_left fun r hr => ?_)
  replace hr := List.mem_range.1 hr
  rw [size_of_shape (hrow r hr), size_of_shape (hrow r hr), size_of_shape (hrow r hr)]
  simp only [List.getD_cons_zero, List.getD_cons_succ]
  rw [Nat.mul_div_cancel_left h hn]
  have hslots : ∀ i < n, (sentHeads n S h D (chunk n i t)).shape = [n, S, h, D] := fun _ _ => shape_sentHeads
  refine ext₃ (shape_reshape _ _) (shape_heads ht hr) fun x hx j hj d hd => ?_
  have hS : 0 < S := Nat.pos_of_mul_pos_left (Nat.zero_lt_of_lt hx)
  have hi : x / S < n := Nat.div_lt_of_lt_mul (Nat.mul_comm n S ▸ hx)
  have hs : x % S < S := Nat.mod_lt x hS
  have hin : Inside [S, h, D] [x % S, j, d] := ⟨hs, hj, hd, trivial⟩
  have hrest : Inside [n * h, D] [r * h + j, d] := ⟨place_lt hr hj, hd, trivial⟩
  have hout : Inside [n * S, h, D] [x, j, d] := ⟨hx, hj, hd, trivial⟩
  have hravel : ravel [n * S, h, D] [x, j, d] = ravel [n, S, h, D] [x / S, x % S, j, d] := by
    simp only [ravel_cons, ravel_nil, List.prod_cons, List.prod_nil]
    conv => lhs; rw [← Nat.div_add_mod' x S]
    ring
  have hplace : Inside [n, S, h, D] [x / S, x % S, j, d] := ⟨hi, hin⟩
  rw [get_reshape (shape_slots hslots hr) hplace hout hravel, get_slots hslots hr hi hin,
    get_sentHeads (hrow _ hi) hr hs hj hd, get_chunk ht hi hs hrest, Nat.div_add_mod', get_heads ht hr hx hj hd]

/-- **Heads for rows**: the exchange back leaves a rank its rows of every head. -/
theorem allToAllHeadToSeq_heads (hn : 0 < n) (ht : t.shape = [n * S, n * h, D]) :
    allToAllHeadToSeq n ((List.range n).map fun r => heads n r t) = .ok (shards n t) := by
  have hhead : ∀ i < n, (heads n i t).shape = [n * S, h, D] := fun i hi => shape_heads ht hi
  have hsent : (((List.range n).map fun r => heads n r t).mapM (rowGroups n)) =
      .ok ((List.range n).map fun i => (heads n i t).reshape [n, S, h, D]) := by
    rw [mapM_of_forall (g := fun u => u.reshape [n, S, h, D]), List.map_map]
    · rfl
    · intro u hu
      obtain ⟨i, hi, rfl⟩ := List.mem_map.1 hu
      have hs := hhead i (List.mem_range.1 hi)
      unfold rowGroups
      rw [size_of_shape hs, size_of_shape hs, size_of_shape hs]
      simp only [List.getD_cons_zero, List.getD_cons_succ]
      rw [raiseUnless_of _ (Nat.mul_mod_right n S), Nat.mul_div_cancel_left S hn]
      rfl
  unfold allToAllHeadToSeq
  rw [hsent, ok_bind, allToAllSingle_range, shards, shardsAt, List.zipWith_map, List.zipWith_self]
  refine congrArg Except.ok (List.map_congr_left fun r hr => ?_)
  replace hr := List.mem_range.1 hr
  rw [size_of_shape (hhead r hr), size_of_shape (hhead r hr), size_of_shape (hhead r hr)]
  simp only [List.getD_cons_zero, List.getD_cons_succ]
  rw [Nat.mul_div_cancel_left S hn]
  have hslots : ∀ i < n, ((heads n i t).reshape [n, S, h, D]).shape = [n, S, h, D] := fun _ _ => rfl
  rw [Nat.mul_comm h n]
  refine ext₃ (shape_reshape _ _) (shape_chunk ht hr) fun x hx j hj d hd => ?_
  have hh : 0 < h := Nat.pos_of_mul_pos_left (Nat.zero_lt_of_lt hj)
  have hi : j / h < n := Nat.div_lt_of_lt_mul (Nat.mul_comm n h ▸ hj)
  have hm : j % h < h := Nat.mod_lt j hh
  have hin : Inside [S, h, D] [x, j % h, d] := ⟨hx, hm, hd, trivial⟩
  have hrest : Inside [n * h, D] [j, d] := ⟨hj, hd, trivial⟩
  have hslot := shape_slots hslots hr
  have hout : Inside [S, n * h, D] [x, j, d] := ⟨hx, hrest⟩
  have hback : Inside [S, n, h, D] [x, j / h, j % h, d] := ⟨hx, hi, hm, hd, trivial⟩
  have hravel : ravel [S, n * h, D] [x, j, d] = ravel [S, n, h, D] [x, j / h, j % h, d] := by
    simp only [ravel_cons, ravel_nil, List.prod_cons, List.prod_nil]
    conv => lhs; rw [← Nat.div_add_mod' j h]
    ring
  have hsrc : Inside [n * S, h, D] [r * S + x, j % h, d] := ⟨place_lt hr hx, hm, hd, trivial⟩
  have hsrcOut : Inside [n, S, h, D] [r, x, j % h, d] := ⟨hr, hin⟩
  have hsrcRavel : ravel [n, S, h, D] [r, x, j % h, d] = ravel [n * S, h, D] [r * S + x, j % h, d] := by
    simp only [ravel_cons, ravel_nil, List.prod_cons, List.prod_nil]
    ring
  rw [get_reshape (shape_permute hslot) hback hout hravel, get_permute hslot hi hx hm hd, get_slots hslots hr hi hin,
    get_reshape (hhead _ hi) hsrc hsrcOut hsrcRavel, get_heads ht hi (place_lt hr hx) hm hd, Nat.div_add_mod',
    get_chunk ht hr hx hrest]

end

end Ulysses
end Aether
