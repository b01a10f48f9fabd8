import AetherRl.Loss
import Mathlib.Algebra.Order.Ring.Nat
/-!
# LossStep — what a training step counts and hands to `compute_loss`

The part of `trainer/rl/train.py` between the micro-batches of all workers and their losses: the counts that every rank
adds up, and the split of each micro-batch at its sequence lengths.
-/
namespace Aether
namespace Loss

open Checked Batch

variable {K : Type} [Field K] [LinearOrder K]

/-! ## Counts -/

/-- The tokens the rl component trains. -/
def rlMask (m : MicroBatch K) : List Bool :=
  match m.rlWeights with
  | none => m.lossMask
  | some w => m.lossMask.zipWith (fun b w => b && w ≠ 0) w

def nonzero : Option (List K) → Nat
  | none => 0
  | some w => w.countP (· ≠ 0)

/-- `rl_mask[offset : offset + length].any()` for each length.  The tensor is `[1, seq]`: its rows are what is sliced. -/
def countSequences (rows : List (List Bool)) : Nat → List Nat → Nat
  | _, [] => 0
  | offset, n :: lengths =>
    (((rows.drop offset).take n).any (·.any id)).toNat + countSequences rows (offset + n) lengths

def rlTokens (m : MicroBatch K) : Nat := (rlMask m).countP id

def rlSequences (m : MicroBatch K) : Nat := countSequences [rlMask m] 0 m.sequenceLengths

def ceTokens (m : MicroBatch K) : Nat := nonzero m.ceWeights

def refKlTokens (m : MicroBatch K) : Nat := nonzero m.refKlWeights

structure Counts where
  rl : Nat
  ce : Nat
  refKl : Nat
  rlSequences : Nat
deriving DecidableEq

/-- `all_reduce` over the workers and the context-parallel ranks of each, which count the same micro-batches. -/
def allReduce (cp : Nat) (grid : List (List (MicroBatch K))) (count : MicroBatch K → Nat) : Nat :=
  (grid.flatMap fun batches => List.replicate cp (batches.map count).sum).sum

def globalScales (cp : Nat) (grid : List (List (MicroBatch K))) : Counts :=
  ⟨allReduce cp grid rlTokens, allReduce cp grid ceTokens, allReduce cp grid refKlTokens, allReduce cp grid rlSequences⟩

/-! ## The split -/

def split {α : Type} : List Nat → List α → List (List α)
  | [], _ => []
  | n :: lengths, l => l.take n :: split lengths (l.drop n)

/-- `t.squeeze().split(lengths)` of a tensor of one row: of one entry only, it is squeezed to a scalar. -/
def squeezeSplit {α : Type} (row : List α) (lengths : List Nat) : Except Error (List (List α)) := do
  raiseUnless (row.length ≠ 1) (.runtime "split expects at least a 1-dimensional tensor")
  raiseUnless (lengths.sum = row.length)
    (.runtime s!"split_with_sizes expects split_sizes to sum exactly to {row.length} (input tensor's size at dimension 0), but got split_sizes={lengths}")
  .ok (split lengths row)

/-- An absent stream is `None` for each sequence. -/
def splitStream (stream : Option (List K)) (lengths : List Nat) : Except Error (List (Option (List K))) :=
  match stream with
  | none => .ok (List.replicate lengths.length none)
  | some row => do
    let parts ← squeezeSplit row lengths
    .ok (parts.map some)

/-- The `zip` of `compute_loss`. -/
def zipSequences : List (List K) → List (List K) → List (Option (List K)) → List (List K) → List (List Bool) →
    List (Option (List K)) → List (Option (List K)) → List (Option (List K)) → List (SequenceTensors K)
  | t :: ts, i :: is, r :: rs, a :: as, m :: ms, rl :: rls, ce :: ces, kl :: kls =>
    ⟨t, i, r, a, m, rl, ce, kl⟩ :: zipSequences ts is rs as ms rls ces kls
  | _, _, _, _, _, _, _, _ => []

/-- What `compute_loss` is given for a micro-batch. -/
def sequenceTensors (m : MicroBatch K) (trainerLogprobs : List K) : Except Error (List (SequenceTensors K)) := do
  let trainer ← squeezeSplit trainerLogprobs m.sequenceLengths
  let inference ← squeezeSplit m.inferenceLogprobs m.sequenceLengths
  let ref ← splitStream m.refLogprobs m.sequenceLengths
  let advantages ← squeezeSplit m.advantages m.sequenceLengths
  let mask ← squeezeSplit m.lossMask m.sequenceLengths
  let rl ← splitStream m.rlWeights m.sequenceLengths
  let ce ← splitStream m.ceWeights m.sequenceLengths
  let refKl ← splitStream m.refKlWeights m.sequenceLengths
  .ok (zipSequences trainer inference ref advantages mask rl ce refKl)

def microBatchLoss (exp : K → K) (config : LossConfig K) (scales : Scales) (trainer : MicroBatch K → List K)
    (m : MicroBatch K) : Except Error K := do
  let sequences ← sequenceTensors m (trainer m)
  computeLoss exp (setupRlLossFn exp config) scales sequences

/-- `max(scale, 1)` of the counts of all ranks. -/
def lossScales (config : LossConfig K) (cp : Nat) (counts : Counts) : Except Error Scales := do
  let rl ← rlNormalizationScale config counts.rl counts.rlSequences cp
  .ok ⟨rl, max counts.ce 1, max counts.refKl 1⟩

/-- The losses of the micro-batches of all workers, with the log-probabilities of the trainer, added up. -/
def totalLoss (exp : K → K) (config : LossConfig K) (cp : Nat) (trainer : MicroBatch K → List K)
    (grid : List (List (MicroBatch K))) : Except Error K := do
  let scales ← lossScales config cp (globalScales cp grid)
  let losses ← grid.flatten.mapM (microBatchLoss exp config scales trainer)
  .ok losses.sum

/-! ## A micro-batch as one sequence -/

/-- The whole micro-batch as one sequence. -/
def wholeSequence (m : MicroBatch K) (trainer : List K) : SequenceTensors K :=
  ⟨trainer, m.inferenceLogprobs, m.refLogprobs, m.advantages, m.lossMask, m.rlWeights, m.ceWeights, m.refKlWeights⟩

section
omit [Field K] [LinearOrder K]

def SequenceTensors.take (n : Nat) (s : SequenceTensors K) : SequenceTensors K :=
  ⟨s.trainerLogprobs.take n, s.inferenceLogprobs.take n, s.refLogprobs.map (·.take n), s.advantages.take n,
    s.lossMask.take n, s.rlWeights.map (·.take n), s.ceWeights.map (·.take n), s.refKlWeights.map (·.take n)⟩

def SequenceTensors.drop (n : Nat) (s : SequenceTensors K) : SequenceTensors K :=
  ⟨s.trainerLogprobs.drop n, s.inferenceLogprobs.drop n, s.refLogprobs.map (·.drop n), s.advantages.drop n,
    s.lossMask.drop n, s.rlWeights.map (·.drop n), s.ceWeights.map (·.drop n), s.refKlWeights.map (·.drop n)⟩

def SequenceTensors.split : List Nat → SequenceTensors K → List (SequenceTensors K)
  | [], _ => []
  | n :: lengths, s => s.take n :: SequenceTensors.split lengths (s.drop n)

/-- The parts of a stream. -/
def streamParts (stream : Option (List K)) (lengths : List Nat) : List (Option (List K)) :=
  match stream with
  | none => List.replicate lengths.length none
  | some row => (Loss.split lengths row).map some

theorem streamParts_cons (stream : Option (List K)) (n : Nat) (lengths : List Nat) :
    streamParts stream (n :: lengths) = stream.map (·.take n) :: streamParts (stream.map (·.drop n)) lengths := by
  cases stream with
  | none => rfl
  | some row => rfl

theorem zipSequences_eq : ∀ (lengths : List Nat) (s : SequenceTensors K),
    zipSequences (Loss.split lengths s.trainerLogprobs) (Loss.split lengths s.inferenceLogprobs)
      (streamParts s.refLogprobs lengths) (Loss.split lengths s.advantages) (Loss.split lengths s.lossMask)
      (streamParts s.rlWeights lengths) (streamParts s.ceWeights lengths) (streamParts s.refKlWeights lengths) =
        s.split lengths
  | [], s => rfl
  | n :: lengths, s => by
    rw [streamParts_cons, streamParts_cons, streamParts_cons, streamParts_cons, SequenceTensors.split,
      ← zipSequences_eq lengths]
    rfl

theorem split_flatten {α : Type} : ∀ (lengths : List Nat) (l : List α), lengths.sum = l.length →
    (Loss.split lengths l).flatten = l
  | [], l, h => (List.eq_nil_of_length_eq_zero h.symm).symm
  | n :: lengths, l, h => by
    rw [List.sum_cons] at h
    rw [Loss.split, List.flatten_cons, split_flatten lengths (l.drop n) (by rw [List.length_drop]; omega),
      List.take_append_drop]

/-- **An aligned micro-batch of more than one token is split into sequences; of one token it is not.** -/
theorem sequenceTensors_eq {m : MicroBatch K} {trainer : List K} (h : Aligned m)
    (ht : trainer.length = m.inputIds.length) (hne : m.inputIds.length ≠ 1) :
    sequenceTensors m trainer = .ok ((wholeSequence m trainer).split m.sequenceLengths) := by
  have hsplit : ∀ {α : Type} {row : List α}, row.length = m.inputIds.length →
      squeezeSplit row m.sequenceLengths = .ok (Loss.split m.sequenceLengths row) := by
    intro α row hrow
    rw [squeezeSplit, raiseUnless_of _ (by rw [hrow]; exact hne), ok_bind,
      raiseUnless_of _ (by rw [hrow]; exact h.sequenceLengths), ok_bind]
  have hstream : ∀ {stream : Option (List K)}, (∀ l, stream = some l → l.length = m.inputIds.length) →
      splitStream stream m.sequenceLengths = .ok (streamParts stream m.sequenceLengths) := by
    intro stream hstream
    cases stream with
    | none => rfl
    | some row => rw [splitStream, hsplit (hstream row rfl), ok_bind]; rfl
  rw [sequenceTensors, hsplit ht, hsplit h.inferenceLogprobs, hstream h.refLogprobs, hsplit h.advantages,
    hsplit h.lossMask, hstream h.rlWeights, hstream h.ceWeights, hstream h.refKlWeights]
  exact congrArg Except.ok (zipSequences_eq m.sequenceLengths (wholeSequence m trainer))

theorem length_ne_one {m : MicroBatch K} {trainer : List K} {sequences : List (SequenceTensors K)}
    (ht : trainer.length = m.inputIds.length) (h : sequenceTensors m trainer = .ok sequences) :
    m.inputIds.length ≠ 1 := by
  obtain ⟨parts, hparts, -⟩ := bind_eq_ok.1 h
  obtain ⟨_, hne, -⟩ := bind_eq_ok.1 hparts
  exact ht ▸ raiseUnless_eq_ok.1 hne

/-! ## The tokens of the parts -/

theorem getD_take {f : Token K → K} {fill : K} {ts : List (Token K)} {stream : Option (List K)} (n : Nat)
    (h : stream.getD (List.replicate ts.length fill) = ts.map f) :
    (stream.map (·.take n)).getD (List.replicate (ts.take n).length fill) = (ts.take n).map f := by
  rw [List.map_take, ← h, List.length_take]
  cases stream with
  | none => exact (List.take_replicate ..).symm
  | some l => rfl

theorem getD_drop {f : Token K → K} {fill : K} {ts : List (Token K)} {stream : Option (List K)} (n : Nat)
    (h : stream.getD (List.replicate ts.length fill) = ts.map f) :
    (stream.map (·.drop n)).getD (List.replicate (ts.drop n).length fill) = (ts.drop n).map f := by
  rw [List.map_drop, ← h, List.length_drop]
  cases stream with
  | none => exact (List.drop_replicate ..).symm
  | some l => rfl

end

section
omit [LinearOrder K]

theorem Describes.length {s : SequenceTensors K} {ts : List (Token K)} (h : Describes s ts) :
    ts.length = s.trainerLogprobs.length := by
  rw [h.trainerLogprobs, List.length_map]

theorem Describes.take {s : SequenceTensors K} {ts : List (Token K)} (h : Describes s ts) (n : Nat) :
    Describes (s.take n) (ts.take n) where
  trainerLogprobs := by rw [List.map_take, ← h.trainerLogprobs]; rfl
  inferenceLogprobs := by rw [List.map_take, ← h.inferenceLogprobs]; rfl
  advantages := by rw [List.map_take, ← h.advantages]; rfl
  lossMask := by rw [List.map_take, ← h.lossMask]; rfl
  refLogprobs := getD_take n h.refLogprobs
  rlWeights := getD_take n h.rlWeights
  ceWeights := getD_take n h.ceWeights
  refKlWeights := getD_take n h.refKlWeights

theorem Describes.drop {s : SequenceTensors K} {ts : List (Token K)} (h : Describes s ts) (n : Nat) :
    Describes (s.drop n) (ts.drop n) where
  trainerLogprobs := by rw [List.map_drop, ← h.trainerLogprobs]; rfl
  inferenceLogprobs := by rw [List.map_drop, ← h.inferenceLogprobs]; rfl
  advantages := by rw [List.map_drop, ← h.advantages]; rfl
  lossMask := by rw [List.map_drop, ← h.lossMask]; rfl
  refLogprobs := getD_drop n h.refLogprobs
  rlWeights := getD_drop n h.rlWeights
  ceWeights := getD_drop n h.ceWeights
  refKlWeights := getD_drop n h.refKlWeights

/-- **The parts of a sequence are those of its tokens.** -/
theorem Describes.split : ∀ (lengths : List Nat) {s : SequenceTensors K} {ts : List (Token K)}, Describes s ts →
    List.Forall₂ Describes (s.split lengths) (Loss.split lengths ts)
  | [], _, _, _ => .nil
  | n :: lengths, _, _, h => .cons (h.take n) (Describes.split lengths (h.drop n))

/-- The parts have their references where the whole has. -/
theorem refReady_split : ∀ (lengths : List Nat) {s : SequenceTensors K} {ts : List (Token K)},
    List.Forall₂ RefReady (s.split lengths) (Loss.split lengths ts) ↔
      ((∃ t ∈ (Loss.split lengths ts).flatten, t.refKl ≠ 0) → s.refLogprobs.isSome)
  | [], s, ts => by simp [SequenceTensors.split, Loss.split]
  | n :: lengths, s, ts => by
    have ih : List.Forall₂ RefReady ((s.drop n).split lengths) (Loss.split lengths (ts.drop n)) ↔ _ :=
      refReady_split lengths
    have hdrop : (s.drop n).refLogprobs.isSome = s.refLogprobs.isSome := Option.isSome_map
    have htake : (s.take n).refLogprobs.isSome = s.refLogprobs.isSome := Option.isSome_map
    rw [SequenceTensors.split, Loss.split, List.forall₂_cons, ih, List.flatten_cons, RefReady, hdrop, htake]
    constructor
    · rintro ⟨hhead, htail⟩ ⟨t, ht, hne⟩
      rcases List.mem_append.1 ht with ht | ht
      · exact hhead ⟨t, ht, hne⟩
      · exact htail ⟨t, ht, hne⟩
    · intro h
      exact ⟨fun ⟨t, ht, hne⟩ => h ⟨t, List.mem_append_left _ ht, hne⟩,
        fun ⟨t, ht, hne⟩ => h ⟨t, List.mem_append_right _ ht, hne⟩⟩

end

/-! ## The loss of a micro-batch -/

section
variable {exp : K → K} {config : LossConfig K} {scales : Scales} {trainer : MicroBatch K → List K} {m : MicroBatch K}
  {ts : List (Token K)}

/-- **A micro-batch that can be split, of one sequence or more, with references where it needs them, has the loss of its
tokens.** -/
theorem microBatchLoss_eq (h : Aligned m) (ht : (trainer m).length = m.inputIds.length)
    (hts : Describes (wholeSequence m (trainer m)) ts) (hne : m.inputIds.length ≠ 1) (hseq : m.sequenceLengths ≠ [])
    (hr : (∃ t ∈ ts, t.refKl ≠ 0) → m.refLogprobs.isSome) :
    microBatchLoss exp config scales trainer m = .ok (tokensLoss exp config scales ts) := by
  have hlen : m.sequenceLengths.sum = ts.length := by
    rw [h.sequenceLengths, hts.length]
    exact ht.symm
  have hflat := split_flatten m.sequenceLengths ts hlen
  rw [microBatchLoss, sequenceTensors_eq h ht hne, ok_bind, computeLoss_eq ?_ (hts.split _) ?_, hflat]
  · obtain ⟨n, lengths, hcons⟩ := List.exists_cons_of_ne_nil hseq
    rw [hcons]
    exact List.cons_ne_nil _ _
  · rw [refReady_split, hflat]
    exact hr

/-- Any other micro-batch raises. -/
theorem of_microBatchLoss {k : K} (h : Aligned m) (ht : (trainer m).length = m.inputIds.length)
    (hts : Describes (wholeSequence m (trainer m)) ts) (hok : microBatchLoss exp config scales trainer m = .ok k) :
    m.inputIds.length ≠ 1 ∧ m.sequenceLengths ≠ [] ∧ ((∃ t ∈ ts, t.refKl ≠ 0) → m.refLogprobs.isSome) := by
  have hlen : m.sequenceLengths.sum = ts.length := by
    rw [h.sequenceLengths, hts.length]
    exact ht.symm
  obtain ⟨sequences, hs, hloss⟩ := bind_eq_ok.1 hok
  have hne := length_ne_one ht hs
  rw [sequenceTensors_eq h ht hne, Except.ok.injEq] at hs
  subst hs
  obtain ⟨hseq, hready⟩ := of_computeLoss (hts.split _) hloss
  rw [refReady_split, split_flatten m.sequenceLengths ts hlen] at hready
  refine ⟨hne, fun hnil => hseq ?_, hready⟩
  rw [hnil]
  rfl

end

end Loss
end Aether
