import AetherRl.BatchSample
import Mathlib.Algebra.Field.Defs
import Mathlib.Algebra.BigOperators.Group.List.Basic
import Mathlib.Order.Defs.LinearOrder
import Mathlib.Tactic.Ring
/-!
# Loss — the built-in loss functions and `compute_loss`

`trainer/rl/loss.py` over an exact field of numbers; `exp` is a parameter.  Metrics are left out: no loss reads them.  A
micro-batch's loss is a sum over its tokens, of terms that are zero where a token is no member of the component.
-/
namespace Aether
namespace Loss

open Checked Batch

variable {K : Type} [Field K] [LinearOrder K]

/-! ## Inputs and configurations -/

structure LossInputs (K : Type) where
  trainerLogprobs : List K
  inferenceLogprobs : List K
  refLogprobs : Option (List K)
  advantages : List K
  lossMask : List Bool
  lossWeights : Option (List K)

/-- `rl_normalization`, with the tokens that `dr_grpo` requires. -/
inductive RlNormalization
  | activeTokens
  | drGrpo (maxCompletionTokens : Nat)

structure DefaultLossConfig (K : Type) where
  dppoMaskLow : K
  dppoMaskHigh : K
  advTau : K
  klTau : K
  rlNormalization : RlNormalization

structure IPOLossConfig (K : Type) where
  ipoThreshold : K
  advTau : K
  klTau : K

/-- The built-in losses of the rl component. -/
inductive LossConfig (K : Type)
  | default (config : DefaultLossConfig K)
  | ipo (config : IPOLossConfig K)

/-! ## The loss functions -/

def indicator (b : Bool) : K := if b then 1 else 0

/-- One token of `default_loss_fn`. -/
def defaultTokenLoss (exp : K → K) (config : DefaultLossConfig K) (mask : Bool) (advantage trainer inference : K) : K :=
  let logImportanceRatio := trainer - inference
  let importanceRatio := exp logImportanceRatio
  let probsDiff := exp trainer - exp inference
  let isMasked := if 0 < advantage then decide (config.dppoMaskHigh < probsDiff)
    else decide (probsDiff < -config.dppoMaskLow)
  let pgLoss := indicator (mask && !isMasked) * (config.advTau * advantage) * importanceRatio
  let klLoss := indicator mask * logImportanceRatio ^ 2
  let perTokenLoss := -pgLoss + config.klTau * klLoss
  perTokenLoss

/-- One token of `ipo_loss_fn`. -/
def ipoTokenLoss (exp : K → K) (config : IPOLossConfig K) (mask : Bool) (advantage trainer inference : K) : K :=
  let logImportanceRatio := trainer - inference
  let importanceRatio := exp logImportanceRatio
  let absProbsDiff := max (exp trainer - exp inference) (-(exp trainer - exp inference))
  let isMasked := decide (config.ipoThreshold < absProbsDiff)
  let pgLoss := indicator (mask && !isMasked) * (config.advTau * advantage) * importanceRatio
  let klLoss := indicator mask * logImportanceRatio ^ 2
  let perTokenLoss := -pgLoss + config.klTau * klLoss
  perTokenLoss

/-- One token of `ref_kl_loss_fn`. -/
def refKlTokenLoss (exp : K → K) (mask : Bool) (ref trainer inference : K) : K :=
  let logImportanceRatio := trainer - inference
  let importanceRatio := exp logImportanceRatio
  let probsDiff := exp trainer - exp inference
  let isMasked := decide (probsDiff < -(1 / 5))
  let pgLoss := indicator (mask && !isMasked) * (ref - trainer) * importanceRatio
  let klLoss := indicator mask * logImportanceRatio ^ 2
  let perTokenLoss := -pgLoss + 1 / 1000 * klLoss
  perTokenLoss

def weighted : Option (List K) → List K → List K
  | none, l => l
  | some w, l => l.zipWith (· * ·) w

/-- Mask, advantage, trainer and inference log-probability, token by token. -/
def LossInputs.tokens (inputs : LossInputs K) : List (Bool × K × K × K) :=
  inputs.lossMask.zip (inputs.advantages.zip (inputs.trainerLogprobs.zip inputs.inferenceLogprobs))

/-- `default_loss_fn` and `ipo_loss_fn`: the sum of the tokens' losses. -/
def tokenLossFn (f : Bool → K → K → K → K) (inputs : LossInputs K) : Except Error K :=
  .ok (weighted inputs.lossWeights (inputs.tokens.map fun (m, a, t, i) => f m a t i)).sum

def LossConfig.tokenLoss (exp : K → K) : LossConfig K → Bool → K → K → K → K
  | .default config => defaultTokenLoss exp config
  | .ipo config => ipoTokenLoss exp config

def setupRlLossFn (exp : K → K) (config : LossConfig K) : LossInputs K → Except Error K :=
  tokenLossFn (config.tokenLoss exp)

def refKlLossFn (exp : K → K) (inputs : LossInputs K) : Except Error K :=
  match inputs.refLogprobs with
  | none => .error (.value "ref_kl loss type requires ref_logprobs — use the 'opd' or 'opsd' algorithm.")
  | some ref => .ok (weighted inputs.lossWeights ((inputs.tokens.zip ref).map fun ((m, _, t, i), r) =>
      refKlTokenLoss exp m r t i)).sum

def ceLossFn (inputs : LossInputs K) : Except Error K :=
  let nll := weighted inputs.lossWeights (inputs.trainerLogprobs.map (-·))
  .ok (((nll.zip inputs.lossMask).filter (·.2)).map (·.1)).sum

def rlNormalizationScale (config : LossConfig K) (activeTokens sequences cpSize : Nat) : Except Error Nat :=
  match config with
  | .default ⟨_, _, _, _, .drGrpo maxCompletionTokens⟩ =>
    if cpSize < 1 ∨ sequences % cpSize ≠ 0 then
      .error (.value "global Dr. GRPO sequence count must be divisible by context parallelism")
    else .ok (max (sequences * maxCompletionTokens) 1)
  | _ => .ok (max activeTokens 1)

/-! ## compute_loss -/

/-- One sequence of a micro-batch: what the zip of `compute_loss` gives for it. -/
structure SequenceTensors (K : Type) where
  trainerLogprobs : List K
  inferenceLogprobs : List K
  refLogprobs : Option (List K)
  advantages : List K
  lossMask : List Bool
  rlWeights : Option (List K)
  ceWeights : Option (List K)
  refKlWeights : Option (List K)

def SequenceTensors.makeInputs (s : SequenceTensors K) (componentMask : List Bool) (weights : Option (List K)) :
    LossInputs K :=
  ⟨s.trainerLogprobs, s.inferenceLogprobs, s.refLogprobs, s.advantages, componentMask, weights⟩

def rlPart (rlLossFn : LossInputs K → Except Error K) (s : SequenceTensors K) : Except Error K :=
  match s.rlWeights with
  | none => rlLossFn (s.makeInputs s.lossMask none)
  | some w =>
    let rlMask := s.lossMask.zipWith (fun m w => m && w ≠ 0) w
    if rlMask.any id then rlLossFn (s.makeInputs rlMask (some w)) else .ok 0

/-- The ce and the ref_kl component: on the tokens of a weight other than zero. -/
def weightedPart (lossFn : LossInputs K → Except Error K) (weights : Option (List K)) (s : SequenceTensors K) :
    Except Error K :=
  match weights with
  | none => .ok 0
  | some w =>
    let mask := w.map fun w => decide (w ≠ 0)
    if mask.any id then lossFn (s.makeInputs mask (some w)) else .ok 0

structure Losses (K : Type) where
  rl : K
  ce : K
  refKl : K

def addSequence (exp : K → K) (rlLossFn : LossInputs K → Except Error K) (acc : Losses K) (s : SequenceTensors K) :
    Except Error (Losses K) := do
  let rl ← rlPart rlLossFn s
  let ce ← weightedPart ceLossFn s.ceWeights s
  let refKl ← weightedPart (refKlLossFn exp) s.refKlWeights s
  .ok ⟨acc.rl + rl, acc.ce + ce, acc.refKl + refKl⟩

def addSequences (exp : K → K) (rlLossFn : LossInputs K → Except Error K) :
    Losses K → List (SequenceTensors K) → Except Error (Losses K)
  | acc, [] => .ok acc
  | acc, s :: sequences => do
    let acc ← addSequence exp rlLossFn acc s
    addSequences exp rlLossFn acc sequences

structure Scales where
  rl : Nat
  ce : Nat
  refKl : Nat

def Losses.scaled (l : Losses K) (s : Scales) : K := l.rl / s.rl + l.ce / s.ce + l.refKl / s.refKl

def computeLoss (exp : K → K) (rlLossFn : LossInputs K → Except Error K) (scales : Scales)
    (sequences : List (SequenceTensors K)) : Except Error K :=
  match sequences with
  -- `trainer_logprobs[0]`
  | [] => .error .index
  | first :: _ => do
    let losses ← addSequences exp rlLossFn ⟨first.trainerLogprobs.sum * 0, 0, 0⟩ sequences
    .ok (losses.scaled scales)

/-! ## Tokens -/

/-- A token as the loss reads it: a stream that is absent gives every token its fill. -/
structure Token (K : Type) where
  mask : Bool
  advantage : K
  trainer : K
  inference : K
  ref : K
  rl : K
  ce : K
  refKl : K

/-- The arrays of a sequence are those of the tokens. -/
structure Describes (s : SequenceTensors K) (ts : List (Token K)) : Prop where
  trainerLogprobs : s.trainerLogprobs = ts.map (·.trainer)
  inferenceLogprobs : s.inferenceLogprobs = ts.map (·.inference)
  advantages : s.advantages = ts.map (·.advantage)
  lossMask : s.lossMask = ts.map (·.mask)
  refLogprobs : s.refLogprobs.getD (List.replicate ts.length 0) = ts.map (·.ref)
  rlWeights : s.rlWeights.getD (List.replicate ts.length 1) = ts.map (·.rl)
  ceWeights : s.ceWeights.getD (List.replicate ts.length 0) = ts.map (·.ce)
  refKlWeights : s.refKlWeights.getD (List.replicate ts.length 0) = ts.map (·.refKl)

def Token.rlTerm (f : Bool → K → K → K → K) (t : Token K) : K := f t.mask t.advantage t.trainer t.inference * t.rl

def Token.ceTerm (t : Token K) : K := -t.trainer * t.ce

def Token.refKlTerm (exp : K → K) (t : Token K) : K :=
  refKlTokenLoss exp true t.ref t.trainer t.inference * t.refKl

/-- A token out of the mask has no loss. -/
theorem tokenLoss_false (exp : K → K) (config : LossConfig K) (a t i : K) : config.tokenLoss exp false a t i = 0 := by
  cases config with
  | default config => simp [LossConfig.tokenLoss, defaultTokenLoss, indicator]
  | ipo config => simp [LossConfig.tokenLoss, ipoTokenLoss, indicator]

/-- An absent stream is its fill. -/
theorem eq_fill {α β : Type} {f : α → β} {fill : β} {ts : List α} (h : List.replicate ts.length fill = ts.map f) :
    ∀ t ∈ ts, f t = fill := by
  intro t ht
  have hmem : f t ∈ List.replicate ts.length fill := h ▸ List.mem_map_of_mem ht
  exact List.eq_of_mem_replicate hmem

section
omit [LinearOrder K]

theorem sum_map_zero {α : Type} {f : α → K} {ts : List α} (h : ∀ t ∈ ts, f t = 0) : (ts.map f).sum = 0 := by
  induction ts with
  | nil => rfl
  | cons t ts ih =>
    rw [List.map_cons, List.sum_cons, h t List.mem_cons_self, ih fun u hu => h u (List.mem_cons_of_mem t hu), add_zero]

theorem weighted_map {α : Type} (f w : α → K) (ts : List α) :
    weighted (some (ts.map w)) (ts.map f) = ts.map fun t => f t * w t := by
  rw [weighted, List.zipWith_map, List.zipWith_self]

/-- The tokens of a component's inputs, from the tokens of the sequence. -/
theorem Describes.tokens {s : SequenceTensors K} {ts : List (Token K)} (h : Describes s ts) (mask : Token K → Bool)
    (weights : Option (List K)) : (s.makeInputs (ts.map mask) weights).tokens =
      ts.map fun t => (mask t, t.advantage, t.trainer, t.inference) := by
  simp only [LossInputs.tokens, SequenceTensors.makeInputs, h.advantages, h.trainerLogprobs, h.inferenceLogprobs,
    List.zip_map']

theorem tokenLossFn_eq {s : SequenceTensors K} {ts : List (Token K)} (h : Describes s ts) (f : Bool → K → K → K → K)
    (mask : Token K → Bool) (w : Token K → K) : tokenLossFn f (s.makeInputs (ts.map mask) (some (ts.map w))) =
      .ok (ts.map fun t => f (mask t) t.advantage t.trainer t.inference * w t).sum := by
  rw [tokenLossFn, h.tokens, List.map_map, SequenceTensors.makeInputs, weighted_map]
  rfl

theorem ceLossFn_eq {s : SequenceTensors K} {ts : List (Token K)} (h : Describes s ts) {mask : Token K → Bool}
    {w : Token K → K} (hm : ∀ t ∈ ts, mask t = false → w t = 0) :
    ceLossFn (s.makeInputs (ts.map mask) (some (ts.map w))) = .ok (ts.map fun t => -t.trainer * w t).sum := by
  have hnll : weighted (some (ts.map w)) (s.trainerLogprobs.map (-·)) = ts.map fun t => -t.trainer * w t := by
    rw [h.trainerLogprobs, List.map_map, weighted_map]
    rfl
  simp only [ceLossFn, SequenceTensors.makeInputs, hnll, List.zip_map', Except.ok.injEq]
  clear hnll h
  induction ts with
  | nil => rfl
  | cons t ts ih =>
    have ih := ih fun u hu => hm u (List.mem_cons_of_mem t hu)
    rw [List.map_cons, List.map_cons, List.sum_cons, ← ih]
    cases ht : mask t with
    | true => rw [List.filter_cons_of_pos rfl, List.map_cons, List.sum_cons]
    | false =>
      rw [List.filter_cons_of_neg Bool.false_ne_true, hm t List.mem_cons_self ht, mul_zero, zero_add]

end

theorem refKlLossFn_eq {s : SequenceTensors K} {ts : List (Token K)} (h : Describes s ts) (exp : K → K)
    (hr : s.refLogprobs.isSome) (mask : Token K → Bool) (w : Token K → K) :
    refKlLossFn exp (s.makeInputs (ts.map mask) (some (ts.map w))) =
      .ok (ts.map fun t => refKlTokenLoss exp (mask t) t.ref t.trainer t.inference * w t).sum := by
  have href := h.refLogprobs
  obtain ⟨ref, hsome⟩ := Option.isSome_iff_exists.1 hr
  rw [hsome, Option.getD_some] at href
  subst href
  have htokens := h.tokens mask (some (ts.map w))
  simp only [SequenceTensors.makeInputs, hsome] at htokens
  simp only [refKlLossFn, SequenceTensors.makeInputs, hsome, htokens, List.zip_map', List.map_map]
  rw [← weighted_map]
  rfl

/-! ## The components of a sequence -/

/-- **The rl component of a sequence is the sum of its tokens' terms.** -/
theorem rlPart_eq {s : SequenceTensors K} {ts : List (Token K)} (h : Describes s ts) {f : Bool → K → K → K → K}
    (hf : ∀ a t i, f false a t i = 0) : rlPart (tokenLossFn f) s = .ok (ts.map (Token.rlTerm f)).sum := by
  have hw := h.rlWeights
  unfold rlPart
  cases hs : s.rlWeights with
  | none =>
    rw [hs, Option.getD_none] at hw
    have hone := eq_fill hw
    dsimp only
    rw [tokenLossFn, h.lossMask, h.tokens, SequenceTensors.makeInputs, weighted, List.map_map]
    congr 2
    refine List.map_congr_left fun t ht => ?_
    rw [Function.comp_apply, Token.rlTerm, hone t ht, mul_one]
  | some w =>
    rw [hs, Option.getD_some] at hw
    subst hw
    have hmask : s.lossMask.zipWith (fun m w => m && decide (w ≠ 0)) (ts.map (·.rl)) =
        ts.map fun t => t.mask && decide (t.rl ≠ 0) := by
      rw [h.lossMask, List.zipWith_map, List.zipWith_self]
    have hterm : ∀ t : Token K, f (t.mask && decide (t.rl ≠ 0)) t.advantage t.trainer t.inference * t.rl =
        t.rlTerm f := by
      intro t
      by_cases ht : t.rl = 0
      · rw [Token.rlTerm, ht, mul_zero, mul_zero]
      · rw [decide_eq_true ht, Bool.and_true, Token.rlTerm]
    dsimp only
    rw [hmask]
    split
    · rw [tokenLossFn_eq h, List.map_congr_left fun t _ => hterm t]
    · rename_i hany
      rw [List.any_map, List.any_eq_true, not_exists] at hany
      rw [sum_map_zero fun t ht => ?_]
      have hfalse : (t.mask && decide (t.rl ≠ 0)) = false := by
        by_contra hne
        exact hany t ⟨ht, by simpa using hne⟩
      rw [← hterm, hfalse, hf, zero_mul]

/-- A component on the tokens of a weight other than zero. -/
theorem weightedPart_eq {s : SequenceTensors K} {ts : List (Token K)} {weights : Option (List K)}
    {w g : Token K → K} {lossFn : LossInputs K → Except Error K}
    (hw : weights.getD (List.replicate ts.length 0) = ts.map w) (hg : ∀ t ∈ ts, w t = 0 → g t = 0)
    (hfn : (∃ t ∈ ts, w t ≠ 0) →
      lossFn (s.makeInputs (ts.map fun t => decide (w t ≠ 0)) (some (ts.map w))) = .ok (ts.map g).sum) :
    weightedPart lossFn weights s = .ok (ts.map g).sum := by
  unfold weightedPart
  cases weights with
  | none =>
    have hzero := eq_fill hw
    rw [sum_map_zero fun t ht => hg t ht (hzero t ht)]
  | some l =>
    rw [Option.getD_some] at hw
    subst hw
    dsimp only
    rw [List.map_map]
    split
    · rename_i hany
      obtain ⟨_, hmem, htrue⟩ := List.any_eq_true.1 hany
      obtain ⟨t, ht, rfl⟩ := List.mem_map.1 hmem
      exact hfn ⟨t, ht, by simpa using htrue⟩
    · rename_i hany
      rw [List.any_map, List.any_eq_true, not_exists] at hany
      rw [sum_map_zero fun t ht => hg t ht ?_]
      by_contra hne
      exact hany t ⟨ht, by simpa using hne⟩

/-- **The ce component of a sequence is the sum of its tokens' terms.** -/
theorem cePart_eq {s : SequenceTensors K} {ts : List (Token K)} (h : Describes s ts) :
    weightedPart ceLossFn s.ceWeights s = .ok (ts.map Token.ceTerm).sum := by
  refine weightedPart_eq h.ceWeights (fun t _ ht => ?_) fun _ => ceLossFn_eq h fun t _ ht => ?_
  · rw [Token.ceTerm, ht, mul_zero]
  · simpa using ht

/-- A sequence with a member of the ref_kl component carries reference log-probabilities. -/
def RefReady (s : SequenceTensors K) (ts : List (Token K)) : Prop :=
  (∃ t ∈ ts, t.refKl ≠ 0) → s.refLogprobs.isSome

/-- **The ref_kl component of a sequence is the sum of its tokens' terms, where it has the reference.** -/
theorem refKlPart_eq {s : SequenceTensors K} {ts : List (Token K)} (h : Describes s ts) (exp : K → K)
    (hr : RefReady s ts) : weightedPart (refKlLossFn exp) s.refKlWeights s = .ok (ts.map (Token.refKlTerm exp)).sum := by
  refine weightedPart_eq h.refKlWeights (fun t _ ht => ?_) fun hne => ?_
  · rw [Token.refKlTerm, ht, mul_zero]
  · rw [refKlLossFn_eq h exp (hr hne)]
    congr 2
    refine List.map_congr_left fun t _ => ?_
    by_cases ht : t.refKl = 0
    · rw [Token.refKlTerm, ht, mul_zero, mul_zero]
    · rw [Token.refKlTerm, decide_eq_true ht]

/-- Without the reference the ref_kl component raises. -/
theorem refReady_of_ok {s : SequenceTensors K} {ts : List (Token K)} (h : Describes s ts) {exp : K → K} {k : K}
    (hok : weightedPart (refKlLossFn exp) s.refKlWeights s = .ok k) : RefReady s ts := by
  rintro ⟨t, ht, hne⟩
  have hw := h.refKlWeights
  cases hs : s.refKlWeights with
  | none =>
    rw [hs, Option.getD_none] at hw
    exact absurd (eq_fill hw t ht) hne
  | some w =>
    rw [hs, Option.getD_some] at hw
    subst hw
    rw [hs, weightedPart] at hok
    rw [if_pos (List.any_eq_true.2 ⟨true, List.mem_map.2 ⟨t.refKl, List.mem_map_of_mem ht, decide_eq_true hne⟩, rfl⟩)]
      at hok
    cases href : s.refLogprobs with
    | none =>
      rw [refKlLossFn, SequenceTensors.makeInputs, href] at hok
      cases hok
    | some ref => rfl

/-! ## A micro-batch -/

theorem addSequences_eq {exp : K → K} {f : Bool → K → K → K → K} (hf : ∀ a t i, f false a t i = 0) :
    ∀ {sequences : List (SequenceTensors K)} {tss : List (List (Token K))} (acc : Losses K),
      List.Forall₂ Describes sequences tss → List.Forall₂ RefReady sequences tss →
      addSequences exp (tokenLossFn f) acc sequences = .ok ⟨acc.rl + (tss.flatten.map (Token.rlTerm f)).sum,
        acc.ce + (tss.flatten.map Token.ceTerm).sum, acc.refKl + (tss.flatten.map (Token.refKlTerm exp)).sum⟩
  | _, _, acc, .nil, _ => by simp [addSequences]
  | _, _, acc, .cons h hs, .cons hr hrs => by
    rw [addSequences, addSequence, rlPart_eq h hf, cePart_eq h, refKlPart_eq h exp hr]
    simp only [ok_bind, addSequences_eq hf _ hs hrs, List.flatten_cons, List.map_append, List.sum_append, add_assoc]

theorem refReady_of_addSequences {exp : K → K} {f : Bool → K → K → K → K} : ∀ {sequences : List (SequenceTensors K)}
    {tss : List (List (Token K))} {acc losses : Losses K}, List.Forall₂ Describes sequences tss →
      addSequences exp (tokenLossFn f) acc sequences = .ok losses → List.Forall₂ RefReady sequences tss
  | _, _, acc, losses, .nil, _ => .nil
  | _, _, acc, losses, .cons h hs, hok => by
    simp only [addSequences, addSequence, bind_eq_ok] at hok
    obtain ⟨_, ⟨_, -, _, -, _, hkl, -⟩, hok⟩ := hok
    exact .cons (refReady_of_ok h hkl) (refReady_of_addSequences hs hok)

/-- The loss of tokens, each component divided by its scale. -/
def tokensLoss (exp : K → K) (config : LossConfig K) (scales : Scales) (ts : List (Token K)) : K :=
  (Losses.mk (ts.map (Token.rlTerm (config.tokenLoss exp))).sum (ts.map Token.ceTerm).sum
    (ts.map (Token.refKlTerm exp)).sum).scaled scales

/-- **The loss of a micro-batch is that of its tokens.** -/
theorem computeLoss_eq {exp : K → K} {config : LossConfig K} {scales : Scales} {sequences : List (SequenceTensors K)}
    {tss : List (List (Token K))} (hne : sequences ≠ []) (hs : List.Forall₂ Describes sequences tss)
    (hr : List.Forall₂ RefReady sequences tss) :
    computeLoss exp (setupRlLossFn exp config) scales sequences = .ok (tokensLoss exp config scales tss.flatten) := by
  obtain ⟨first, rest, rfl⟩ := List.exists_cons_of_ne_nil hne
  rw [computeLoss, setupRlLossFn, addSequences_eq (tokenLoss_false exp config) _ hs hr, ok_bind, mul_zero, zero_add,
    zero_add, zero_add]
  rfl

/-- It is computed only where there is a sequence, and the references there have to be. -/
theorem of_computeLoss {exp : K → K} {config : LossConfig K} {scales : Scales} {sequences : List (SequenceTensors K)}
    {tss : List (List (Token K))} {k : K} (hs : List.Forall₂ Describes sequences tss)
    (h : computeLoss exp (setupRlLossFn exp config) scales sequences = .ok k) :
    sequences ≠ [] ∧ List.Forall₂ RefReady sequences tss := by
  unfold computeLoss at h
  split at h
  · cases h
  · obtain ⟨losses, hl, -⟩ := bind_eq_ok.1 h
    exact ⟨List.cons_ne_nil _ _, refReady_of_addSequences hs hl⟩

theorem tokensLoss_append (exp : K → K) (config : LossConfig K) (scales : Scales) (ts us : List (Token K)) :
    tokensLoss exp config scales (ts ++ us) = tokensLoss exp config scales ts + tokensLoss exp config scales us := by
  simp only [tokensLoss, Losses.scaled, List.map_append, List.sum_append, add_div]
  ring

end Loss
end Aether
