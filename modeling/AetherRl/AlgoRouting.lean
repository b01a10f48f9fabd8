import AetherRl.BatchImages
import AetherRl.BatchStamp
import Mathlib.Algebra.Field.Rat
/-!
# AlgoRouting — stamping a sample's streams (`orchestrator/algo/routing.py`)

The loss is a sum of three components, each with a weight for every token.  A stream that is absent stands for its default:
weight `1` on the loss mask for `rl`, and nothing for `ce` and `ref_kl`.
-/
namespace Aether
namespace Algo

open Batch Checked

/-- The stream over the samples' tokens, sliced sample by sample. -/
def sliceAdvantages : List ℚ → List (TrainingSample ℚ) → List (TrainingSample ℚ)
  | _, [] => []
  | advantages, s :: ss =>
    { s with advantages := some (advantages.take s.tokenIds.length) } ::
      sliceAdvantages (advantages.drop s.tokenIds.length) ss

/-! ## What feeds what -/

/-- The weight with which each token of a sample feeds a component of the loss. -/
def feeds (s : TrainingSample ℚ) : ActionLossType → List ℚ
  | .rl => List.zipWith (fun trains w => if trains then w else 0) s.mask
      (s.rlWeights.getD (List.replicate s.tokenIds.length 1))
  | .ce => s.ceWeights.getD (List.replicate s.tokenIds.length 0)
  | .refKl => s.refKlWeights.getD (List.replicate s.tokenIds.length 0)

/-- The weights of a component when action tokens feed `c` alone, and observed tokens `ce` alone. -/
def share (c : ActionLossType) (mask : List Bool) (observed : List ℚ) (component : ActionLossType) : List ℚ :=
  List.zipWith (fun trains o => if trains then (if component = c then 1 else 0) else if component = .ce then o else 0)
    mask observed

/-- Weights of tokens that are not trained. -/
def OffMask (mask : List Bool) (observed : List ℚ) : Prop :=
  List.Forall₂ (fun trains o => trains = true → o = 0) mask observed

/-- A sample on which nothing is written but the weights of its observed tokens. -/
structure Unrouted (s : TrainingSample ℚ) (observed : List ℚ) : Prop where
  rlWeights : s.rlWeights = none
  refKlWeights : s.refKlWeights = none
  ceWeights : s.ceWeights.getD (List.replicate s.tokenIds.length 0) = observed
  mask_length : s.mask.length = s.tokenIds.length
  offMask : OffMask s.mask observed

theorem Unrouted.length {s : TrainingSample ℚ} {observed : List ℚ} (h : Unrouted s observed) :
    observed.length = s.tokenIds.length := h.offMask.length_eq.symm.trans h.mask_length

theorem length_share {mask : List Bool} {observed : List ℚ} (h : observed.length = mask.length)
    (c component : ActionLossType) : (share c mask observed component).length = mask.length := by
  rw [share, List.length_zipWith, h, min_self]

/-- Nothing but the actions feeds a component that starts at zero. -/
theorem weightActions_zeros {component c : ActionLossType} (hc : component = c) (hce : component ≠ .ce) :
    ∀ {mask : List Bool} {observed : List ℚ} {n : Nat}, mask.length = n → observed.length = n →
      weightActions mask (List.replicate n (0 : ℚ)) = .ok (share c mask observed component)
  | [], [], _, rfl, _ => rfl
  | t :: ts, o :: os, _, rfl, ho => by
    have ih := @weightActions_zeros component c hc hce ts os ts.length rfl (Nat.succ.inj ho)
    rw [List.length_cons, List.replicate_succ, weightActions, ih, ok_bind, share, share, List.zipWith_cons_cons,
      if_pos hc, if_neg hce]

/-- The actions join the observed tokens, which they are apart from. -/
theorem weightActions_observed : ∀ {mask : List Bool} {observed : List ℚ}, OffMask mask observed →
    weightActions mask observed = .ok (share .ce mask observed .ce)
  | [], [], _ => rfl
  | t :: ts, o :: os, h => by
    have ih := weightActions_observed (List.forall₂_cons.1 h).2
    rw [weightActions, ih, ok_bind, share, share, List.zipWith_cons_cons, if_pos rfl, if_pos rfl]

theorem share_zeros {component c : ActionLossType} (hc : component ≠ c) (hce : component ≠ .ce) :
    ∀ {mask : List Bool} {observed : List ℚ} {n : Nat}, mask.length = n → observed.length = n →
      List.replicate n 0 = share c mask observed component
  | [], [], _, rfl, _ => rfl
  | t :: ts, o :: os, _, rfl, ho => by
    have ih := @share_zeros component c hc hce ts os ts.length rfl (Nat.succ.inj ho)
    rw [List.length_cons, List.replicate_succ, ih, share, share, List.zipWith_cons_cons, if_neg hc, if_neg hce, ite_self]

theorem share_observed {c : ActionLossType} (hc : ActionLossType.ce ≠ c) : ∀ {mask : List Bool} {observed : List ℚ},
    OffMask mask observed → observed = share c mask observed .ce
  | [], [], _ => rfl
  | t :: ts, o :: os, h => by
    obtain ⟨ho, h⟩ := List.forall₂_cons.1 h
    have ih := share_observed hc h
    rw [share] at ih
    rw [share, List.zipWith_cons_cons, ← ih, if_neg hc, if_pos rfl]
    cases t with
    | false => rfl
    | true => rw [ho rfl, if_pos rfl]

/-- On the loss mask, a weight for every token is a weight for the actions. -/
theorem masked_replicate (w : ℚ) {component c : ActionLossType} (hw : w = if component = c then 1 else 0)
    (hce : component ≠ .ce) : ∀ {mask : List Bool} {observed : List ℚ} {n : Nat}, mask.length = n → observed.length = n →
      List.zipWith (fun trains w => if trains then w else 0) mask (List.replicate n w) = share c mask observed component
  | [], [], _, rfl, _ => rfl
  | t :: ts, o :: os, _, rfl, ho => by
    have ih := @masked_replicate w component c hw hce ts os ts.length rfl (Nat.succ.inj ho)
    rw [List.length_cons, List.replicate_succ, List.zipWith_cons_cons, ih, share, share, List.zipWith_cons_cons,
      if_neg hce, hw]

/-- A sample with the streams that the routing of its actions writes. -/
def routedStreams (s : TrainingSample ℚ) (c : ActionLossType) (observed : List ℚ) : TrainingSample ℚ :=
  let zeros := List.replicate s.tokenIds.length 0
  match c with
  | .rl => s
  | .ce => { s with rlWeights := some zeros, ceWeights := some (share .ce s.mask observed .ce) }
  | .refKl => { s with rlWeights := some zeros, refKlWeights := some (share .refKl s.mask observed .refKl) }

/-- **Stamping writes these streams**: the mask is as long as the tokens, so no weight is out of range. -/
theorem stampLossRouting_routed {s : TrainingSample ℚ} {observed : List ℚ} (h : Unrouted s observed)
    (c : ActionLossType) : stampLossRouting s c = .ok (routedStreams s c observed) := by
  cases c with
  | rl => rfl
  | ce => rw [stampLossRouting, h.ceWeights, weightActions_observed h.offMask, ok_bind, routedStreams]
  | refKl =>
    have hmarked := weightActions_zeros (rfl : ActionLossType.refKl = .refKl) (by decide) h.mask_length h.length
    rw [stampLossRouting, hmarked, ok_bind, routedStreams]

/-- **The components share the tokens**: after stamping, action tokens feed the algorithm's component with weight one and
no other, and observed tokens feed `ce` with their own weight and no other. -/
theorem routedStreams_share {s : TrainingSample ℚ} {observed : List ℚ} (h : Unrouted s observed)
    (c component : ActionLossType) : feeds (routedStreams s c observed) component = share c s.mask observed component := by
  have hmask := h.mask_length
  have hobserved := h.length
  cases c with
  | rl =>
    cases component with
    | rl =>
      rw [routedStreams, feeds, h.rlWeights]
      exact masked_replicate 1 rfl (by decide) hmask hobserved
    | ce =>
      rw [routedStreams, feeds, h.ceWeights]
      exact share_observed (by decide) h.offMask
    | refKl =>
      rw [routedStreams, feeds, h.refKlWeights]
      exact share_zeros (by decide) (by decide) hmask hobserved
  | ce =>
    cases component with
    | rl => exact masked_replicate 0 rfl (by decide) hmask hobserved
    | ce => rfl
    | refKl =>
      have hnone : feeds (routedStreams s .ce observed) .refKl = List.replicate s.tokenIds.length 0 := by
        rw [feeds, routedStreams, h.refKlWeights]
        rfl
      rw [hnone]
      exact share_zeros (by decide) (by decide) hmask hobserved
  | refKl =>
    cases component with
    | rl => exact masked_replicate 0 rfl (by decide) hmask hobserved
    | ce =>
      have hce : feeds (routedStreams s .refKl observed) .ce = observed := h.ceWeights
      rw [hce]
      exact share_observed (by decide) h.offMask
    | refKl => rfl

end Algo
end Aether
