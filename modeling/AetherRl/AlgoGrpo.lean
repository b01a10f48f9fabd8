import AetherRl.BatchSample
import Mathlib.Algebra.BigOperators.Group.List.Basic
import Mathlib.Algebra.Order.Field.Basic
import Mathlib.Data.Rat.Lemmas
import Mathlib.Tactic.Linarith
import Mathlib.Tactic.Positivity
import Mathlib.Tactic.Ring
/-!
# AlgoGrpo — the advantages of `orchestrator/algo/grpo.py`

A group's rewards are shaped by the lengths of its rollouts and then centred on their mean, over exact rationals.  The
penalties carry the bounds of `configs/algorithm.py`.
-/
namespace Aether
namespace Algo

open Checked

/-- A float of a trace's metrics. -/
inductive Metric
  | finite (value : ℚ)
  | notFinite
deriving DecidableEq

/-- What `score_group` reads of a rollout. -/
structure Graded where
  reward : ℚ
  numOutputTokens : Int
  numTotalTokens : Int
  numTurns : Int
  metrics : List (String × Metric)
deriving DecidableEq

structure LinearLengthPenalty where
  numOutputTokensWeight : ℚ
  numInputTokensWeight : ℚ
  numTurnsWeight : ℚ
  output_nonneg : 0 ≤ numOutputTokensWeight
  input_nonneg : 0 ≤ numInputTokensWeight
  turns_nonneg : 0 ≤ numTurnsWeight

structure ShortestCorrectLengthPenalty where
  thinkingLengthMetric : String
  penalty : ℚ
  failureLengthPenalty : ℚ
  failureLengthMetric : String
  failureLengthDenominator : Option ℚ
  penalty_pos : 0 < penalty
  penalty_le : penalty ≤ 1
  failure_nonneg : 0 ≤ failureLengthPenalty
  failure_le : failureLengthPenalty ≤ 1
  denominator_pos : ∀ d ∈ failureLengthDenominator, 0 < d

inductive LengthPenalty
  | linear (c : LinearLengthPenalty)
  | shortestCorrect (c : ShortestCorrectLengthPenalty)

inductive Error
  | value (message : String)
  | runtime (message : String)
  /-- `f"{outcome} rollout has invalid {metric!r} metric: {value!r}"`. -/
  | invalidMetric (outcome metric : String)
  /-- What stamping a sample raises. -/
  | stamping (e : Batch.Error)
deriving DecidableEq

/-- The mean of a tensor; of an empty one nothing is asked. -/
def mean (xs : List ℚ) : ℚ := xs.sum / xs.length

def center (xs : List ℚ) : List ℚ := xs.map fun x => x - mean xs

/-- `xs.max().clamp(min=1)`. -/
def clampedMax (xs : List ℚ) : ℚ := xs.foldr max 1

def rewards (group : List Graded) : List ℚ := group.map (·.reward)

def Graded.output (r : Graded) : ℚ := r.numOutputTokens

def Graded.input (r : Graded) : ℚ := r.numTotalTokens - r.numOutputTokens

def Graded.turns (r : Graded) : ℚ := r.numTurns

def penaltyFrac (c : LinearLengthPenalty) (group : List Graded) (r : Graded) : ℚ :=
  c.numOutputTokensWeight * (r.output / clampedMax (group.map Graded.output)) +
    c.numInputTokensWeight * (r.input / clampedMax (group.map Graded.input)) +
    c.numTurnsWeight * (r.turns / clampedMax (group.map Graded.turns))

/-- The rewards less the linear penalty; the maximum of an empty tensor raises. -/
def linearRewards (c : LinearLengthPenalty) (group : List Graded) : Except Error (List ℚ) := do
  raiseUnless (group ≠ [])
    (.runtime "max(): Expected reduction dim to be specified for input.numel() == 0. Specify the reduction dim with the 'dim' argument.")
  .ok (group.map fun r => r.reward - mean (rewards group) * penaltyFrac c group r)

/-- A metric that is there, finite and not negative. -/
def Graded.measured (metric : String) (r : Graded) : Option ℚ :=
  match r.metrics.lookup metric with
  | some (.finite value) => if value < 0 then none else some value
  | _ => none

def lengths (outcome metric : String) (rs : List Graded) : Except Error (List ℚ) :=
  rs.mapM fun r => match r.measured metric with
    | some value => .ok value
    | none => .error (.invalidMetric outcome metric)

def correct (group : List Graded) : List Graded := group.filter (·.reward = 1)

def failed (group : List Graded) : List Graded := group.filter (·.reward = 0)

/-- The length of the shortest correct rollout, if one is correct. -/
def shortest (c : ShortestCorrectLengthPenalty) (group : List Graded) : Except Error (Option ℚ) := do
  let values ← lengths "correct" c.thinkingLengthMetric (correct group)
  .ok values.min?

/-- What incorrect lengths are divided by, if they count. -/
def failureDenominator (c : ShortestCorrectLengthPenalty) (group : List Graded) : Except Error (Option ℚ) :=
  if failed group ≠ [] ∧ 0 < c.failureLengthPenalty then do
    let values ← lengths "incorrect" c.failureLengthMetric (failed group)
    .ok (some (max (c.failureLengthDenominator.getD (values.max?.getD 0)) 1))
  else .ok none

def shapedReward (c : ShortestCorrectLengthPenalty) (shortest denominator : Option ℚ) (r : Graded) : ℚ :=
  if r.reward = 1 then
    match r.measured c.thinkingLengthMetric, shortest with
    | some length, some shortest => if shortest < length then r.reward - c.penalty else r.reward
    | _, _ => r.reward
  else
    match r.measured c.failureLengthMetric, denominator with
    | some length, some denominator => r.reward - c.failureLengthPenalty * min (length / denominator) 1
    | _, _ => r.reward

def shortestCorrectRewards (c : ShortestCorrectLengthPenalty) (group : List Graded) : Except Error (List ℚ) := do
  raiseUnless (∀ r ∈ group, r.reward = 0 ∨ r.reward = 1)
    (.value "shortest-correct thinking penalty requires binary aggregate rewards")
  let shortest ← shortest c group
  let denominator ← failureDenominator c group
  .ok (group.map (shapedReward c shortest denominator))

def shapedRewards (mode : Option LengthPenalty) (group : List Graded) : Except Error (List ℚ) :=
  match mode with
  | none => .ok (rewards group)
  | some (.linear c) => linearRewards c group
  | some (.shortestCorrect c) => shortestCorrectRewards c group

/-- The advantages `score_group` assigns, rollout by rollout. -/
def groupAdvantages (mode : Option LengthPenalty) (group : List Graded) : Except Error (List ℚ) := do
  let shaped ← shapedRewards mode group
  .ok (center shaped)

/-! ## Centring -/

theorem sum_sub_const (m : ℚ) : ∀ xs : List ℚ, (xs.map fun x => x - m).sum = xs.sum - xs.length * m
  | [] => by simp
  | x :: xs => by
    rw [List.map_cons, List.sum_cons, sum_sub_const m xs, List.sum_cons, List.length_cons]
    push_cast
    ring

/-- **Centred values sum to zero.** -/
theorem sum_center (xs : List ℚ) : (center xs).sum = 0 := by
  rw [center, sum_sub_const]
  by_cases hxs : xs = []
  · simp [hxs]
  · have hlen : (xs.length : ℚ) ≠ 0 := by simpa using hxs
    rw [mean, mul_div_cancel₀ _ hlen, sub_self]

theorem mean_perm {xs ys : List ℚ} (h : xs.Perm ys) : mean xs = mean ys := by
  rw [mean, mean, h.sum_eq, h.length_eq]

theorem clampedMax_perm {xs ys : List ℚ} (h : xs.Perm ys) : clampedMax xs = clampedMax ys := h.foldr_eq 1

theorem min?_perm {xs ys : List ℚ} (h : xs.Perm ys) : xs.min? = ys.min? := by
  cases hx : xs.min? with
  | none =>
    rw [List.min?_eq_none_iff] at hx
    rw [List.min?_eq_none_iff.2 (List.nil_perm.1 (hx ▸ h))]
  | some a =>
    rw [List.min?_eq_some_iff] at hx
    exact (List.min?_eq_some_iff.2 ⟨h.mem_iff.1 hx.1, fun b hb => hx.2 b (h.mem_iff.2 hb)⟩).symm

theorem max?_perm {xs ys : List ℚ} (h : xs.Perm ys) : xs.max? = ys.max? := by
  cases hx : xs.max? with
  | none =>
    rw [List.max?_eq_none_iff] at hx
    rw [List.max?_eq_none_iff.2 (List.nil_perm.1 (hx ▸ h))]
  | some a =>
    rw [List.max?_eq_some_iff] at hx
    exact (List.max?_eq_some_iff.2 ⟨h.mem_iff.1 hx.1, fun b hb => hx.2 b (h.mem_iff.2 hb)⟩).symm

/-! ## Every rollout is shaped by what the group as a whole is -/

theorem lengths_eq_ok {outcome metric : String} : ∀ {rs : List Graded} {values : List ℚ},
    lengths outcome metric rs = .ok values ↔
      (∀ r ∈ rs, (r.measured metric).isSome) ∧ values = rs.filterMap (·.measured metric)
  | [], values => by
    rw [lengths, List.mapM_nil, pure_eq_ok]
    exact ⟨fun h => ⟨fun r hr => absurd hr List.not_mem_nil, h.symm⟩, fun h => h.2.symm⟩
  | r :: rs, values => by
    rw [lengths, List.mapM_cons, bind_eq_ok, List.forall_mem_cons]
    cases hr : r.measured metric with
    | none => simp
    | some value =>
      rw [List.filterMap_cons_some hr]
      constructor
      · rintro ⟨_, hvalue, h⟩
        obtain ⟨rest, hrest, h⟩ := bind_eq_ok.1 h
        obtain ⟨hall, rfl⟩ := lengths_eq_ok.1 hrest
        cases hvalue
        exact ⟨⟨rfl, hall⟩, (pure_eq_ok.1 h).symm⟩
      · rintro ⟨⟨-, hall⟩, rfl⟩
        exact ⟨value, rfl, bind_eq_ok.2 ⟨_, lengths_eq_ok.2 ⟨hall, rfl⟩, rfl⟩⟩

theorem lengths_perm {outcome metric : String} {rs rs' : List Graded} {values : List ℚ} (h : rs.Perm rs')
    (hv : lengths outcome metric rs = .ok values) :
    ∃ values', lengths outcome metric rs' = .ok values' ∧ values.Perm values' := by
  obtain ⟨hall, rfl⟩ := lengths_eq_ok.1 hv
  exact ⟨_, lengths_eq_ok.2 ⟨fun r hr => hall r (h.mem_iff.2 hr), rfl⟩, h.filterMap _⟩

theorem shortest_perm {c : ShortestCorrectLengthPenalty} {group group' : List Graded} {s : Option ℚ}
    (h : group.Perm group') (hs : shortest c group = .ok s) : shortest c group' = .ok s := by
  obtain ⟨values, hv, hs⟩ := bind_eq_ok.1 hs
  cases hs
  obtain ⟨values', hv', hperm⟩ := lengths_perm (h.filter _) hv
  exact bind_eq_ok.2 ⟨values', hv', congrArg _ (min?_perm hperm).symm⟩

theorem failureDenominator_perm {c : ShortestCorrectLengthPenalty} {group group' : List Graded} {d : Option ℚ}
    (h : group.Perm group') (hd : failureDenominator c group = .ok d) : failureDenominator c group' = .ok d := by
  have hfailed : (failed group).Perm (failed group') := h.filter _
  have hne : failed group ≠ [] ↔ failed group' ≠ [] := by
    rw [← List.length_pos_iff, ← List.length_pos_iff, hfailed.length_eq]
  unfold failureDenominator at hd ⊢
  split at hd
  · rename_i hcount
    rw [if_pos ⟨hne.1 hcount.1, hcount.2⟩]
    obtain ⟨values, hv, hd⟩ := bind_eq_ok.1 hd
    cases hd
    obtain ⟨values', hv', hperm⟩ := lengths_perm hfailed hv
    refine bind_eq_ok.2 ⟨values', hv', ?_⟩
    rw [max?_perm hperm]
  · rename_i hcount
    rw [if_neg fun hcount' => hcount ⟨hne.2 hcount'.1, hcount'.2⟩]
    exact hd

/-- **Shaping goes rollout by rollout, by what a permuted group agrees on.** -/
theorem shapedRewards_perm {mode : Option LengthPenalty} {group group' : List Graded} {shaped : List ℚ}
    (h : group.Perm group') (hs : shapedRewards mode group = .ok shaped) :
    ∃ f : Graded → ℚ, shaped = group.map f ∧ shapedRewards mode group' = .ok (group'.map f) := by
  match mode with
  | none =>
    cases hs
    exact ⟨(·.reward), rfl, rfl⟩
  | some (.linear c) =>
    simp only [shapedRewards, linearRewards, bind_eq_ok, raiseUnless_eq_ok] at hs ⊢
    obtain ⟨_, hne, hs⟩ := hs
    cases hs
    refine ⟨fun r => r.reward - mean (rewards group) * penaltyFrac c group r, rfl, (), ?_, ?_⟩
    · rintro rfl
      exact hne h.eq_nil
    · have hmean : mean (rewards group') = mean (rewards group) := (mean_perm (h.map Graded.reward)).symm
      rw [hmean]
      refine congrArg _ (List.map_congr_left fun r _ => ?_)
      rw [penaltyFrac, penaltyFrac, clampedMax_perm (h.map Graded.output), clampedMax_perm (h.map Graded.input),
        clampedMax_perm (h.map Graded.turns)]
  | some (.shortestCorrect c) =>
    simp only [shapedRewards, shortestCorrectRewards, bind_eq_ok, raiseUnless_eq_ok] at hs ⊢
    obtain ⟨_, hbinary, s, hshort, d, hd, hs⟩ := hs
    cases hs
    exact ⟨shapedReward c s d, rfl, (), fun r hr => hbinary r (h.mem_iff.2 hr), s, shortest_perm h hshort, d,
      failureDenominator_perm h hd, rfl⟩

/-! ## The order of shaped rewards -/

theorem measured_nonneg {metric : String} {r : Graded} {value : ℚ} (h : r.measured metric = some value) : 0 ≤ value := by
  unfold Graded.measured at h
  split at h
  · split at h
    · cases h
    · rename_i hneg
      cases h
      exact not_lt.1 hneg
  · cases h

/-- What shaping has checked before it shapes. -/
structure Checks (c : ShortestCorrectLengthPenalty) (group : List Graded) (shortest denominator : Option ℚ) : Prop where
  binary : ∀ r ∈ group, r.reward = 0 ∨ r.reward = 1
  shortest : ∀ m, shortest = some m → (∃ r ∈ group, r.reward = 1 ∧ r.measured c.thinkingLengthMetric = some m) ∧
    ∀ r ∈ group, r.reward = 1 → ∀ l, r.measured c.thinkingLengthMetric = some l → m ≤ l
  denominator : ∀ d, denominator = some d → 1 ≤ d

theorem shortestCorrectRewards_eq_ok {c : ShortestCorrectLengthPenalty} {group : List Graded} {shaped : List ℚ}
    (h : shortestCorrectRewards c group = .ok shaped) :
    ∃ s d, Checks c group s d ∧ shaped = group.map (shapedReward c s d) := by
  simp only [shortestCorrectRewards, bind_eq_ok, raiseUnless_eq_ok] at h
  obtain ⟨_, hbinary, s, hshort, d, hd, h⟩ := h
  cases h
  refine ⟨s, d, ⟨hbinary, fun m hm => ?_, fun x hx => ?_⟩, rfl⟩
  · obtain ⟨values, hv, hs⟩ := bind_eq_ok.1 hshort
    obtain ⟨-, rfl⟩ := lengths_eq_ok.1 hv
    cases hs
    obtain ⟨hmem, hle⟩ := List.min?_eq_some_iff.1 hm
    obtain ⟨r, hr, hrm⟩ := List.mem_filterMap.1 hmem
    obtain ⟨hr, hone⟩ := List.mem_filter.1 hr
    refine ⟨⟨r, hr, of_decide_eq_true hone, hrm⟩, fun r' hr' hone' l hl => hle l ?_⟩
    exact List.mem_filterMap.2 ⟨r', List.mem_filter.2 ⟨hr', decide_eq_true hone'⟩, hl⟩
  · subst hx
    unfold failureDenominator at hd
    split at hd
    · obtain ⟨values, -, hd⟩ := bind_eq_ok.1 hd
      cases hd
      exact le_max_right _ _
    · cases hd

section
variable {c : ShortestCorrectLengthPenalty} {group : List Graded} {s d : Option ℚ} (h : Checks c group s d)
include h

/-- A correct rollout keeps a reward between `0` and `1`. -/
theorem Checks.correct_bounds {r : Graded} (hr : r.reward = 1) :
    0 ≤ shapedReward c s d r ∧ shapedReward c s d r ≤ 1 := by
  have hp := c.penalty_pos
  have hle := c.penalty_le
  unfold shapedReward
  rw [if_pos hr, hr]
  split
  · split
    · exact ⟨by linarith, by linarith⟩
    · exact ⟨zero_le_one, le_rfl⟩
  · exact ⟨zero_le_one, le_rfl⟩

/-- An incorrect rollout's reward is never raised. -/
theorem Checks.failed_nonpos {r : Graded} (hr : r.reward = 0) : shapedReward c s d r ≤ 0 := by
  unfold shapedReward
  rw [if_neg (by rw [hr]; exact zero_ne_one), hr]
  split
  · rename_i l x hl
    have hx : 1 ≤ x := h.denominator x rfl
    have hfrac : 0 ≤ min (l / x) 1 := le_min (div_nonneg (measured_nonneg hl) (by linarith)) zero_le_one
    have hmul := mul_nonneg c.failure_nonneg hfrac
    linarith
  · exact le_rfl

/-- **The shortest correct rollout keeps its whole reward.** -/
theorem Checks.shortest_whole {r : Graded} {l : ℚ} (hr : r.reward = 1)
    (hl : r.measured c.thinkingLengthMetric = some l)
    (hmin : ∀ r' ∈ group, r'.reward = 1 → ∀ l', r'.measured c.thinkingLengthMetric = some l' → l ≤ l') :
    shapedReward c s d r = 1 := by
  unfold shapedReward
  rw [if_pos hr, hl, hr]
  split
  · rename_i l₁ m hl₁ 
    obtain ⟨r', hr', hone, hm⟩ := (h.shortest m rfl).1
    obtain rfl := Option.some.inj hl₁
    exact if_neg (not_lt.2 (hmin r' hr' hone m hm))
  · rfl

/-- **A longer incorrect rollout is never rewarded more.** -/
theorem Checks.failed_antitone {r r' : Graded} {l l' : ℚ} (hr : r.reward = 0) (hr' : r'.reward = 0)
    (hl : r.measured c.failureLengthMetric = some l) (hl' : r'.measured c.failureLengthMetric = some l')
    (hle : l ≤ l') : shapedReward c s d r' ≤ shapedReward c s d r := by
  unfold shapedReward
  rw [if_neg (by rw [hr']; exact zero_ne_one), if_neg (by rw [hr]; exact zero_ne_one), hl, hl', hr, hr']
  cases d with
  | none => exact le_rfl
  | some x =>
    have hx : 1 ≤ x := h.denominator x rfl
    have hdiv : l / x ≤ l' / x := div_le_div_of_nonneg_right hle (by linarith)
    have hmul := mul_le_mul_of_nonneg_left (min_le_min_right 1 hdiv) c.failure_nonneg
    dsimp only
    linarith

end

/-! ## The advantages -/

/-- The rewards, lengths and metrics of a group that its shaping takes. -/
def Scorable (mode : Option LengthPenalty) (group : List Graded) : Prop :=
  match mode with
  | none => True
  | some (.linear _) => group ≠ []
  | some (.shortestCorrect c) => (∀ r ∈ group, r.reward = 0 ∨ r.reward = 1) ∧
      (∀ r ∈ group, r.reward = 1 → (r.measured c.thinkingLengthMetric).isSome) ∧
      (0 < c.failureLengthPenalty → ∀ r ∈ group, r.reward = 0 → (r.measured c.failureLengthMetric).isSome)

theorem lengths_isOk (outcome : String) {metric : String} (p : Graded → Bool) {group : List Graded}
    (h : ∀ r ∈ group, p r = true → (r.measured metric).isSome) :
    ∃ values, lengths outcome metric (group.filter p) = .ok values :=
  ⟨_, lengths_eq_ok.2 ⟨fun r hr => h r (List.mem_filter.1 hr).1 (List.mem_filter.1 hr).2, rfl⟩⟩

/-- **A group is scored where its shaping takes it.** -/
theorem shapedRewards_isOk {mode : Option LengthPenalty} {group : List Graded} (h : Scorable mode group) :
    ∃ shaped, shapedRewards mode group = .ok shaped := by
  match mode with
  | none => exact ⟨_, rfl⟩
  | some (.linear c) => exact ⟨_, bind_eq_ok.2 ⟨(), raiseUnless_of _ h, rfl⟩⟩
  | some (.shortestCorrect c) =>
    obtain ⟨hbinary, hcorrect, hfailed⟩ := h
    obtain ⟨values, hv⟩ := lengths_isOk "correct" (fun r => decide (r.reward = 1)) fun r hr hone =>
      hcorrect r hr (of_decide_eq_true hone)
    have hshort : shortest c group = .ok values.min? := bind_eq_ok.2 ⟨values, hv, rfl⟩
    have hdenominator : ∃ d, failureDenominator c group = .ok d := by
      unfold failureDenominator
      split
      · rename_i hcount
        obtain ⟨values', hv'⟩ := lengths_isOk "incorrect" (fun r => decide (r.reward = 0))
          fun r hr hzero => hfailed hcount.2 r hr (of_decide_eq_true hzero)
        exact ⟨_, bind_eq_ok.2 ⟨values', hv', rfl⟩⟩
      · exact ⟨_, rfl⟩
    obtain ⟨d, hd⟩ := hdenominator
    exact ⟨_, bind_eq_ok.2 ⟨(), raiseUnless_of _ hbinary, bind_eq_ok.2 ⟨_, hshort, bind_eq_ok.2 ⟨d, hd, rfl⟩⟩⟩⟩

/-- **What shortest-correct shaping promises** of rollouts with their shaped rewards. -/
structure RanksLengths (c : ShortestCorrectLengthPenalty) (shaped : List (Graded × ℚ)) : Prop where
  correct_first : ∀ x ∈ shaped, ∀ y ∈ shaped, x.1.reward = 1 → y.1.reward = 0 → y.2 ≤ x.2
  shortest_maximal : ∀ x ∈ shaped, ∀ l, x.1.reward = 1 → x.1.measured c.thinkingLengthMetric = some l →
    (∀ y ∈ shaped, y.1.reward = 1 → ∀ l', y.1.measured c.thinkingLengthMetric = some l' → l ≤ l') →
    ∀ y ∈ shaped, y.2 ≤ x.2
  failed_antitone : ∀ x ∈ shaped, ∀ y ∈ shaped, x.1.reward = 0 → y.1.reward = 0 → ∀ l l',
    x.1.measured c.failureLengthMetric = some l → y.1.measured c.failureLengthMetric = some l' → l ≤ l' → y.2 ≤ x.2

theorem shortestCorrect_ranks {c : ShortestCorrectLengthPenalty} {group : List Graded} {shaped : List ℚ}
    (h : shortestCorrectRewards c group = .ok shaped) : RanksLengths c (group.zip shaped) := by
  obtain ⟨s, d, hc, rfl⟩ := shortestCorrectRewards_eq_ok h
  rw [← List.map_prod_left_eq_zip]
  have le_one : ∀ r ∈ group, shapedReward c s d r ≤ 1 := by
    intro r hr
    rcases hc.binary r hr with hzero | hone
    · exact (hc.failed_nonpos hzero).trans zero_le_one
    · exact (hc.correct_bounds hone).2
  constructor
  · rintro x hx y hy hone hzero
    obtain ⟨r, -, rfl⟩ := List.mem_map.1 hx
    obtain ⟨r', -, rfl⟩ := List.mem_map.1 hy
    exact (hc.failed_nonpos hzero).trans (hc.correct_bounds hone).1
  · rintro x hx l hone hl hmin y hy
    obtain ⟨r, -, rfl⟩ := List.mem_map.1 hx
    obtain ⟨r', hr', rfl⟩ := List.mem_map.1 hy
    have hwhole := hc.shortest_whole hone hl fun r'' hr'' => hmin _ (List.mem_map_of_mem hr'')
    exact (le_one r' hr').trans hwhole.ge
  · rintro x hx y hy hzero hzero' l l' hl hl' hle
    obtain ⟨r, -, rfl⟩ := List.mem_map.1 hx
    obtain ⟨r', -, rfl⟩ := List.mem_map.1 hy
    exact hc.failed_antitone hzero hzero' hl hl' hle

/-- **GRPO's shaping**: a scored group's advantages are its centered shaped rewards, which sum to zero and go with the
rollouts when these are permuted; a group is scored wherever its rewards and lengths are ones its penalty takes; and
shortest-correct shaping ranks every correct rollout over the incorrect ones, the shortest correct one first and longer
incorrect ones last. -/
theorem grpo_shaping (mode : Option LengthPenalty) (group : List Graded) :
    (Scorable mode group → ∃ advantages, groupAdvantages mode group = .ok advantages) ∧
    (∀ advantages, groupAdvantages mode group = .ok advantages →
      (∃ shaped, shapedRewards mode group = .ok shaped ∧ advantages = center shaped) ∧
      advantages.length = group.length ∧ advantages.sum = 0 ∧
      ∀ group', group.Perm group' → ∃ advantages', groupAdvantages mode group' = .ok advantages' ∧
        (group.zip advantages).Perm (group'.zip advantages')) ∧
    ∀ c shaped, mode = some (.shortestCorrect c) → shapedRewards mode group = .ok shaped →
      RanksLengths c (group.zip shaped) := by
  refine ⟨fun hscorable => ?_, fun advantages h => ?_, ?_⟩
  · obtain ⟨shaped, hs⟩ := shapedRewards_isOk hscorable
    exact ⟨_, bind_eq_ok.2 ⟨shaped, hs, rfl⟩⟩
  · obtain ⟨shaped, hs, h⟩ := bind_eq_ok.1 h
    cases h
    refine ⟨⟨shaped, hs, rfl⟩, ?_, sum_center shaped, fun group' hperm => ?_⟩
    · obtain ⟨f, rfl, -⟩ := shapedRewards_perm (List.Perm.refl group) hs
      rw [center, List.length_map, List.length_map]
    · obtain ⟨f, rfl, hs'⟩ := shapedRewards_perm hperm hs
      refine ⟨_, bind_eq_ok.2 ⟨_, hs', rfl⟩, ?_⟩
      rw [center, center, mean_perm (hperm.map f), List.map_map, List.map_map, ← List.map_prod_left_eq_zip,
        ← List.map_prod_left_eq_zip]
      exact hperm.map _
  · rintro c shaped rfl hs
    exact shortestCorrect_ranks hs

/-- Two correct rollouts of which the longer pays, and two incorrect ones. -/
example : shapedRewards (some (.shortestCorrect ⟨"thinking_tokens", 1 / 2, 1, "thinking_tokens", none, by norm_num,
      by norm_num, by norm_num, by norm_num, by simp⟩))
    [⟨1, 0, 0, 0, [("thinking_tokens", .finite 10)]⟩, ⟨1, 0, 0, 0, [("thinking_tokens", .finite 30)]⟩,
      ⟨0, 0, 0, 0, [("thinking_tokens", .finite 20)]⟩, ⟨0, 0, 0, 0, [("thinking_tokens", .finite 40)]⟩] =
    .ok [1, 1 / 2, -1 / 2, -1] := by decide +kernel

end Algo
end Aether
