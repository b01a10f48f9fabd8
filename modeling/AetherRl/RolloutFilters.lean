import Mathlib.Data.List.Forall2
import Mathlib.Data.List.Basic
import Mathlib.Algebra.GroupWithZero.Nat
import Mathlib.Algebra.Ring.Int.Defs
/-!
# RolloutFilters — degenerate generations, found and dropped

`orchestrator/filters.py`: three filters, each a loop over a rollout's branches or advantages, and `apply_filters`,
which stops at the first filter that detects a rollout.  `processed` is what `coordinator/results.py` keeps of a group's
survivors between its two filter stages.  Log probabilities are of any type with a decidable order.
-/
namespace Aether
namespace RolloutFilters

/-- One root-to-leaf path of a rollout: three aligned streams. -/
structure Branch (F : Type) where
  tokenIds : List Int
  logprobs : List F
  sampledMask : List Bool
deriving DecidableEq

structure Rollout (F S : Type) where
  branches : List (Branch F)
  samples : List S
  advantages : Option (List F)
  isFiltered : Bool
  filterResults : List (String × Bool)
deriving DecidableEq

/-- The three filters of the configuration's union. -/
inductive RolloutFilter (F : Type)
  | gibberish (name : String) (tokenIdThreshold : Int) (logprobThreshold : F) (enforce : Bool)
  | repetition (name : String) (window : Nat) (logprobThreshold : F) (enforce : Bool)
  | zeroAdvantage (name : String) (enforce : Bool)
deriving DecidableEq

variable {F S : Type} [LT F] [DecidableLT F] [DecidableEq F] [Zero F]

def RolloutFilter.name : RolloutFilter F → String
  | .gibberish name .. | .repetition name .. | .zeroAdvantage name _ => name

def RolloutFilter.enforce : RolloutFilter F → Bool
  | .gibberish _ _ _ enforce | .repetition _ _ _ enforce | .zeroAdvantage _ enforce => enforce

/-! ## Detection -/

/-- A sampled token that is rare and was generated at high entropy. -/
def checkGibberish (tokenIdThreshold : Int) (logprobThreshold : F) (branch : Branch F) : Bool :=
  (branch.tokenIds.zip (branch.logprobs.zip branch.sampledMask)).any fun (tokenId, logprob, sampled) =>
    sampled && (decide (tokenIdThreshold < tokenId) && decide (logprob < logprobThreshold))

/-- The streak of confident sampled tokens: an unsampled token neither extends it nor ends it. -/
def checkStreak (window : Nat) (logprobThreshold : F) : Nat → List (F × Bool) → Bool
  | _, [] => false
  | consecutive, (_, false) :: rest => checkStreak window logprobThreshold consecutive rest
  | consecutive, (logprob, true) :: rest =>
    let consecutive := if logprobThreshold < logprob then consecutive + 1 else 0
    if window ≤ consecutive then true else checkStreak window logprobThreshold consecutive rest

def checkRepetition (window : Nat) (logprobThreshold : F) (branch : Branch F) : Bool :=
  checkStreak window logprobThreshold 0 (branch.logprobs.zip branch.sampledMask)

def RolloutFilter.check (f : RolloutFilter F) (rollout : Rollout F S) : Bool :=
  match f with
  | .gibberish _ tokenIdThreshold logprobThreshold _ =>
    rollout.branches.any (checkGibberish tokenIdThreshold logprobThreshold)
  | .repetition _ window logprobThreshold _ => rollout.branches.any (checkRepetition window logprobThreshold)
  | .zeroAdvantage _ _ => rollout.advantages.any fun advantages => advantages.all fun a => decide (a = 0)

/-! ## `apply_filters` -/

/-- `rollout.filter_results[name] = True`. -/
def setResult (name : String) (results : List (String × Bool)) : List (String × Bool) :=
  results.map fun p => if p.1 = name then (name, true) else p

/-- The first pass: every filter's result is false and nothing is dropped. -/
def reset (filters : List (RolloutFilter F)) (rollout : Rollout F S) : Rollout F S :=
  { rollout with filterResults := (filters.map (·.name)).eraseDups.map (·, false), isFiltered := false }

/-- The second pass over one rollout: it ends at the first filter that detects it. -/
def applyFirst : List (RolloutFilter F) → Rollout F S → Rollout F S
  | [], rollout => rollout
  | f :: fs, rollout =>
    if f.check rollout then
      { rollout with
        filterResults := setResult f.name rollout.filterResults
        isFiltered := if f.enforce then true else rollout.isFiltered }
    else applyFirst fs rollout

def applyFilters (filters : List (RolloutFilter F)) (rollouts : List (Rollout F S)) : List (Rollout F S) :=
  let rollouts := rollouts.map (reset filters)
  if filters.isEmpty then rollouts else rollouts.map (applyFirst filters)

/-- What is stored of a rollout for training. -/
structure ProcessedRollout (S : Type) where
  samples : List S
  tokenCount : Nat
deriving DecidableEq

/-- The two stages of a group's survivors: those the first stage drops are gone, those the second drops keep their token
count and lose their samples. -/
def processed (tokens : S → Nat) (preFilters postFilters : List (RolloutFilter F)) (survivors : List (Rollout F S)) :
    List (ProcessedRollout S) :=
  let survivors := (applyFilters preFilters survivors).filter fun rollout => !rollout.isFiltered
  let survivors := survivors.map fun rollout => { rollout with filterResults := [], isFiltered := false }
  ((applyFilters postFilters survivors).filter fun rollout => !rollout.samples.isEmpty).map fun rollout =>
    ⟨if rollout.isFiltered then [] else rollout.samples, (rollout.samples.map tokens).sum⟩

/-! ## What one rollout comes out as -/

/-- Some enforcing filter of the list detects the rollout. -/
def EnforcedOn (filters : List (RolloutFilter F)) (rollout : Rollout F S) : Prop :=
  ∃ f ∈ filters, f.enforce = true ∧ f.check rollout = true

/-- **A detecting monitoring filter stands before no detecting enforcing one**, but behind one it may. -/
def Unmasked (filters : List (RolloutFilter F)) (rollout : Rollout F S) : Prop :=
  ∀ before f after, filters = before ++ f :: after → f.enforce = false → f.check rollout = true →
    EnforcedOn before rollout ∨ ¬ EnforcedOn after rollout

/-- A filter looks at neither of the two fields the filters write. -/
@[simp] theorem check_marks (f : RolloutFilter F) (rollout : Rollout F S) (b : Bool) (results : List (String × Bool)) :
    f.check { rollout with isFiltered := b, filterResults := results } = f.check rollout := by
  cases f <;> rfl

@[simp] theorem check_reset (f : RolloutFilter F) (filters : List (RolloutFilter F)) (rollout : Rollout F S) :
    f.check (reset filters rollout) = f.check rollout := check_marks f rollout _ _

theorem enforcedOn_cons (f : RolloutFilter F) (fs : List (RolloutFilter F)) (rollout : Rollout F S) :
    EnforcedOn (f :: fs) rollout ↔ (f.enforce = true ∧ f.check rollout = true) ∨ EnforcedOn fs rollout := by
  simp [EnforcedOn]

@[simp] theorem not_enforcedOn_nil (rollout : Rollout F S) : ¬ EnforcedOn [] rollout := by simp [EnforcedOn]

/-- The enforcing filters alone decide whether one of them detects a rollout. -/
theorem enforcedOn_congr {filters filters' : List (RolloutFilter F)}
    (h : (filters.filter (·.enforce)).Perm (filters'.filter (·.enforce))) (rollout : Rollout F S) :
    EnforcedOn filters rollout ↔ EnforcedOn filters' rollout := by
  have hmem : ∀ f, f.enforce = true → (f ∈ filters ↔ f ∈ filters') := by
    intro f hf
    have := h.mem_iff (a := f)
    simpa [List.mem_filter, hf] using this
  constructor
  · rintro ⟨f, hf, he, hc⟩
    exact ⟨f, (hmem f he).1 hf, he, hc⟩
  · rintro ⟨f, hf, he, hc⟩
    exact ⟨f, (hmem f he).2 hf, he, hc⟩

/-- A filter that does not detect the rollout masks nothing. -/
theorem unmasked_cons_of_not {f : RolloutFilter F} {fs : List (RolloutFilter F)} {rollout : Rollout F S}
    (hf : f.check rollout = false) : Unmasked (f :: fs) rollout ↔ Unmasked fs rollout := by
  constructor
  · intro h before g after heq hg hc
    have := h (f :: before) g after (by rw [heq, List.cons_append]) hg hc
    simpa [enforcedOn_cons, hf] using this
  · intro h before g after heq hg hc
    cases before with
    | nil =>
      obtain ⟨rfl, rfl⟩ := List.cons.inj heq
      rw [hf] at hc
      cases hc
    | cons b before =>
      obtain ⟨rfl, rfl⟩ := List.cons.inj heq
      have := h before g after rfl hg hc
      simpa [enforcedOn_cons, hf] using this

/-- Behind a detecting enforcing filter nothing is masked. -/
theorem unmasked_cons_of_enforce {f : RolloutFilter F} {fs : List (RolloutFilter F)} {rollout : Rollout F S}
    (he : f.enforce = true) (hf : f.check rollout = true) : Unmasked (f :: fs) rollout := by
  intro before g after heq hg _
  cases before with
  | nil =>
    obtain ⟨rfl, rfl⟩ := List.cons.inj heq
    rw [he] at hg
    cases hg
  | cons b before =>
    obtain ⟨rfl, rfl⟩ := List.cons.inj heq
    exact Or.inl ((enforcedOn_cons f before rollout).2 (Or.inl ⟨he, hf⟩))

/-- In front of every filter that follows it, a detecting monitoring filter masks what they enforce. -/
theorem unmasked_cons_of_monitor {f : RolloutFilter F} {fs : List (RolloutFilter F)} {rollout : Rollout F S}
    (he : f.enforce = false) (hf : f.check rollout = true) :
    Unmasked (f :: fs) rollout ↔ ¬ EnforcedOn fs rollout := by
  constructor
  · intro h
    exact (h [] f fs rfl he hf).resolve_left (not_enforcedOn_nil rollout)
  · intro h before g after heq hg hc
    refine Or.inr fun hafter => h ?_
    cases before with
    | nil =>
      obtain ⟨rfl, rfl⟩ := List.cons.inj heq
      exact hafter
    | cons b before =>
      obtain ⟨rfl, rfl⟩ := List.cons.inj heq
      obtain ⟨k, hk, hrest⟩ := hafter
      exact ⟨k, List.mem_append_right _ (List.mem_cons_of_mem _ hk), hrest⟩

/-- **The second pass drops a rollout for an enforcing filter's detection exactly when none is masked.** -/
theorem applyFirst_isFiltered : ∀ (filters : List (RolloutFilter F)) (rollout : Rollout F S),
    rollout.isFiltered = false →
    (((applyFirst filters rollout).isFiltered = true ↔ EnforcedOn filters rollout) ↔ Unmasked filters rollout)
  | [], rollout, h => by
    have : Unmasked [] rollout := by intro before f after heq; simp at heq
    simp [applyFirst, h, this]
  | f :: fs, rollout, h => by
    by_cases hf : f.check rollout = true
    · by_cases he : f.enforce = true
      · simp [applyFirst, hf, he, enforcedOn_cons, unmasked_cons_of_enforce he hf]
      · have he : f.enforce = false := by simpa using he
        simp [applyFirst, hf, he, h, enforcedOn_cons, unmasked_cons_of_monitor he hf]
    · have hf : f.check rollout = false := by simpa using hf
      rw [unmasked_cons_of_not hf, ← applyFirst_isFiltered fs rollout h]
      simp [applyFirst, hf, enforcedOn_cons]

/-- Only the two marks of a rollout change. -/
theorem applyFirst_marks : ∀ (filters : List (RolloutFilter F)) (rollout : Rollout F S),
    ∃ results, applyFirst filters rollout =
      { rollout with isFiltered := (applyFirst filters rollout).isFiltered, filterResults := results }
  | [], rollout => ⟨rollout.filterResults, rfl⟩
  | f :: fs, rollout => by
    by_cases hf : f.check rollout = true
    · exact ⟨setResult f.name rollout.filterResults, by simp [applyFirst, hf]⟩
    · obtain ⟨results, hr⟩ := applyFirst_marks fs rollout
      refine ⟨results, ?_⟩
      simp only [applyFirst, hf, Bool.false_eq_true, ↓reduceIte]
      exact hr

theorem applyFilters_eq (filters : List (RolloutFilter F)) (rollouts : List (Rollout F S)) :
    applyFilters filters rollouts = rollouts.map fun rollout => applyFirst filters (reset filters rollout) := by
  unfold applyFilters
  cases filters with
  | nil => simp [applyFirst]
  | cons f fs => simp

/-! ## Monitoring filters and the training set -/

theorem applyFirst_reset_isFiltered (filters : List (RolloutFilter F)) (rollout : Rollout F S) :
    ((applyFirst filters (reset filters rollout)).isFiltered = true ↔ EnforcedOn filters rollout) ↔
      Unmasked filters rollout := by
  have h := applyFirst_isFiltered filters (reset filters rollout) rfl
  simpa only [EnforcedOn, Unmasked, check_reset] using h

/-- Two lists with the same enforcing filters, neither of which masks one, agree on a rollout. -/
theorem isFiltered_congr {filters filters' : List (RolloutFilter F)} (rollout : Rollout F S)
    (hp : (filters.filter (·.enforce)).Perm (filters'.filter (·.enforce)))
    (h : Unmasked filters rollout) (h' : Unmasked filters' rollout) :
    (applyFirst filters (reset filters rollout)).isFiltered =
      (applyFirst filters' (reset filters' rollout)).isFiltered := by
  apply Bool.eq_iff_iff.2
  rw [(applyFirst_reset_isFiltered filters rollout).2 h, (applyFirst_reset_isFiltered filters' rollout).2 h']
  exact enforcedOn_congr hp rollout

/-- What the first stage lets through is the survivors it does not drop, unmarked. -/
theorem kept_eq (filters : List (RolloutFilter F)) (survivors : List (Rollout F S)) :
    ((applyFilters filters survivors).filter fun rollout => !rollout.isFiltered).map
        (fun rollout => { rollout with filterResults := [], isFiltered := false }) =
      (survivors.filter fun rollout => !(applyFirst filters (reset filters rollout)).isFiltered).map
        fun rollout => { rollout with filterResults := [], isFiltered := false } := by
  rw [applyFilters_eq, List.filter_map, List.map_map]
  apply List.map_congr_left
  intro rollout _
  obtain ⟨results, hr⟩ := applyFirst_marks filters (reset filters rollout)
  simp only [Function.comp_apply]
  rw [hr]
  rfl

/-- What is stored of the second stage's survivors. -/
theorem stored_eq (tokens : S → Nat) (filters : List (RolloutFilter F)) (survivors : List (Rollout F S)) :
    (((applyFilters filters survivors).filter fun rollout => !rollout.samples.isEmpty).map fun rollout =>
        (⟨if rollout.isFiltered then [] else rollout.samples, (rollout.samples.map tokens).sum⟩ : ProcessedRollout S)) =
      (survivors.filter fun rollout => !rollout.samples.isEmpty).map fun rollout =>
        ⟨if (applyFirst filters (reset filters rollout)).isFiltered then [] else rollout.samples,
          (rollout.samples.map tokens).sum⟩ := by
  have hs : ∀ rollout : Rollout F S, (applyFirst filters (reset filters rollout)).samples = rollout.samples := by
    intro rollout
    obtain ⟨results, hr⟩ := applyFirst_marks filters (reset filters rollout)
    rw [hr]
    rfl
  rw [applyFilters_eq, List.filter_map, List.map_map]
  simp only [Function.comp_def, hs]

/-- **Two stages with the same enforcing filters store the same**, when no rollout's detection is masked in them. -/
theorem processed_congr (tokens : S → Nat) {preFilters preFilters' postFilters postFilters' : List (RolloutFilter F)}
    {survivors : List (Rollout F S)}
    (hpre : (preFilters.filter (·.enforce)).Perm (preFilters'.filter (·.enforce)))
    (hpost : (postFilters.filter (·.enforce)).Perm (postFilters'.filter (·.enforce)))
    (h : ∀ r ∈ survivors, Unmasked preFilters r ∧ Unmasked preFilters' r ∧ Unmasked postFilters r ∧
      Unmasked postFilters' r) :
    processed tokens preFilters postFilters survivors = processed tokens preFilters' postFilters' survivors := by
  have hkept : (survivors.filter fun rollout => !(applyFirst preFilters (reset preFilters rollout)).isFiltered) =
      survivors.filter fun rollout => !(applyFirst preFilters' (reset preFilters' rollout)).isFiltered := by
    apply List.filter_congr
    intro r hr
    rw [isFiltered_congr r hpre (h r hr).1 (h r hr).2.1]
  unfold processed
  simp only [kept_eq, stored_eq, hkept]
  apply List.map_congr_left
  intro unmarked hmem
  obtain ⟨r, hr, rfl⟩ := List.mem_map.1 (List.mem_of_mem_filter hmem)
  have hu := h r (List.mem_of_mem_filter hr)
  rw [isFiltered_congr { r with filterResults := [], isFiltered := false } hpost]
  · simpa only [Unmasked, EnforcedOn, check_marks] using hu.2.2.1
  · simpa only [Unmasked, EnforcedOn, check_marks] using hu.2.2.2

/-- **A rollout is dropped exactly for an enforcing filter's detection, if and only if no monitoring filter masks one**;
and while none does, the monitoring filters and their places make no difference to what is stored for training. -/
theorem filtered_iff_unmasked (filters : List (RolloutFilter F)) (rollouts : List (Rollout F S)) :
    List.Forall₂ (fun rollout out => (out.isFiltered = true ↔ EnforcedOn filters rollout) ↔ Unmasked filters rollout)
      rollouts (applyFilters filters rollouts) ∧
    ∀ (tokens : S → Nat) (filters' postFilters postFilters' : List (RolloutFilter F)),
      (filters.filter (·.enforce)).Perm (filters'.filter (·.enforce)) →
      (postFilters.filter (·.enforce)).Perm (postFilters'.filter (·.enforce)) →
      (∀ r ∈ rollouts, Unmasked filters r ∧ Unmasked filters' r ∧ Unmasked postFilters r ∧ Unmasked postFilters' r) →
      processed tokens filters postFilters rollouts = processed tokens filters' postFilters' rollouts := by
  constructor
  · rw [applyFilters_eq, List.forall₂_map_right_iff]
    apply List.forall₂_same.2
    intro rollout _
    exact applyFirst_reset_isFiltered filters rollout
  · intro tokens filters' postFilters postFilters' hpre hpost h
    exact processed_congr tokens hpre hpost h

/-! ## One masked rollout -/

namespace Sample

def gibberish : RolloutFilter Int := .gibberish "gibberish" 100000 (-17) false

def repetition : RolloutFilter Int := .repetition "repetition" 2 (-1) true

/-- A rare token at high entropy, then two confident ones. -/
def rollout : Rollout Int Nat := ⟨[⟨[120000, 1, 2], [-18, 0, 0], [true, true, true]⟩], [3], none, false, []⟩

end Sample

/-- The monitored gibberish keeps the enforced repetition from being looked for. -/
theorem masked_rollout : ¬ ∀ (filters : List (RolloutFilter Int)) (rollouts : List (Rollout Int Nat)),
    List.Forall₂ (fun rollout out => out.isFiltered = true ↔ EnforcedOn filters rollout) rollouts
      (applyFilters filters rollouts) := by
  intro h
  have h := h [Sample.gibberish, Sample.repetition] [Sample.rollout]
  have heq : applyFilters [Sample.gibberish, Sample.repetition] [Sample.rollout] =
      [{ Sample.rollout with filterResults := [("gibberish", true), ("repetition", false)] }] := by decide
  rw [heq, List.forall₂_cons] at h
  have hr : EnforcedOn [Sample.gibberish, Sample.repetition] Sample.rollout :=
    ⟨Sample.repetition, by simp, by decide, by decide⟩
  exact absurd (h.1.2 hr) (by decide)

/-- Behind the enforced filter the monitored one makes no difference. -/
theorem filtered_iff_unmasked_behind :
    processed id [Sample.repetition] [] [Sample.rollout] =
      processed id [Sample.repetition, Sample.gibberish] [] [Sample.rollout] := by
  apply (filtered_iff_unmasked [Sample.repetition] [Sample.rollout]).2 id [Sample.repetition, Sample.gibberish] [] []
  · decide
  · decide
  · intro r hr
    obtain rfl := List.mem_singleton.1 hr
    have hr : Sample.repetition.check Sample.rollout = true := by decide
    refine ⟨unmasked_cons_of_enforce rfl hr, unmasked_cons_of_enforce rfl hr, ?_, ?_⟩ <;>
      · intro before f after heq
        simp at heq

end RolloutFilters
end Aether
