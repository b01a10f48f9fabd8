import AetherRl.BatchSample
/-!
# BatchStamp — what is stamped on samples before they are batched

The loss routing of `orchestrator/algo/routing.py`, which is all that writes ref_kl weights, and the temperature of
`ResultProcessor`.  Truncation keeps what they promise.
-/
namespace Aether
namespace Batch

open Checked

variable {F : Type}

inductive ActionLossType
  | rl
  | ce
  | refKl
deriving DecidableEq

/-- `for i, trains in enumerate(mask): if trains: weights[i] = 1.0`. -/
def weightActions [One F] : List Bool → List F → Except Error (List F)
  | [], weights => .ok weights
  | trains :: mask, [] => if trains then .error .index else weightActions mask []
  | trains :: mask, w :: weights => do
    let rest ← weightActions mask weights
    .ok ((if trains then 1 else w) :: rest)

def stampLossRouting [Zero F] [One F] (sample : TrainingSample F) (actionLossType : ActionLossType) :
    Except Error (TrainingSample F) :=
  let zeros := List.replicate sample.tokenIds.length 0
  match actionLossType with
  | .rl => .ok sample
  | .ce => do
    let actionWeights ← weightActions sample.mask (sample.ceWeights.getD zeros)
    .ok { sample with rlWeights := some zeros, ceWeights := some actionWeights }
  | .refKl => do
    let actionWeights ← weightActions sample.mask zeros
    .ok { sample with rlWeights := some zeros, refKlWeights := some actionWeights }

/-- `sample.temperatures = [temperature] * len(sample.token_ids)`. -/
def stampTemperature (sample : TrainingSample F) (temperature : F) : TrainingSample F :=
  { sample with temperatures := List.replicate sample.tokenIds.length temperature }

/-- No token out of the mask has a ref_kl weight. -/
def RefKlOnMask [Zero F] (mask : List Bool) (refKlWeights : Option (List F)) : Prop :=
  ∀ w, refKlWeights = some w → ∀ (k : Nat) x, mask[k]? = some false → w[k]? = some x → x = 0

theorem weightActions_nil [One F] : ∀ (mask : List Bool) {w : List F}, weightActions mask [] = .ok w → w = []
  | [], _, h => by
    cases h
    rfl
  | true :: _, _, h => by cases h
  | false :: mask, _, h => weightActions_nil mask h

/-- **A token out of the mask keeps the weight it had.** -/
theorem weightActions_unmasked [One F] : ∀ {mask : List Bool} {weights w : List F}, weightActions mask weights = .ok w →
    ∀ k : Nat, mask[k]? = some false → w[k]? = weights[k]?
  | [], _, _, _, k, hm => by cases hm
  | trains :: mask, [], w, h, k, hm => by rw [weightActions_nil _ h]
  | trains :: mask, x :: weights, w, h, k, hm => by
    rw [weightActions, bind_eq_ok] at h
    obtain ⟨rest, hrest, h⟩ := h
    cases h
    cases k with
    | zero =>
      rw [List.getElem?_cons_zero, Option.some.injEq] at hm
      subst hm
      rfl
    | succ k => exact weightActions_unmasked hrest k hm

/-- **The stamped weights of the ref_kl component are on the mask.** -/
theorem stampLossRouting_refKl [Zero F] [One F] {sample stamped : TrainingSample F} {t : ActionLossType}
    (hnone : sample.refKlWeights = none) (h : stampLossRouting sample t = .ok stamped) :
    RefKlOnMask stamped.mask stamped.refKlWeights := by
  intro w hw k x hm hx
  cases t with
  | rl =>
    cases h
    rw [hnone] at hw
    cases hw
  | ce =>
    obtain ⟨_, -, h⟩ := bind_eq_ok.1 h
    cases h
    rw [hnone] at hw
    cases hw
  | refKl =>
    obtain ⟨weights, hweights, h⟩ := bind_eq_ok.1 h
    cases h
    cases hw
    rw [weightActions_unmasked hweights k hm] at hx
    exact List.eq_of_mem_replicate (List.mem_of_getElem? hx)

/-! ## Through truncation -/

/-- What a prepared sample keeps of its sample: a first part of every array. -/
theorem prepareSample_cut [Zero F] [DecidableEq F] {np : Numpy} {s : TrainingSample F} {seqLen : Nat} {m : MicroBatch F}
    (h : prepareSample np s seqLen = .ok m) : ∃ cut, m.inputIds = s.tokenIds.take cut ∧ m.lossMask = s.mask.take cut ∧
      m.temperatures = s.temperatures.take cut ∧ m.refKlWeights = s.refKlWeights.map (·.take cut) := by
  unfold prepareSample at h
  split at h
  · cases h
  simp only [bind_eq_ok, Except.ok.injEq] at h
  obtain ⟨advantages, -, _, -, c, hc, _, -, rfl⟩ := h
  rcases truncate_eq_ok hc with ⟨-, rfl⟩ | ⟨cut, routed, kwargs, -, rfl⟩
  · -- nothing is cut
    refine ⟨s.tokenIds.length + s.mask.length + s.temperatures.length + ((s.refKlWeights.map List.length).getD 0),
      (List.take_of_length_le ?_).symm, (List.take_of_length_le ?_).symm, (List.take_of_length_le ?_).symm, ?_⟩
    · show s.tokenIds.length ≤ _
      omega
    · show s.mask.length ≤ _
      omega
    · show s.temperatures.length ≤ _
      omega
    cases hkl : s.refKlWeights with
    | none => exact hkl
    | some w =>
      rw [Option.map_some, List.take_of_length_le (by rw [Option.map_some, Option.getD_some]; omega)]
      exact hkl
  · exact ⟨cut, rfl, rfl, rfl, rfl⟩

/-- **One temperature stays one temperature.** -/
theorem prepareSample_temperature [Zero F] [DecidableEq F] {np : Numpy} {s : TrainingSample F} {seqLen : Nat}
    {m : MicroBatch F} {temperature : F} (h : prepareSample np s seqLen = .ok m)
    (ht : s.temperatures = List.replicate s.tokenIds.length temperature) :
    m.temperatures = List.replicate m.inputIds.length temperature := by
  obtain ⟨cut, hids, -, htemp, -⟩ := prepareSample_cut h
  rw [htemp, ht, hids, List.take_replicate, List.length_take]

/-- **What is on the mask stays on the mask.** -/
theorem prepareSample_refKl [Zero F] [DecidableEq F] {np : Numpy} {s : TrainingSample F} {seqLen : Nat} {m : MicroBatch F}
    (h : prepareSample np s seqLen = .ok m) (hkl : RefKlOnMask s.mask s.refKlWeights) :
    RefKlOnMask m.lossMask m.refKlWeights := by
  obtain ⟨cut, -, hmask, -, hweights⟩ := prepareSample_cut h
  intro w hw k x hm hx
  rw [hweights] at hw
  obtain ⟨w', hw', rfl⟩ := Option.map_eq_some_iff.1 hw
  have hk : k < cut := by
    have hlt := (List.getElem?_eq_some_iff.1 hx).1
    rw [List.length_take] at hlt
    omega
  rw [hmask, List.getElem?_take_of_lt hk] at hm
  rw [List.getElem?_take_of_lt hk] at hx
  exact hkl w' hw' k x hm hx

end Batch
end Aether
