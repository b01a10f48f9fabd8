import AetherRl.LossStep
import AetherRl.BatchSegments
import Mathlib.Data.List.GetD
/-!
# LossTokens — the tokens of a packed micro-batch are those of its samples, and padding

What the loss reads of a token of a micro-batch is what it reads of the sample's, whatever the pack; padding is in no
component.
-/
namespace Aether
namespace Loss

open Checked Batch

variable {K : Type} [Field K] [LinearOrder K]

/-! ## The tokens of a sample -/

/-- An entry of a stream; the fill, where the sample has none. -/
def streamAt (stream : Option (List K)) (fill : K) (k : Nat) : K :=
  match stream with
  | none => fill
  | some l => l.getD k fill

def tokenAt (s : MicroBatch K) (trainer : Nat → K) (k : Nat) : Token K where
  mask := s.lossMask.getD k false
  advantage := s.advantages.getD k 0
  trainer := trainer k
  inference := s.inferenceLogprobs.getD k 0
  ref := streamAt s.refLogprobs 0 k
  rl := streamAt s.rlWeights 1 k
  ce := streamAt s.ceWeights 0 k
  refKl := streamAt s.refKlWeights 0 k

def sampleTokens (s : MicroBatch K) (trainer : Nat → K) : List (Token K) :=
  (List.range s.inputIds.length).map (tokenAt s trainer)

/-- The samples' tokens, with the trainer's log-probabilities from `offset` on. -/
def packTokens (trainer : List K) : Nat → List (MicroBatch K) → List (Token K)
  | _, [] => []
  | offset, s :: samples =>
    sampleTokens s (fun k => trainer.getD (offset + k) 0) ++ packTokens trainer (offset + s.inputIds.length) samples

/-- A token of padding: an absent stream has its fill there too. -/
def padToken (m : MicroBatch K) (trainer : K) : Token K where
  mask := false
  advantage := 0
  trainer := trainer
  inference := 0
  ref := 0
  rl := if m.rlWeights.isSome then 0 else 1
  ce := 0
  refKl := 0

def padTokens (m : MicroBatch K) (trainer : List K) (offset padding : Nat) : List (Token K) :=
  (List.range padding).map fun k => padToken m (trainer.getD (offset + k) 0)

/-- The tokens of a micro-batch of these samples and this padding. -/
def microBatchTokens (samples : List (MicroBatch K)) (padding : Nat) (m : MicroBatch K) (trainer : List K) :
    List (Token K) :=
  packTokens trainer 0 samples ++ padTokens m trainer (lens samples) padding

theorem map_getD {α : Type} {d : α} : ∀ {n : Nat} {l : List α}, l.length = n → (List.range n).map (l.getD · d) = l
  | n, l, h => by
    refine List.ext_getElem (by simp [h]) fun k h₁ h₂ => ?_
    rw [List.getElem_map, List.getElem_range, List.getD_eq_getElem _ _ h₂]

section
omit [Field K] [LinearOrder K]

theorem map_streamAt {stream : Option (List K)} {fill : K} {n : Nat} (h : ∀ l, stream = some l → l.length = n) :
    (List.range n).map (streamAt stream fill) = stream.getD (List.replicate n fill) := by
  cases stream with
  | none => exact List.map_const'.trans (by rw [List.length_range]; rfl)
  | some l => exact map_getD (h l rfl)

end

section
omit [LinearOrder K]

theorem packTokens_map {α : Type} {f : Token K → α} {g : MicroBatch K → List α} {trainer : List K} :
    ∀ {samples : List (MicroBatch K)} (offset : Nat),
      (∀ s ∈ samples, ∀ t, (sampleTokens s t).map f = g s) → (packTokens trainer offset samples).map f = samples.flatMap g
  | [], _, _ => rfl
  | s :: samples, offset, h => by
    rw [packTokens, List.map_append, h s List.mem_cons_self, List.flatMap_cons,
      packTokens_map _ fun u hu => h u (List.mem_cons_of_mem s hu)]

theorem packTokens_trainer (trainer : List K) : ∀ (samples : List (MicroBatch K)) (offset : Nat),
    (packTokens trainer offset samples).map (·.trainer) =
      (List.range (lens samples)).map fun k => trainer.getD (offset + k) 0
  | [], _ => rfl
  | s :: samples, offset => by
    have hlens : lens (s :: samples) = s.inputIds.length + lens samples := rfl
    rw [packTokens, List.map_append, packTokens_trainer trainer samples, hlens, List.range_add, List.map_append,
      sampleTokens, List.map_map, List.map_map]
    congr 1
    exact List.map_congr_left fun k _ => by rw [Function.comp_apply, Nat.add_assoc]

/-- The stream of a pack, token by token. -/
theorem pack_stream {f : Token K → K} {stream : MicroBatch K → Option (List K)} {fill pad : K}
    {samples : List (MicroBatch K)} {padding : Nat} {trainer : List K} {ps : List (Token K)}
    (hlen : ∀ s ∈ samples, ∀ l, stream s = some l → l.length = s.inputIds.length)
    (hf : ∀ s t k, f (tokenAt s t k) = streamAt (stream s) fill k) (hps : ps.map f = List.replicate padding pad)
    (hpad : pad = if (backfill stream fill samples).isSome then 0 else fill) :
    ((backfill stream fill samples).map (· ++ List.replicate padding 0)).getD
      (List.replicate (packTokens trainer 0 samples ++ ps).length fill) =
        (packTokens trainer 0 samples ++ ps).map f := by
  have hpack : (packTokens trainer 0 samples).map f =
      samples.flatMap fun s => (stream s).getD (List.replicate s.inputIds.length fill) := by
    refine packTokens_map 0 fun s hs t => ?_
    rw [sampleTokens, List.map_map, ← map_streamAt (hlen s hs)]
    exact List.map_congr_left fun k _ => hf s t k
  rw [List.map_append, hpack, hps, hpad, backfill]
  split
  · rfl
  · rename_i hany
    -- no sample has the stream: the fill everywhere
    refine (List.eq_replicate_iff.2 ⟨?_, fun x hx => ?_⟩).symm
    · have hlength : ps.length = padding := by rw [← List.length_map f, hps, List.length_replicate]
      rw [← hpack, List.length_append, List.length_append, List.length_map, List.length_replicate, hlength]
    · rcases List.mem_append.1 hx with hx | hx
      · obtain ⟨s, hs, hx⟩ := List.mem_flatMap.1 hx
        cases hstream : stream s with
        | none =>
          rw [hstream, Option.getD_none] at hx
          exact List.eq_of_mem_replicate hx
        | some l => exact absurd (List.any_eq_true.2 ⟨s, hs, by rw [hstream]; rfl⟩) hany
      · exact List.eq_of_mem_replicate hx

end

section
omit [LinearOrder K]

/-- **The tokens of a prepared sample describe it.** -/
theorem sampleTokens_describes {s : MicroBatch K} (h : Aligned s) (own : Nat → K) :
    Describes (wholeSequence s ((List.range s.inputIds.length).map own)) (sampleTokens s own) := by
  have hmap : ∀ {α : Type} (f : Token K → α), (sampleTokens s own).map f =
      (List.range s.inputIds.length).map fun k => f (tokenAt s own k) := fun f => by
    rw [sampleTokens, List.map_map]
    rfl
  have hlen : (sampleTokens s own).length = s.inputIds.length := by rw [sampleTokens, List.length_map, List.length_range]
  exact {
    trainerLogprobs := (hmap (·.trainer)).symm
    inferenceLogprobs := (map_getD h.inferenceLogprobs).symm.trans (hmap (·.inference)).symm
    advantages := (map_getD h.advantages).symm.trans (hmap (·.advantage)).symm
    lossMask := (map_getD h.lossMask).symm.trans (hmap (·.mask)).symm
    refLogprobs := by rw [hlen, hmap]; exact (map_streamAt h.refLogprobs).symm
    rlWeights := by rw [hlen, hmap]; exact (map_streamAt h.rlWeights).symm
    ceWeights := by rw [hlen, hmap]; exact (map_streamAt h.ceWeights).symm
    refKlWeights := by rw [hlen, hmap]; exact (map_streamAt h.refKlWeights).symm }

/-- **The tokens of a packed micro-batch are those of its samples and padding.** -/
theorem microBatchTokens_describes {np : Numpy} {samples : List (MicroBatch K)} {padding : Nat} {m : MicroBatch K}
    {trainer : List K} (h : Packs np samples padding m) (hs : ∀ s ∈ samples, Aligned s)
    (ht : trainer.length = m.inputIds.length) :
    Describes (wholeSequence m trainer) (microBatchTokens samples padding m trainer) := by
  have hids : m.inputIds.length = lens samples + padding := by
    rw [h.inputIds, List.length_append, length_flatMap_of fun _ _ => rfl, List.length_replicate]
    rfl
  have hpads : ∀ {α : Type} {f : Token K → α} {pad : α}, (∀ k, f (padToken m k) = pad) →
      (padTokens m trainer (lens samples) padding).map f = List.replicate padding pad := by
    intro α f pad hpad
    rw [padTokens, List.map_map]
    refine List.eq_replicate_iff.2 ⟨by rw [List.length_map, List.length_range], fun x hx => ?_⟩
    obtain ⟨k, -, rfl⟩ := List.mem_map.1 hx
    exact hpad _
  -- an array of the samples, padded
  have array : ∀ {α : Type} {f : Token K → α} {g : MicroBatch K → List α} {l : List α} {pad d : α},
      l = samples.flatMap g ++ List.replicate padding pad → (∀ s ∈ samples, (g s).length = s.inputIds.length) →
      (∀ s t k, f (tokenAt s t k) = (g s).getD k d) → (∀ k, f (padToken m k) = pad) →
      l = (microBatchTokens samples padding m trainer).map f := by
    intro α f g l pad d hl hg hf hpad
    have hpack : (packTokens trainer 0 samples).map f = samples.flatMap g := packTokens_map 0 fun s hs' t => by
      rw [sampleTokens, List.map_map, ← map_getD (hg s hs')]
      exact List.map_congr_left fun k _ => hf s t k
    rw [hl, microBatchTokens, List.map_append, hpack, hpads hpad]
  have zeros : ∀ {stream : MicroBatch K → Option (List K)}, (0 : K) =
      if (backfill stream 0 samples).isSome then 0 else 0 := (ite_self _).symm
  exact {
    trainerLogprobs := by
      have hpad : (padTokens m trainer (lens samples) padding).map (·.trainer) =
          (List.range padding).map fun k => trainer.getD (lens samples + k) 0 := by rw [padTokens, List.map_map]; rfl
      rw [microBatchTokens, List.map_append, packTokens_trainer, hpad]
      refine (map_getD (d := 0) (ht.trans hids)).symm.trans ?_
      rw [List.range_add, List.map_append, List.map_map]
      congr 1
      exact List.map_congr_left fun k _ => by rw [Nat.zero_add]
    inferenceLogprobs := array h.inferenceLogprobs (fun s hs' => (hs s hs').inferenceLogprobs) (fun _ _ _ => rfl)
      fun _ => rfl
    advantages := array h.advantages (fun s hs' => (hs s hs').advantages) (fun _ _ _ => rfl) fun _ => rfl
    lossMask := array h.lossMask (fun s hs' => (hs s hs').lossMask) (fun _ _ _ => rfl) fun _ => rfl
    refLogprobs := by
      rw [wholeSequence, h.refLogprobs]
      exact pack_stream (fun s hs' => (hs s hs').refLogprobs) (fun _ _ _ => rfl) (hpads fun _ => rfl) zeros
    rlWeights := by
      rw [wholeSequence, h.rlWeights]
      refine pack_stream (fun s hs' => (hs s hs').rlWeights) (fun _ _ _ => rfl) (hpads fun _ => rfl) ?_
      rw [h.rlWeights, Option.isSome_map]
      rfl
    ceWeights := by
      rw [wholeSequence, h.ceWeights]
      exact pack_stream (fun s hs' => (hs s hs').ceWeights) (fun _ _ _ => rfl) (hpads fun _ => rfl) zeros
    refKlWeights := by
      rw [wholeSequence, h.refKlWeights]
      exact pack_stream (fun s hs' => (hs s hs').refKlWeights) (fun _ _ _ => rfl) (hpads fun _ => rfl) zeros }

end

/-! ## The loss of a packed micro-batch -/

/-- Some component trains the token. -/
def Token.Member (t : Token K) : Prop := t.mask = true ∧ t.rl ≠ 0 ∨ t.ce ≠ 0 ∨ t.refKl ≠ 0

/-- The trainer's log-probabilities of a packed micro-batch: of a token that some component trains, the sample's own. -/
structure Agrees (own : MicroBatch K → Nat → K) (samples : List (MicroBatch K)) (m : MicroBatch K) (trainer : List K) :
    Prop where
  length : trainer.length = m.inputIds.length
  own : ∀ before s after, samples = before ++ s :: after → ∀ k < s.inputIds.length,
    (tokenAt s (own s) k).Member → trainer[lens before + k]? = some (own s k)

/-- The loss of a sample, whatever the pack it is in. -/
def sampleLoss (exp : K → K) (config : LossConfig K) (scales : Scales) (own : MicroBatch K → Nat → K)
    (s : MicroBatch K) : K := tokensLoss exp config scales (sampleTokens s (own s))

/-- **Only the log-probabilities of tokens that some component trains are read.** -/
theorem sampleTokens_loss {exp : K → K} {config : LossConfig K} {scales : Scales} {s : MicroBatch K}
    {own trainer : Nat → K} (h : ∀ k < s.inputIds.length, (tokenAt s own k).Member → trainer k = own k) :
    tokensLoss exp config scales (sampleTokens s trainer) = tokensLoss exp config scales (sampleTokens s own) := by
  have hterm : ∀ {f : Token K → K}, (∀ k < s.inputIds.length, f (tokenAt s trainer k) = f (tokenAt s own k)) →
      (sampleTokens s trainer).map f = (sampleTokens s own).map f := by
    intro f hf
    rw [sampleTokens, sampleTokens, List.map_map, List.map_map]
    exact List.map_congr_left fun k hk => hf k (List.mem_range.1 hk)
  have hrl : (sampleTokens s trainer).map (Token.rlTerm (config.tokenLoss exp)) =
      (sampleTokens s own).map (Token.rlTerm (config.tokenLoss exp)) := hterm fun k hk => by
    by_cases hmember : (tokenAt s own k).mask = true ∧ (tokenAt s own k).rl ≠ 0
    · have heq : tokenAt s trainer k = tokenAt s own k := by rw [tokenAt, h k hk (.inl hmember), tokenAt]
      rw [heq]
    · rcases not_and_or.1 hmember with hmask | hweight
      · have hmask : s.lossMask.getD k false = false := Bool.not_eq_true _ ▸ hmask
        simp only [Token.rlTerm, tokenAt, hmask, tokenLoss_false, zero_mul]
      · have hweight : streamAt s.rlWeights 1 k = 0 := not_not.1 hweight
        simp only [Token.rlTerm, tokenAt, hweight, mul_zero]
  have hce : (sampleTokens s trainer).map Token.ceTerm = (sampleTokens s own).map Token.ceTerm := hterm fun k hk => by
    by_cases hweight : streamAt s.ceWeights 0 k = 0
    · simp only [Token.ceTerm, tokenAt, hweight, mul_zero]
    · simp only [Token.ceTerm, tokenAt, h k hk (.inr (.inl hweight))]
  have hkl : (sampleTokens s trainer).map (Token.refKlTerm exp) = (sampleTokens s own).map (Token.refKlTerm exp) :=
    hterm fun k hk => by
      by_cases hweight : streamAt s.refKlWeights 0 k = 0
      · simp only [Token.refKlTerm, tokenAt, hweight, mul_zero]
      · simp only [Token.refKlTerm, tokenAt, h k hk (.inr (.inr hweight))]
  rw [tokensLoss, tokensLoss, hrl, hce, hkl]

theorem tokensLoss_nil (exp : K → K) (config : LossConfig K) (scales : Scales) :
    tokensLoss exp config scales ([] : List (Token K)) = 0 := by
  simp [tokensLoss, Losses.scaled]

theorem packTokens_loss {exp : K → K} {config : LossConfig K} {scales : Scales} {own : MicroBatch K → Nat → K}
    {all : List (MicroBatch K)} {m : MicroBatch K} {trainer : List K} (h : Agrees own all m trainer) :
    ∀ (samples before : List (MicroBatch K)), all = before ++ samples →
      tokensLoss exp config scales (packTokens trainer (lens before) samples) =
        (samples.map (sampleLoss exp config scales own)).sum
  | [], _, _ => tokensLoss_nil exp config scales
  | s :: samples, before, hall => by
    have hlens : lens (before ++ [s]) = lens before + s.inputIds.length := by simp [lens]
    have ih : tokensLoss exp config scales (packTokens trainer (lens (before ++ [s])) samples) = _ :=
      packTokens_loss h samples (before ++ [s]) (by rw [hall, List.append_assoc, List.singleton_append])
    rw [packTokens, tokensLoss_append, List.map_cons, List.sum_cons, ← ih, hlens, sampleLoss]
    congr 1
    refine sampleTokens_loss fun k hk hmember => ?_
    rw [List.getD_eq_getElem?_getD, h.own before s samples hall k hk hmember, Option.getD_some]

/-- **The loss of a packed micro-batch is the sum of its samples' losses**: padding adds nothing. -/
theorem microBatchTokens_loss {exp : K → K} {config : LossConfig K} {scales : Scales} {own : MicroBatch K → Nat → K}
    {samples : List (MicroBatch K)} {padding : Nat} {m : MicroBatch K} {trainer : List K}
    (h : Agrees own samples m trainer) :
    tokensLoss exp config scales (microBatchTokens samples padding m trainer) =
      (samples.map (sampleLoss exp config scales own)).sum := by
  have hpads : tokensLoss exp config scales (padTokens m trainer (lens samples) padding) = 0 := by
    have hzero : ∀ {f : Token K → K}, (∀ k, f (padToken m k) = 0) →
        ((padTokens m trainer (lens samples) padding).map f).sum = 0 := fun hf => sum_map_zero fun t ht => by
      obtain ⟨k, -, rfl⟩ := List.mem_map.1 ht
      exact hf _
    rw [tokensLoss, hzero fun k => by rw [Token.rlTerm, padToken, tokenLoss_false, zero_mul],
      hzero fun k => by rw [Token.ceTerm, padToken, mul_zero],
      hzero fun k => by rw [Token.refKlTerm, padToken, mul_zero]]
    simp [Losses.scaled]
  rw [microBatchTokens, tokensLoss_append, hpads, add_zero]
  exact packTokens_loss h samples [] rfl

end Loss
end Aether
