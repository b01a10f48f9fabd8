import AetherRl.LossPacking
import AetherRl.BatchStamp
/-!
# LossLogprobs — packed log-probabilities are the samples' own

The forward pass of `trainer/rl/train.py`: labels shifted left, inputs, labels and temperatures sharded over the
context-parallel ranks, log-probabilities gathered and shifted right, and split at the sequence lengths.
-/
namespace Aether
namespace Loss

open Checked Batch

variable {K L : Type}

/-! ## The forward pass -/

def shiftTensorLeft {α : Type} [Zero α] (row : List α) : List α := row.drop 1 ++ [0]

def shiftTensorRight {α : Type} (row : List α) (padValue : α) : List α := padValue :: row.dropLast

/-- `torch.chunk(t, size)[rank]`, of a row whose length is divisible. -/
def chunk {α : Type} (size rank : Nat) (row : List α) : List α :=
  (row.drop (rank * (row.length / size))).take (row.length / size)

def shardForCp {α : Type} (row : List α) (cpRank cpWorldSize : Nat) : Except Error (List α) := do
  raiseUnless (row.length % cpWorldSize = 0)
    (.value s!"CP requires sequence dimension 1 to be divisible by cp size: shape=(1, {row.length}), cp_size={cpWorldSize}; uneven shards deadlock CP collectives (e.g. ulysses all-to-all)")
  .ok (chunk cpWorldSize cpRank row)

/-- A model: for a micro-batch, its input tokens sharded over the ranks, the distributions that a rank computes. -/
abbrev Model (K L : Type) := MicroBatch K → List (List Int) → Nat → List L

/-- `selective_log_softmax(logits / temperature, labels)`, or the same out of the model. -/
def selectiveLogSoftmax (logProb : L → K → Int → K) (logits : List L) (temperatures : List K) (labels : List Int) :
    List K := (logits.zip temperatures).zipWith (fun p label => logProb p.1 p.2 label) labels

def rankLogprobs (model : Model K L) (logProb : L → K → Int → K) (m : MicroBatch K) (shards : List (List Int))
    (cp rank : Nat) : Except Error (List K) := do
  let labels ← shardForCp (shiftTensorLeft m.inputIds) rank cp
  let temperatures ← shardForCp m.temperatures rank cp
  .ok (selectiveLogSoftmax logProb (model m shards rank) temperatures labels)

/-- The log-probabilities of a micro-batch, those of all ranks gathered. -/
def forwardLogprobs (model : Model K L) (logProb : L → K → Int → K) (cp : Nat) (m : MicroBatch K) :
    Except Error (List K) :=
  if 1 < cp then do
    let shards ← (List.range cp).mapM fun rank => shardForCp m.inputIds rank cp
    let parts ← (List.range cp).mapM (rankLogprobs model logProb m shards cp)
    .ok parts.flatten
  else .ok (selectiveLogSoftmax logProb (model m [m.inputIds] 0) m.temperatures (shiftTensorLeft m.inputIds))

/-- What the train loop hands to `compute_loss` for a micro-batch. -/
def handedSequences (model : Model K L) (logProb : L → K → Int → K) (padValue : K) (cp : Nat) (m : MicroBatch K) :
    Except Error (List (SequenceTensors K)) := do
  let logprobs ← forwardLogprobs model logProb cp m
  sequenceTensors m (shiftTensorRight logprobs padValue)

/-! ## Packed sequences -/

/-- The tokens of the packed sequence that has token `i`, up to it. -/
def prefixAt : List Nat → List Int → Nat → List Int
  | [], ids, i => ids.take (i + 1)
  | n :: seqLens, ids, i => if i < n then ids.take (i + 1) else prefixAt seqLens (ids.drop n) (i - n)

/-- **The distribution after a token depends on the tokens of its packed sequence up to it, and on nothing else.** -/
def Local (model : Model K L) (next : List Int → L) : Prop :=
  ∀ m shards, m.seqLens.sum = shards.flatten.length → ∀ rank shard, shards[rank]? = some shard →
    model m shards rank = (List.range shard.length).map fun k =>
      next (prefixAt m.seqLens shards.flatten ((shards.take rank).flatten.length + k))

/-! ## Chunks -/

theorem chunks_take {α : Type} (l : List α) (c : Nat) : ∀ k : Nat,
    ((List.range k).map fun rank => (l.drop (rank * c)).take c).flatten = l.take (k * c)
  | 0 => by simp
  | k + 1 => by
    rw [List.range_succ, List.map_append, List.flatten_append, chunks_take l c k, List.map_singleton,
      List.flatten_singleton, Nat.succ_mul, List.take_add]

/-- **The chunks of a row, one after the other, are the row.** -/
theorem chunks_flatten {α : Type} {l : List α} {cp : Nat} (h : l.length % cp = 0) :
    ((List.range cp).map fun rank => chunk cp rank l).flatten = l := by
  have hlen : cp * (l.length / cp) = l.length := Nat.mul_div_cancel' (Nat.dvd_of_mod_eq_zero h)
  refine (chunks_take l (l.length / cp) cp).trans ?_
  rw [hlen, List.take_length]

theorem chunk_length {α : Type} {l : List α} {cp rank : Nat} (h : l.length % cp = 0) (hrank : rank < cp) :
    (chunk cp rank l).length = l.length / cp := by
  have hlen : cp * (l.length / cp) = l.length := Nat.mul_div_cancel' (Nat.dvd_of_mod_eq_zero h)
  have hle : (rank + 1) * (l.length / cp) ≤ cp * (l.length / cp) := Nat.mul_le_mul_right _ hrank
  rw [Nat.succ_mul] at hle
  rw [chunk, List.length_take, List.length_drop]
  omega

theorem shardForCp_of {α : Type} {l : List α} {cp rank : Nat} (h : l.length % cp = 0) :
    shardForCp l rank cp = .ok (chunk cp rank l) := by
  rw [shardForCp, raiseUnless_of _ h, ok_bind]

/-- Rank by rank and then gathered is all at once. -/
theorem selective_chunks {logProb : L → K → Int → K} {logits : List L} {temperatures : List K} {labels : List Int}
    {cp rank : Nat} (ht : temperatures.length = logits.length) (hl : labels.length = logits.length) :
    selectiveLogSoftmax logProb (chunk cp rank logits) (chunk cp rank temperatures) (chunk cp rank labels) =
      chunk cp rank (selectiveLogSoftmax logProb logits temperatures labels) := by
  have hlen : (selectiveLogSoftmax logProb logits temperatures labels).length = logits.length := by
    rw [selectiveLogSoftmax, List.length_zipWith, List.length_zip, ht, hl, Nat.min_self, Nat.min_self]
  simp only [chunk, hlen, ht, hl]
  simp only [selectiveLogSoftmax, List.take_zipWith, List.drop_zipWith, List.zip]

/-! ## What the forward pass computes -/

section
variable {model : Model K L} {next : List Int → L} {logProb : L → K → Int → K} {m : MicroBatch K} {cp : Nat}

/-- The distributions of a whole micro-batch. -/
def packedLogits (next : List Int → L) (m : MicroBatch K) : List L :=
  (List.range m.inputIds.length).map fun i => next (prefixAt m.seqLens m.inputIds i)

theorem packedLogits_length : (packedLogits next m).length = m.inputIds.length := by
  rw [packedLogits, List.length_map, List.length_range]

/-- The ranks' shards of the input tokens. -/
def inputShards (cp : Nat) (m : MicroBatch K) : List (List Int) :=
  (List.range cp).map fun rank => chunk cp rank m.inputIds

/-- **A rank computes its chunk of the distributions.** -/
theorem model_chunk (hlocal : Local model next) (h : Aligned m) (hdiv : m.inputIds.length % cp = 0) {rank : Nat}
    (hrank : rank < cp) : model m (inputShards cp m) rank = chunk cp rank (packedLogits next m) := by
  have hflat : (inputShards cp m).flatten = m.inputIds := chunks_flatten hdiv
  have hshard : (inputShards cp m)[rank]? = some (chunk cp rank m.inputIds) := by
    rw [inputShards, List.getElem?_map, List.getElem?_range hrank, Option.map_some]
  have hbefore : ((inputShards cp m).take rank).flatten.length = rank * (m.inputIds.length / cp) := by
    have hlen : cp * (m.inputIds.length / cp) = m.inputIds.length := Nat.mul_div_cancel' (Nat.dvd_of_mod_eq_zero hdiv)
    have hle : rank * (m.inputIds.length / cp) ≤ cp * (m.inputIds.length / cp) := Nat.mul_le_mul_right _ hrank.le
    rw [inputShards, ← List.map_take, List.take_range, Nat.min_eq_left hrank.le]
    refine (congrArg List.length (chunks_take m.inputIds (m.inputIds.length / cp) rank)).trans ?_
    rw [List.length_take]
    omega
  have hlogits : (packedLogits next m).length % cp = 0 := by rw [packedLogits_length]; exact hdiv
  rw [hlocal m _ (by rw [hflat]; exact h.seqLens) rank _ hshard, hflat, hbefore]
  refine List.ext_getElem ?_ fun k h₁ h₂ => ?_
  · rw [List.length_map, List.length_range, chunk_length hdiv hrank, chunk_length hlogits hrank, packedLogits_length]
  · rw [List.getElem_map, List.getElem_range]
    simp only [chunk, List.getElem_take, List.getElem_drop, packedLogits_length]
    simp only [packedLogits, List.getElem_map, List.getElem_range]

/-- **The gathered log-probabilities are those of the whole micro-batch**, whatever the number of ranks. -/
theorem forwardLogprobs_eq (hlocal : Local model next) (h : Aligned m) (hne : m.inputIds ≠ [])
    (hdiv : m.inputIds.length % cp = 0) : forwardLogprobs model logProb cp m =
      .ok (selectiveLogSoftmax logProb (packedLogits next m) m.temperatures (shiftTensorLeft m.inputIds)) := by
  have hpos := List.length_pos_iff.2 hne
  have hlabels : (shiftTensorLeft m.inputIds).length = m.inputIds.length := by
    rw [shiftTensorLeft, List.length_append, List.length_drop, List.length_singleton]
    omega
  have hlogits : (packedLogits next m).length = m.inputIds.length := packedLogits_length
  unfold forwardLogprobs
  split
  · have hshards : ((List.range cp).mapM fun rank => shardForCp m.inputIds rank cp) =
        (.ok (inputShards cp m) : Except Error _) := mapM_of_forall fun rank _ => shardForCp_of hdiv
    have hranks : ∀ rank ∈ List.range cp, rankLogprobs model logProb m (inputShards cp m) cp rank =
        .ok (chunk cp rank (selectiveLogSoftmax logProb (packedLogits next m) m.temperatures
          (shiftTensorLeft m.inputIds))) := by
      intro rank hrank
      rw [rankLogprobs, shardForCp_of (by rw [hlabels]; exact hdiv), ok_bind,
        shardForCp_of (by rw [h.temperatures]; exact hdiv), ok_bind, model_chunk hlocal h hdiv (List.mem_range.1 hrank),
        selective_chunks (h.temperatures.trans hlogits.symm) (hlabels.trans hlogits.symm)]
    rw [hshards, ok_bind, mapM_of_forall hranks, ok_bind, chunks_flatten]
    rw [selectiveLogSoftmax, List.length_zipWith, List.length_zip, hlogits, h.temperatures, hlabels, Nat.min_self,
      Nat.min_self]
    exact hdiv
  · have hone : model m [m.inputIds] 0 = packedLogits next m := by
      rw [hlocal m [m.inputIds] (by simpa using h.seqLens) 0 m.inputIds rfl, packedLogits]
      simp
    rw [hone]

/-- **The value at a token is the log-probability that the token before it gives its label.** -/
theorem shifted_getElem {padValue temperature : K} {label : Int} {i : Nat} (h : Aligned m)
    (ht : m.temperatures[i]? = some temperature) (hl : m.inputIds[i + 1]? = some label) :
    (shiftTensorRight (selectiveLogSoftmax logProb (packedLogits next m) m.temperatures (shiftTensorLeft m.inputIds))
      padValue)[i + 1]? = some (logProb (next (prefixAt m.seqLens m.inputIds i)) temperature label) := by
  have hlt : i + 1 < m.inputIds.length := (List.getElem?_eq_some_iff.1 hl).1
  have hlabel : (shiftTensorLeft m.inputIds)[i]? = some label := by
    have hdrop : i < (m.inputIds.drop 1).length := by
      rw [List.length_drop]
      omega
    rw [shiftTensorLeft, List.getElem?_append_left hdrop, List.getElem?_drop, Nat.add_comm, hl]
  have hlogit : (packedLogits next m)[i]? = some (next (prefixAt m.seqLens m.inputIds i)) := by
    rw [packedLogits, List.getElem?_map, List.getElem?_range (by omega), Option.map_some]
  have hvalue : (selectiveLogSoftmax logProb (packedLogits next m) m.temperatures (shiftTensorLeft m.inputIds))[i]? =
      some (logProb (next (prefixAt m.seqLens m.inputIds i)) temperature label) := by
    rw [selectiveLogSoftmax, List.getElem?_zipWith_eq_some]
    exact ⟨(_, temperature), label, List.getElem?_zip_eq_some.2 ⟨hlogit, ht⟩, hlabel, rfl⟩
  have hlast : i < (selectiveLogSoftmax logProb (packedLogits next m) m.temperatures
      (shiftTensorLeft m.inputIds)).length - 1 := by
    rw [selectiveLogSoftmax, List.length_zipWith, List.length_zip, packedLogits_length, h.temperatures, shiftTensorLeft,
      List.length_append, List.length_drop, List.length_singleton]
    omega
  rw [shiftTensorRight, List.getElem?_cons_succ, List.getElem?_dropLast, if_pos hlast, hvalue]

theorem shifted_length {padValue : K} (h : Aligned m) (hne : m.inputIds ≠ []) :
    (shiftTensorRight (selectiveLogSoftmax logProb (packedLogits next m) m.temperatures (shiftTensorLeft m.inputIds))
      padValue).length = m.inputIds.length := by
  have hpos := List.length_pos_iff.2 hne
  rw [shiftTensorRight, List.length_cons, List.length_dropLast, selectiveLogSoftmax, List.length_zipWith,
    List.length_zip, packedLogits_length, h.temperatures, shiftTensorLeft, List.length_append, List.length_drop,
    List.length_singleton]
  omega

end

/-! ## Parts of a pack -/

/-- A part starts where the parts before it end. -/
theorem split_getElem : ∀ (lengths : List Nat) (s : SequenceTensors K) (k : Nat),
    (s.split lengths)[k]? = (lengths[k]?).map fun n => (s.drop (lengths.take k).sum).take n
  | [], _, k => by simp [SequenceTensors.split]
  | n :: lengths, s, 0 => by
    have hdrop : s.drop 0 = s := by
      simp only [SequenceTensors.drop, List.drop_zero, Option.map_id']
    rw [SequenceTensors.split, List.getElem?_cons_zero, List.getElem?_cons_zero, Option.map_some, List.take_zero,
      List.sum_nil, hdrop]
  | n :: lengths, s, k + 1 => by
    have hdrop : ∀ a, (s.drop n).drop a = s.drop (n + a) := fun a => by
      simp only [SequenceTensors.drop, List.drop_drop, Option.map_map, Function.comp_def]
    rw [SequenceTensors.split, List.getElem?_cons_succ, List.getElem?_cons_succ, split_getElem lengths, List.take_succ_cons,
      List.sum_cons]
    simp only [hdrop]

/-- The lengths of a padded pack: a sample's own, or more for the last one. -/
theorem lastPlus_append (n : Nat) : ∀ (before : List Nat) (k : Nat) (after : List Nat), ∃ k' rest,
    lastPlus n (before ++ k :: after) = before ++ k' :: rest ∧ k ≤ k'
  | [], k, [] => ⟨k + n, [], rfl, Nat.le_add_right k n⟩
  | [], k, k' :: after => ⟨k, _, rfl, le_rfl⟩
  | [b], k, after => by
    obtain ⟨k', rest, heq, hle⟩ := lastPlus_append n [] k after
    exact ⟨k', rest, congrArg (b :: ·) heq, hle⟩
  | b :: b' :: before, k, after => by
    obtain ⟨k', rest, heq, hle⟩ := lastPlus_append n (b' :: before) k after
    exact ⟨k', rest, congrArg (b :: ·) heq, hle⟩

theorem prefixAt_append : ∀ (before : List Nat) (seqLens : List Nat) (ids : List Int) (i : Nat),
    prefixAt (before ++ seqLens) ids (before.sum + i) = prefixAt seqLens (ids.drop before.sum) i
  | [], seqLens, ids, i => by simp
  | n :: before, seqLens, ids, i => by
    have ih := prefixAt_append before seqLens (ids.drop n) i
    have hlt : ¬ n + before.sum + i < n := by omega
    have hsub : n + before.sum + i - n = before.sum + i := by omega
    rw [List.cons_append, List.sum_cons, prefixAt, if_neg hlt, hsub, ih, List.drop_drop]

/-- The tokens, temperatures and lengths of a micro-batch are its samples', and padding; true of a dummy too. -/
structure Spans [One K] (samples : List (MicroBatch K)) (padding : Nat) (m : MicroBatch K) : Prop where
  aligned : Aligned m
  inputIds : m.inputIds = samples.flatMap (·.inputIds) ++ List.replicate padding 1
  temperatures : m.temperatures = samples.flatMap (·.temperatures) ++ List.replicate padding 1
  sequenceLengths : m.sequenceLengths = lastPlus padding (samples.map (·.inputIds.length))
  seqLens : m.seqLens = lastPlus padding (samples.map (·.inputIds.length))

/-- An array of a pack, from a sample on. -/
theorem getElem_pack {α : Type} {f : MicroBatch K → List α} {before after : List (MicroBatch K)} {s : MicroBatch K}
    {pad : List α} {i : Nat} {a : α} (hbefore : ∀ u ∈ before, (f u).length = u.inputIds.length)
    (ha : (f s)[i]? = some a) : ((before ++ s :: after).flatMap f ++ pad)[lens before + i]? = some a := by
  have hlen : (before.flatMap f).length = lens before := length_flatMap_of hbefore
  have hi : i < (f s).length := (List.getElem?_eq_some_iff.1 ha).1
  rw [List.flatMap_append, List.flatMap_cons, List.append_assoc, List.append_assoc,
    List.getElem?_append_right (by omega), hlen, Nat.add_sub_cancel_left, List.getElem?_append_left hi, ha]

section
variable [One K] {before after : List (MicroBatch K)} {s m : MicroBatch K} {padding : Nat}

/-- **The prefix of a token of a packed sample is the sample's own**, padded or not. -/
theorem Spans.prefixAt (h : Spans (before ++ s :: after) padding m) {i : Nat} (hi : i < s.inputIds.length) :
    Loss.prefixAt m.seqLens m.inputIds (lens before + i) = s.inputIds.take (i + 1) := by
  obtain ⟨k', rest, heq, hle⟩ := lastPlus_append padding (before.map (·.inputIds.length)) s.inputIds.length
    (after.map (·.inputIds.length))
  have hids : m.inputIds.drop (lens before) =
      s.inputIds ++ (after.flatMap (·.inputIds) ++ List.replicate padding 1) := by
    rw [h.inputIds, List.flatMap_append, List.flatMap_cons, List.append_assoc, List.append_assoc]
    exact List.drop_left' (length_flatMap_of fun _ _ => rfl)
  rw [h.seqLens, List.map_append, List.map_cons, heq]
  refine (prefixAt_append _ _ _ _).trans ?_
  rw [show (before.map (·.inputIds.length)).sum = lens before from rfl, hids, Loss.prefixAt, if_pos (by omega),
    List.take_append_of_le_length (by omega)]

/-- The part of a sample starts where the sample does, and has its tokens. -/
theorem Spans.part (h : Spans (before ++ s :: after) padding m) (trainer : List K) :
    ∃ k, s.inputIds.length ≤ k ∧ ((wholeSequence m trainer).split m.sequenceLengths)[before.length]? =
      some (((wholeSequence m trainer).drop (lens before)).take k) := by
  obtain ⟨k', rest, heq, hle⟩ := lastPlus_append padding (before.map (·.inputIds.length)) s.inputIds.length
    (after.map (·.inputIds.length))
  have hlengths : m.sequenceLengths = before.map (·.inputIds.length) ++ k' :: rest := by
    rw [h.sequenceLengths, List.map_append, List.map_cons, heq]
  have hget : m.sequenceLengths[before.length]? = some k' := by
    rw [hlengths, List.getElem?_append_right (by rw [List.length_map]), List.length_map, Nat.sub_self,
      List.getElem?_cons_zero]
  have htake : (m.sequenceLengths.take before.length).sum = lens before := by
    rw [hlengths, List.take_left' (List.length_map _)]
    rfl
  exact ⟨k', hle, by rw [split_getElem, hget, htake, Option.map_some]⟩

variable {model : Model K L} {next : List Int → L} {logProb : L → K → Int → K} {padValue : K} {cp : Nat}

/-- **What is handed for a token of a packed sample is its log-probability after the sample's own prefix, at the
sample's own temperature.** -/
theorem Spans.handed (h : Spans (before ++ s :: after) padding m) (hlocal : Local model next)
    (hs : ∀ u ∈ before, u.temperatures.length = u.inputIds.length) (hdiv : m.inputIds.length % cp = 0) {temperature : K}
    (ht : s.temperatures = List.replicate s.inputIds.length temperature) {j : Nat} {label : Int} (hj : 1 ≤ j)
    (hlabel : s.inputIds[j]? = some label) : ∃ sequences q,
      handedSequences model logProb padValue cp m = .ok sequences ∧ sequences[before.length]? = some q ∧
        q.trainerLogprobs[j]? = some (logProb (next (s.inputIds.take j)) temperature label) := by
  obtain ⟨i, rfl⟩ : ∃ i, j = i + 1 := ⟨j - 1, by omega⟩
  have hi : i + 1 < s.inputIds.length := (List.getElem?_eq_some_iff.1 hlabel).1
  have hlen : m.inputIds.length = lens before + (s.inputIds.length + lens after) + padding := by
    rw [h.inputIds, List.length_append, length_flatMap_of fun _ _ => rfl, List.length_replicate]
    simp [lens]
  have hne : m.inputIds ≠ [] := List.length_pos_iff.1 (by omega)
  have htemp : m.temperatures[lens before + i]? = some temperature := by
    rw [h.temperatures]
    exact getElem_pack hs (by rw [ht, List.getElem?_replicate_of_lt (by omega)])
  have hids : m.inputIds[lens before + i + 1]? = some label := by
    rw [h.inputIds]
    exact getElem_pack (fun _ _ => rfl) hlabel
  have hvalue := @shifted_getElem K L next logProb m padValue temperature label (lens before + i) h.aligned htemp hids
  rw [h.prefixAt (by omega)] at hvalue
  obtain ⟨k, hk, hpart⟩ := h.part (shiftTensorRight (selectiveLogSoftmax logProb (packedLogits next m) m.temperatures
    (shiftTensorLeft m.inputIds)) padValue)
  refine ⟨_, _, ?_, hpart, ?_⟩
  · rw [handedSequences, forwardLogprobs_eq hlocal h.aligned hne hdiv, ok_bind,
      sequenceTensors_eq h.aligned (shifted_length h.aligned hne) (by omega)]
  · rw [SequenceTensors.take, SequenceTensors.drop, wholeSequence]
    dsimp only
    rw [List.getElem?_take_of_lt (by omega), List.getElem?_drop, ← Nat.add_assoc, hvalue]

end

/-! ## The first token -/

/-- No component of the loss reads token `j` of the sequence. -/
structure ZeroWeight [Zero K] (q : SequenceTensors K) (j : Nat) : Prop where
  rl : q.lossMask[j]? = some false
  ce : ∀ w, q.ceWeights = some w → w[j]? = some 0
  refKl : ∀ w, q.refKlWeights = some w → w[j]? = some 0

section
variable [Zero K]

theorem getElem_part {stream : Option (List K)} {offset k : Nat} (hk : 0 < k)
    (h : ∀ w, stream = some w → w[offset]? = some 0) :
    ∀ w, (stream.map (·.drop offset)).map (·.take k) = some w → w[0]? = some 0 := by
  intro w hw
  obtain ⟨w₁, hw₁, rfl⟩ := Option.map_eq_some_iff.1 hw
  obtain ⟨w', hw', rfl⟩ := Option.map_eq_some_iff.1 hw₁
  rw [List.getElem?_take_of_lt hk, List.getElem?_drop]
  exact h w' hw'

/-- The part that starts at a token of no weight has none first. -/
theorem ZeroWeight.part {m : MicroBatch K} {trainer : List K} {offset k : Nat} (hk : 0 < k)
    (h : ZeroWeight (wholeSequence m trainer) offset) :
    ZeroWeight (((wholeSequence m trainer).drop offset).take k) 0 where
  rl := by
    rw [SequenceTensors.take, SequenceTensors.drop, List.getElem?_take_of_lt hk, List.getElem?_drop]
    exact h.rl
  ce := getElem_part hk h.ce
  refKl := getElem_part hk h.refKl

variable [One K] {np : Numpy} {before after : List (MicroBatch K)} {s m : MicroBatch K} {padding : Nat}

omit [One K] in
/-- A stream of a pack, at the first token of a sample that has no weight there. -/
theorem stream_pack {stream : MicroBatch K → Option (List K)} (hs : ∀ u ∈ before ++ s :: after,
    ∀ l, stream u = some l → l.length = u.inputIds.length) (hpos : 0 < s.inputIds.length)
    (hzero : ∀ w, stream s = some w → w[0]? = some 0) :
    ∀ w, (backfill stream 0 (before ++ s :: after)).map (· ++ List.replicate padding 0) = some w →
      w[lens before]? = some 0 := by
  intro w hw
  obtain ⟨l, hl, rfl⟩ := Option.map_eq_some_iff.1 hw
  rw [backfill_eq_some hl]
  refine getElem_pack (fun u hu => getD_length (hs u (List.mem_append_left _ hu))) (i := 0) ?_
  cases hstream : stream s with
  | none => rw [Option.getD_none, List.getElem?_replicate_of_lt hpos]
  | some w => exact hzero w hstream

/-- **The first token of a packed sample has the weights it has in the sample.** -/
theorem zeroWeight_packs {trainer : List K} (h : Packs np (before ++ s :: after) padding m)
    (hs : ∀ u ∈ before ++ s :: after, Aligned u) (hmask : s.lossMask[0]? = some false)
    (hce : ∀ w, s.ceWeights = some w → w[0]? = some 0) (hkl : RefKlOnMask s.lossMask s.refKlWeights) :
    ZeroWeight (wholeSequence m trainer) (lens before) := by
  have hpos : 0 < s.inputIds.length := by
    rw [← (hs s (by simp)).lossMask]
    exact (List.getElem?_eq_some_iff.1 hmask).1
  have hzero : ∀ w, s.refKlWeights = some w → w[0]? = some 0 := by
    intro w hw
    have hlt : 0 < w.length := by rw [(hs s (by simp)).refKlWeights w hw]; exact hpos
    rw [List.getElem?_eq_getElem hlt, hkl w hw 0 w[0] hmask (List.getElem?_eq_getElem hlt)]
  refine ⟨?_, ?_, ?_⟩
  · rw [wholeSequence, h.lossMask]
    exact getElem_pack (fun u hu => (hs u (List.mem_append_left _ hu)).lossMask) (i := 0) hmask
  · rw [wholeSequence, h.ceWeights]
    exact stream_pack (fun u hu => (hs u hu).ceWeights) hpos hce
  · rw [wholeSequence, h.refKlWeights]
    exact stream_pack (fun u hu => (hs u hu).refKlWeights) hpos hzero

end

/-! ## prepare_batch -/

/-- What `compute_loss` is handed for sample `i` of a micro-batch from its second token on: the sample's own
log-probabilities. -/
def HandedOwn [Zero K] (model : Model K L) (next : List Int → L) (logProb : L → K → Int → K) (padValue : K)
    (cp : Nat) (m : MicroBatch K) (i : Nat) (s : MicroBatch K) : Prop :=
  ∃ temperature, s.temperatures = List.replicate s.inputIds.length temperature ∧
    ∀ j label, 1 ≤ j → s.inputIds[j]? = some label → ∃ sequences q,
      handedSequences model logProb padValue cp m = .ok sequences ∧ sequences[i]? = some q ∧
        q.trainerLogprobs[j]? = some (logProb (next (s.inputIds.take j)) temperature label)

/-- The first token of sample `i`, if it is not trained, is one that no component reads. -/
def FirstUnread [Zero K] (model : Model K L) (logProb : L → K → Int → K) (padValue : K) (cp : Nat) (m : MicroBatch K)
    (i : Nat) (s : MicroBatch K) : Prop :=
  s.lossMask[0]? = some false → (∀ w, s.ceWeights = some w → w[0]? = some 0) →
    ∀ sequences, handedSequences model logProb padValue cp m = .ok sequences →
      ∃ q, sequences[i]? = some q ∧ ZeroWeight q 0

theorem ZeroWeight.dummy [Zero K] {m : MicroBatch K} {trainer : List K} {o : Nat} (h : o < m.inputIds.length) :
    ZeroWeight (wholeSequence (makeDummyBatch m) trainer) o where
  rl := List.getElem?_replicate_of_lt h
  ce _ hw := by cases hw
  refKl _ hw := by cases hw

section
variable [Field K] [LinearOrder K] {np : Numpy} {model : Model K L} {next : List Int → L} {logProb : L → K → Int → K}
  {padValue : K} {cp : Nat} {m : MicroBatch K}

/-- The samples before one of them, and those after it. -/
theorem split_at {α : Type} {xs : List α} {i : Nat} {x : α} (hi : xs[i]? = some x) :
    ∃ before after, xs = before ++ x :: after ∧ before.length = i := by
  obtain ⟨hlt, rfl⟩ := List.getElem?_eq_some_iff.1 hi
  refine ⟨xs.take i, xs.drop (i + 1), ?_, ?_⟩
  · rw [← List.drop_eq_getElem_cons hlt, List.take_append_drop]
  · rw [List.length_take]
    omega

omit [LinearOrder K] in
/-- What is handed for the samples of a micro-batch that spans them. -/
theorem Spans.handedOwn {samples : List (MicroBatch K)} {padding : Nat} (h : Spans samples padding m)
    (hlocal : Local model next) (hdiv : m.inputIds.length % cp = 0)
    (htemp : ∀ s ∈ samples, ∃ t, s.temperatures = List.replicate s.inputIds.length t) :
    ∀ i s, samples[i]? = some s → HandedOwn model next logProb padValue cp m i s := by
  intro i s hi
  obtain ⟨before, after, rfl, rfl⟩ := split_at hi
  obtain ⟨t, ht⟩ := htemp s (by simp)
  refine ⟨t, ht, fun j label hj hlabel => h.handed hlocal (fun u hu => ?_) hdiv ht hj hlabel⟩
  obtain ⟨t', ht'⟩ := htemp u (List.mem_append_left _ hu)
  rw [ht', List.length_replicate]

omit [LinearOrder K] in
theorem Spans.firstUnread {samples : List (MicroBatch K)} {padding : Nat} (h : Spans samples padding m)
    (hlocal : Local model next) (hdiv : m.inputIds.length % cp = 0)
    (hmask : ∀ s ∈ samples, s.lossMask.length = s.inputIds.length)
    (hzero : ∀ before s after, samples = before ++ s :: after → s.lossMask[0]? = some false →
      (∀ w, s.ceWeights = some w → w[0]? = some 0) → ∀ trainer, ZeroWeight (wholeSequence m trainer) (lens before)) :
    ∀ i s, samples[i]? = some s → FirstUnread model logProb padValue cp m i s := by
  intro i s hi hfirst hce sequences hseq
  obtain ⟨before, after, rfl, rfl⟩ := split_at hi
  have hpos : 0 < s.inputIds.length := by
    rw [← hmask s (by simp)]
    exact (List.getElem?_eq_some_iff.1 hfirst).1
  have hne : m.inputIds ≠ [] := by
    rw [h.inputIds]
    simp [List.length_pos_iff.1 hpos]
  rw [handedSequences, forwardLogprobs_eq hlocal h.aligned hne hdiv, ok_bind] at hseq
  have hlen := @shifted_length K L next logProb m padValue h.aligned hne
  rw [sequenceTensors_eq h.aligned hlen (length_ne_one hlen hseq), Except.ok.injEq] at hseq
  subst hseq
  obtain ⟨k, hk, hpart⟩ := h.part (shiftTensorRight (selectiveLogSoftmax logProb (packedLogits next m) m.temperatures
    (shiftTensorLeft m.inputIds)) padValue)
  exact ⟨_, hpart, (hzero before s after rfl hfirst hce _).part (by omega)⟩

omit [LinearOrder K] in
theorem spans_of_packs {samples : List (MicroBatch K)} {padding : Nat} (h : Packs np samples padding m) (hm : Aligned m) :
    Spans samples padding m :=
  ⟨hm, h.inputIds, h.temperatures, h.sequenceLengths, h.seqLens⟩

omit [LinearOrder K] in
theorem Spans.dummy {samples : List (MicroBatch K)} {padding : Nat} (h : Spans samples padding m) :
    Spans samples padding (makeDummyBatch m) :=
  ⟨makeDummyBatch_aligned h.aligned, h.inputIds, h.temperatures, h.sequenceLengths, h.seqLens⟩

/-- **Packed log-probabilities are the samples' own**: in every micro-batch that `prepare_batch` makes of samples of one
temperature each, whatever it packs together, and for every number of ranks.  Where all ref_kl weights are on the mask, a
first token that is not trained is not read. -/
theorem packed_logprobs_own {rollouts : List (TrainingSample K)} {idxs : List Nat} {seqLen w numLoras pad : Nat}
    {binCost : List Nat → Nat} {prepared : List (MicroBatch K)} {grid : List (List (MicroBatch K))} (hw : 0 < w)
    (hpad : 0 < pad) (hlen : idxs.length = rollouts.length) (hlora : ∀ i ∈ idxs, i < numLoras)
    (hprep : rollouts.mapM (prepareSample np · seqLen) = .ok prepared)
    (hgrid : prepareBatch np rollouts seqLen w idxs numLoras binCost pad = .ok grid)
    (htemp : ∀ s ∈ rollouts, ∃ t, s.temperatures = List.replicate s.tokenIds.length t) (hlocal : Local model next)
    (hm : m ∈ grid.flatten) (hdiv : m.inputIds.length % cp = 0) :
    ∃ samples padding, (∀ s ∈ samples, s ∈ prepared) ∧ Spans samples padding m ∧
      (∀ i s, samples[i]? = some s → HandedOwn model next logProb padValue cp m i s) ∧
      ((∀ s ∈ rollouts, RefKlOnMask s.mask s.refKlWeights) →
        ∀ i s, samples[i]? = some s → FirstUnread model logProb padValue cp m i s) := by
  have hzip : ∀ p ∈ idxs.zip prepared, Aligned p.2 := aligned_prepared hprep
  obtain ⟨packed, dummies, h⟩ := (prepareBatch_packed hlen hprep hw hpad hlora).2 grid hgrid
  have hprepared : ∀ s ∈ prepared, Aligned s ∧ (∃ t, s.temperatures = List.replicate s.inputIds.length t) ∧
      ((∀ r ∈ rollouts, RefKlOnMask r.mask r.refKlWeights) → RefKlOnMask s.lossMask s.refKlWeights) := by
    intro s hs
    obtain ⟨r, hr, hrs⟩ := mapM_mem hprep s hs
    obtain ⟨t, ht⟩ := htemp r hr
    exact ⟨(prepareSample_prepared hrs).toAligned, ⟨t, prepareSample_temperature hrs ht⟩,
      fun hkl => prepareSample_refKl hrs (hkl r hr)⟩
  -- the micro-batch of a bin, and a dummy of it
  have hpack : ∀ p ∈ packed, ∃ samples, (∀ s ∈ samples, s ∈ prepared) ∧ Packs np samples p.2 p.1 := by
    intro p hp
    obtain ⟨b, hb, hpacks⟩ := forall₂_mem_right h.packs p hp
    refine ⟨_, fun s hs => ?_, hpacks⟩
    obtain ⟨q, hq, rfl⟩ := List.mem_map.1 hs
    exact (List.of_mem_zip (h.contents.mem_iff.1 (List.mem_flatMap.2 ⟨b, hb, hq⟩))).2
  rcases List.mem_append.1 (h.distributed.mem_iff.1 hm) with hm | hm
  · obtain ⟨p, hp, rfl⟩ := List.mem_map.1 hm
    obtain ⟨samples, hsamples, hpacks⟩ := hpack p hp
    have hspans := spans_of_packs hpacks (h.packed_aligned hzip p hp)
    refine ⟨samples, p.2, hsamples, hspans, hspans.handedOwn hlocal hdiv (fun s hs => (hprepared s (hsamples s hs)).2.1),
      fun hkl => hspans.firstUnread hlocal hdiv (fun s hs => (hprepared s (hsamples s hs)).1.lossMask) ?_⟩
    rintro before s after rfl hfirst hce trainer
    exact zeroWeight_packs hpacks (fun u hu => (hprepared u (hsamples u hu)).1) hfirst hce
      ((hprepared s (hsamples s (by simp))).2.2 hkl)
  · obtain ⟨p, hp, rfl⟩ := h.dummy m hm
    obtain ⟨samples, hsamples, hpacks⟩ := hpack p hp
    have hspans := spans_of_packs hpacks (h.packed_aligned hzip p hp)
    refine ⟨samples, p.2, hsamples, hspans.dummy, hspans.dummy.handedOwn hlocal hdiv
      (fun s hs => (hprepared s (hsamples s hs)).2.1),
      fun _ => hspans.dummy.firstUnread hlocal hdiv (fun s hs => (hprepared s (hsamples s hs)).1.lossMask) ?_⟩
    rintro before s after rfl hfirst - trainer
    have hpos : 0 < s.inputIds.length := by
      rw [← (hprepared s (hsamples s (by simp))).1.lossMask]
      exact (List.getElem?_eq_some_iff.1 hfirst).1
    refine ZeroWeight.dummy ?_
    rw [hpacks.inputIds, List.length_append, length_flatMap_of fun _ _ => rfl]
    simp only [lens, List.map_append, List.map_cons, List.sum_append, List.sum_cons]
    omega

end

/-- A model that is certain of the successor of the last token. -/
def successor (ids : List Int) : Int := ids.getLastD 0 + 1

def successorModel : Model Rat Int := fun m shards rank =>
  match shards[rank]? with
  | none => []
  | some shard => (List.range shard.length).map fun k =>
      successor (prefixAt m.seqLens shards.flatten ((shards.take rank).flatten.length + k))

def successorLogProb (certain : Int) (_temperature : Rat) (label : Int) : Rat := if label = certain then 0 else -100

theorem packed_logprobs_own_sample : ∃ grid m samples padding,
    prepareBatch expertDtypes [trainedSample 1, trainedSample (-1)] 4 1 [0, 0] 1 List.sum 1 = .ok grid ∧
      m ∈ grid.flatten ∧ m.inputIds = [7, 8, 7, 8] ∧ Spans samples padding m ∧
      ∀ i s, samples[i]? = some s → HandedOwn successorModel successor successorLogProb (-5) 2 m i s ∧
        FirstUnread successorModel successorLogProb (-5) 2 m i s := by
  have hrun : ∃ prepared grid m, [trainedSample 1, trainedSample (-1)].mapM (prepareSample expertDtypes · 4) =
      .ok prepared ∧ prepareBatch expertDtypes [trainedSample 1, trainedSample (-1)] 4 1 [0, 0] 1 List.sum 1 = .ok grid ∧
        grid.flatten = [m] ∧ m.inputIds = [7, 8, 7, 8] := ⟨_, _, _, rfl, rfl, rfl, rfl⟩
  obtain ⟨prepared, grid, m, hprep, hgrid, hm, hids⟩ := hrun
  have hlocal : Local successorModel successor := by
    intro m shards _ rank shard hshard
    rw [successorModel, hshard]
  have hmem : m ∈ grid.flatten := by
    rw [hm]
    exact List.mem_singleton_self m
  have hdiv : m.inputIds.length % 2 = 0 := by
    rw [hids]
    rfl
  have hstamped : ∀ s ∈ [trainedSample 1, trainedSample (-1)],
      s.temperatures = List.replicate s.tokenIds.length 1 ∧ s.refKlWeights = none := by decide +kernel
  have htemp : ∀ s ∈ [trainedSample 1, trainedSample (-1)], ∃ t, s.temperatures = List.replicate s.tokenIds.length t :=
    fun s hs => ⟨1, (hstamped s hs).1⟩
  have hkl : ∀ s ∈ [trainedSample 1, trainedSample (-1)], RefKlOnMask s.mask s.refKlWeights := by
    intro s hs w hw
    rw [(hstamped s hs).2] at hw
    cases hw
  obtain ⟨samples, padding, -, hspans, hown, hfirst⟩ := @packed_logprobs_own Rat Int _ _ expertDtypes successorModel successor
    successorLogProb (-5) 2 m _ [0, 0] 4 1 1 1 List.sum prepared grid (by decide) (by decide) rfl (by decide) hprep hgrid
    htemp hlocal hmem hdiv
  exact ⟨grid, m, samples, padding, hgrid, hmem, hids, hspans, fun i s hs => ⟨hown i s hs, hfirst hkl i s hs⟩⟩

end Loss
end Aether
