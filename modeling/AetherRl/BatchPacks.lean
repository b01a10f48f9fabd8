import AetherRl.BatchAssembly
/-!
# BatchPacks — what a packed micro-batch is made of

A bin in order, of prepared samples whose routed experts agree, is materialized: no check on the way fires.  The
micro-batch then packs its samples, before and after padding.
-/
namespace Aether
namespace Batch

open Checked

variable {F : Type}

/-! ## Packed micro-batches -/

/-- `l[-1] += n` of a list that is not empty. -/
def lastPlus (n : Nat) : List Nat → List Nat
  | [] => []
  | [k] => [k + n]
  | k :: k' :: l => k :: lastPlus n (k' :: l)

def routedData (m : MicroBatch F) : Bytes := (m.routedExperts.map RoutedExperts.data).getD []

/-- The samples' routed experts row by row, or none. -/
inductive RoutedPacks (np : Numpy) (samples : List (MicroBatch F)) (padding : Nat) : Option RoutedExperts → Prop
  | none (h : ∀ s ∈ samples, s.routedExperts = none) : RoutedPacks np samples padding none
  | some (dtype : String) (tail : List Nat) (row : Nat) (hne : samples ≠ [])
      (hrow : ∀ data n, routedExpertsRowSize np ⟨data, n :: tail, dtype⟩ = .ok row)
      (h : ∀ s ∈ samples, s.routedExperts = some ⟨routedData s, s.inputIds.length :: tail, dtype⟩ ∧
        (routedData s).length = s.inputIds.length * row) :
      RoutedPacks np samples padding (some ⟨samples.flatMap routedData ++ List.replicate (padding * row) 0,
        ((samples.map (·.inputIds.length)).sum + padding) :: tail, dtype⟩)

/-- **The micro-batch is its samples, in this order, and so many tokens of padding.** -/
structure Packs [Zero F] [One F] (np : Numpy) (samples : List (MicroBatch F)) (padding : Nat) (m : MicroBatch F) :
    Prop where
  inputIds : m.inputIds = samples.flatMap (·.inputIds) ++ List.replicate padding 1
  lossMask : m.lossMask = samples.flatMap (·.lossMask) ++ List.replicate padding false
  advantages : m.advantages = samples.flatMap (·.advantages) ++ List.replicate padding 0
  inferenceLogprobs : m.inferenceLogprobs = samples.flatMap (·.inferenceLogprobs) ++ List.replicate padding 0
  positionIds : m.positionIds = samples.flatMap (·.positionIds) ++ List.range padding
  temperatures : m.temperatures = samples.flatMap (·.temperatures) ++ List.replicate padding 1
  envNames : m.envNames = samples.flatMap (·.envNames) ++ List.replicate padding ""
  refLogprobs : m.refLogprobs = (backfill (·.refLogprobs) 0 samples).map (· ++ List.replicate padding 0)
  rlWeights : m.rlWeights = (backfill (·.rlWeights) 1 samples).map (· ++ List.replicate padding 0)
  ceWeights : m.ceWeights = (backfill (·.ceWeights) 0 samples).map (· ++ List.replicate padding 0)
  refKlWeights : m.refKlWeights = (backfill (·.refKlWeights) 0 samples).map (· ++ List.replicate padding 0)
  mmTokenTypeIds : m.mmTokenTypeIds = (backfill (·.mmTokenTypeIds) 0 samples).map (· ++ List.replicate padding 0)
  sequenceLengths : m.sequenceLengths = lastPlus padding (samples.map (·.inputIds.length))
  seqLens : m.seqLens = lastPlus padding (samples.map (·.inputIds.length))
  routedExperts : RoutedPacks np samples padding m.routedExperts
  mmKwargs : m.mmKwargs.isSome = samples.any (·.mmKwargs.isSome)

theorem lastPlus_zero : ∀ l : List Nat, lastPlus 0 l = l
  | [] => rfl
  | [k] => rfl
  | k :: k' :: l => by rw [lastPlus, lastPlus_zero (k' :: l)]

theorem lastPlus_sum (n : Nat) : ∀ {l : List Nat}, l ≠ [] → (lastPlus n l).sum = l.sum + n
  | [], h => absurd rfl h
  | [k], _ => by simp [lastPlus]
  | k :: k' :: l, _ => by
    rw [lastPlus, List.sum_cons, lastPlus_sum n (List.cons_ne_nil k' l), List.sum_cons (l := k' :: l)]
    omega

theorem addToLast_of {n : Nat} : ∀ {l : List Nat}, l ≠ [] → addToLast l n = .ok (lastPlus n l)
  | [], h => absurd rfl h
  | [k], _ => rfl
  | k :: k' :: l, _ => by
    have ih := addToLast_of (n := n) (List.cons_ne_nil k' l)
    unfold addToLast at ih ⊢
    rw [List.getLast?_cons_cons]
    split at ih
    · rename_i last hlast
      rw [Except.ok.injEq] at ih
      rw [lastPlus, ← ih]
      rfl
    · cases ih

/-! ## Stacking -/

theorem stackAll_eq_ok {acc s : Sidecars} {samples : List (Nat × MicroBatch F)} :
    stackAll acc samples = .ok s ↔
      samples.foldlM (fun r p => stackRoutedExperts r p.2.routedExperts) acc.routedExperts = .ok s.routedExperts ∧
      samples.foldlM (fun k p => stackKwargs k p.2.mmKwargs) acc.mmKwargs = .ok s.mmKwargs ∧
      samples.foldlM (fun l p => addLoraTokens l p.1 p.2.inputIds.length) acc.loraNumTokens = .ok s.loraNumTokens := by
  induction samples generalizing acc with
  | nil =>
    obtain ⟨r, k, l⟩ := acc
    obtain ⟨r', k', l'⟩ := s
    simp [stackAll, pure, Except.pure]
  | cons p samples ih =>
    simp only [stackAll, Sidecars.stack, List.foldlM_cons, bind_eq_ok, Except.ok.injEq]
    constructor
    · rintro ⟨_, ⟨r, hr, k, hk, l, hl, rfl⟩, h⟩
      obtain ⟨hr', hk', hl'⟩ := ih.1 h
      exact ⟨⟨r, hr, hr'⟩, ⟨k, hk, hk'⟩, ⟨l, hl, hl'⟩⟩
    · rintro ⟨⟨r, hr, hr'⟩, ⟨k, hk, hk'⟩, ⟨l, hl, hl'⟩⟩
      exact ⟨⟨r, k, l⟩, ⟨r, hr, k, hk, l, hl, rfl⟩, ih.2 ⟨hr', hk', hl'⟩⟩

/-- Two samples' routed experts agree in their dtype and in the shape of a row. -/
def RoutedAlike (s t : MicroBatch F) : Prop :=
  ∀ r r', s.routedExperts = some r → t.routedExperts = some r' → r.dtype = r'.dtype ∧ r.shape.tail = r'.shape.tail

/-- **Routed experts stack exactly where they agree with the first.** -/
theorem foldlM_routed {n : Nat} {tail : List Nat} : ∀ (samples : List (Nat × MicroBatch F)) (a : RoutedExperts)
    (o : Option RoutedExperts), a.shape = n :: tail →
      (∀ p ∈ samples, ∃ r, p.2.routedExperts = some r ∧ r.shape.head? = some p.2.inputIds.length) →
      (samples.foldlM (fun r p => stackRoutedExperts r p.2.routedExperts) (some a) = .ok o ↔
        (∀ p ∈ samples, ∀ r, p.2.routedExperts = some r → a.dtype = r.dtype ∧ tail = r.shape.tail) ∧
        o = some ⟨a.data ++ samples.flatMap (fun p => routedData p.2), (n + tokens samples) :: tail, a.dtype⟩)
  | [], a, o, ha, _ => by
    obtain ⟨data, shape, dtype⟩ := a
    dsimp only at ha
    subst ha
    simp [pure, Except.pure, tokens, eq_comm]
  | p :: samples, a, o, ha, hall => by
    obtain ⟨r, hr, hhead⟩ := hall p List.mem_cons_self
    obtain ⟨k, rest, hshape⟩ : ∃ k rest, r.shape = k :: rest := by
      cases hs : r.shape with
      | nil =>
        rw [hs] at hhead
        cases hhead
      | cons k rest => exact ⟨k, rest, rfl⟩
    have hk : k = p.2.inputIds.length := by
      rw [hshape, List.head?_cons, Option.some.injEq] at hhead
      exact hhead
    have hstack : ∀ b, stackRoutedExperts (some a) (some r) = .ok b ↔
        (a.dtype = r.dtype ∧ tail = r.shape.tail) ∧ b = some ⟨a.data ++ r.data, (n + k) :: tail, a.dtype⟩ := by
      intro b
      simp only [stackRoutedExperts, bind_eq_ok, raiseUnless_eq_ok, ha, hshape, List.tail_cons, Except.ok.injEq]
      constructor
      · rintro ⟨_, hd, _, ht, rfl⟩
        exact ⟨⟨hd, ht⟩, rfl⟩
      · rintro ⟨⟨hd, ht⟩, rfl⟩
        exact ⟨(), hd, (), ht, rfl⟩
    have hdata : routedData p.2 = r.data := by rw [routedData, hr]; rfl
    rw [List.foldlM_cons, hr, bind_eq_ok]
    constructor
    · rintro ⟨b, hb, hrest⟩
      obtain ⟨halike, rfl⟩ := (hstack b).1 hb
      obtain ⟨hsame, rfl⟩ := (foldlM_routed samples _ o rfl fun q hq => hall q (List.mem_cons_of_mem p hq)).1 hrest
      refine ⟨fun q hq r' hr' => ?_, ?_⟩
      · rcases List.mem_cons.1 hq with rfl | hq
        · rw [hr, Option.some.injEq] at hr'
          exact hr' ▸ halike
        · exact hsame q hq r' hr'
      · rw [List.flatMap_cons, hdata, List.append_assoc, hk]
        simp [tokens, Nat.add_assoc]
    · rintro ⟨hsame, rfl⟩
      refine ⟨_, (hstack _).2 ⟨hsame p List.mem_cons_self r hr, rfl⟩,
        (foldlM_routed samples _ _ rfl fun q hq => hall q (List.mem_cons_of_mem p hq)).2
          ⟨fun q hq r' hr' => hsame q (List.mem_cons_of_mem p hq) r' hr', ?_⟩⟩
      rw [List.flatMap_cons, hdata, List.append_assoc, hk]
      simp [tokens, Nat.add_assoc]

theorem foldlM_unrouted : ∀ {samples : List (Nat × MicroBatch F)}, (∀ p ∈ samples, p.2.routedExperts = none) →
    samples.foldlM (fun r p => stackRoutedExperts r p.2.routedExperts) none = .ok none
  | [], _ => rfl
  | p :: samples, h => by
    rw [List.foldlM_cons, h p List.mem_cons_self]
    exact foldlM_unrouted fun q hq => h q (List.mem_cons_of_mem p hq)

theorem foldlM_lora : ∀ (samples : List (Nat × MicroBatch F)) (l : List Nat), (∀ p ∈ samples, p.1 < l.length) →
    ∃ l', samples.foldlM (fun l p => addLoraTokens l p.1 p.2.inputIds.length) l = .ok l' ∧ l'.length = l.length
  | [], l, _ => ⟨l, rfl, rfl⟩
  | p :: samples, l, h => by
    obtain ⟨k, hp⟩ : ∃ k, l[p.1]? = some k := ⟨_, List.getElem?_eq_getElem (h p List.mem_cons_self)⟩
    obtain ⟨l', hl', hlen⟩ := foldlM_lora samples (l.set p.1 (k + p.2.inputIds.length))
      (fun q hq => by rw [List.length_set]; exact h q (List.mem_cons_of_mem p hq))
    refine ⟨l', ?_, by rw [hlen, List.length_set]⟩
    rw [List.foldlM_cons, addLoraTokens, hp]
    exact hl'

/-- What a compatible sample has for each key. -/
theorem compatibleKwargs_iff {dst src : List (String × EncodedTensor)} (h : compatibleKwargs dst src = true) :
    ∀ d ∈ dst, ∃ u, src.lookup d.1 = some u ∧ 0 < d.2.shape.length ∧ d.2.shape.length = u.shape.length := by
  intro d hd
  have hall := List.all_eq_true.1 (Bool.and_eq_true_iff.1 h).2 d hd
  dsimp only at hall
  cases hu : src.lookup d.1 with
  | none =>
    rw [hu] at hall
    cases hall
  | some u =>
    rw [hu] at hall
    simp only [Option.any_some, Bool.and_eq_true, decide_eq_true_eq, beq_iff_eq] at hall
    exact ⟨u, rfl, hall.1.1.2, hall.1.2⟩

/-- The same keys, and shapes of the same rank. -/
def SameRank (dst first : List (String × EncodedTensor)) : Prop :=
  List.Forall₂ (fun d f => d.1 = f.1 ∧ d.2.shape.length = f.2.shape.length) dst first

theorem stackKwargs_ok {dst first src : List (String × EncodedTensor)} (hs : SameRank dst first)
    (hc : compatibleKwargs first src = true) :
    ∃ dst', stackKwargs (some dst) (some src) = .ok (some dst') ∧ SameRank dst' first := by
  have hkeys := compatibleKwargs_iff hc
  have htensors : ∃ dst', dst.mapM (stackTensor src) = .ok dst' ∧ SameRank dst' first := by
    clear hc
    induction hs with
    | nil => exact ⟨[], rfl, .nil⟩
    | cons hd _ ih =>
      rename_i d f ds fs _
      obtain ⟨dst', hdst', hrank⟩ := ih fun g hg => hkeys g (List.mem_cons_of_mem f hg)
      obtain ⟨u, hu, hpos, hlen⟩ := hkeys f List.mem_cons_self
      obtain ⟨n, rest, hn⟩ := List.exists_cons_of_length_pos (hd.2 ▸ hpos)
      obtain ⟨k, rest', hk⟩ := List.exists_cons_of_length_pos (hlen ▸ hpos)
      have hstack : stackTensor src d = .ok (d.1, ⟨d.2.dtype, (n + k) :: rest, d.2.data ++ u.data⟩) := by
        simp only [stackTensor, tensor, hd.1, hu, ok_bind, hn, hk]
      refine ⟨_, mapM_eq_ok.2 (.cons hstack (mapM_eq_ok.1 hdst')), .cons ⟨hd.1, ?_⟩ hrank⟩
      rw [← hd.2, hn]
      rfl
  obtain ⟨dst', hdst', hrank⟩ := htensors
  exact ⟨dst', by rw [stackKwargs, hdst']; rfl, hrank⟩

theorem foldlM_kwargs_some {first : List (String × EncodedTensor)} : ∀ (samples : List (Nat × MicroBatch F))
    (dst : List (String × EncodedTensor)), SameRank dst first →
      (∀ p ∈ samples, ∀ src, p.2.mmKwargs = some src → compatibleKwargs first src = true) →
      ∃ dst', samples.foldlM (fun k p => stackKwargs k p.2.mmKwargs) (some dst) = .ok (some dst')
  | [], dst, _, _ => ⟨dst, rfl⟩
  | p :: samples, dst, hs, h => by
    have hrest : ∀ q ∈ samples, ∀ src, q.2.mmKwargs = some src → compatibleKwargs first src = true :=
      fun q hq => h q (List.mem_cons_of_mem p hq)
    rw [List.foldlM_cons]
    cases hp : p.2.mmKwargs with
    | none => exact foldlM_kwargs_some samples dst hs hrest
    | some src =>
      obtain ⟨dst', hdst', hrank⟩ := stackKwargs_ok hs (h p List.mem_cons_self src hp)
      rw [hdst', ok_bind]
      exact foldlM_kwargs_some samples dst' hrank hrest

theorem foldlM_kwargs_none : ∀ {samples : List (Nat × MicroBatch F)}, (∀ p ∈ samples, p.2.mmKwargs = none) →
    samples.foldlM (fun k p => stackKwargs k p.2.mmKwargs) none = .ok none
  | [], _ => rfl
  | p :: samples, h => by
    rw [List.foldlM_cons, h p List.mem_cons_self]
    exact foldlM_kwargs_none fun q hq => h q (List.mem_cons_of_mem p hq)

/-- **The kwargs of a bin in order stack.** -/
theorem foldlM_kwargs {maxSeqLen : Nat} {b : MicroBatchBin F} (hb : b.Ok maxSeqLen) :
    ∃ o, b.samples.foldlM (fun k p => stackKwargs k p.2.mmKwargs) none = .ok o ∧
      o.isSome = b.samples.any fun p => p.2.mmKwargs.isSome := by
  cases hf : b.firstMultimodal with
  | none =>
    rw [MicroBatchBin.firstMultimodal, List.findSome?_eq_none_iff] at hf
    refine ⟨none, foldlM_kwargs_none hf, (List.any_eq_false.2 fun p hp => ?_).symm⟩
    rw [hf p hp]
    exact Bool.false_ne_true
  | some first =>
    rw [MicroBatchBin.firstMultimodal, List.findSome?_eq_some_iff] at hf
    obtain ⟨before, p, after, hs, hp, hnone⟩ := hf
    have hcompat : ∀ q ∈ after, ∀ src, q.2.mmKwargs = some src → compatibleKwargs first src = true := by
      intro q hq src hsrc
      obtain ⟨c, d, rfl⟩ := List.append_of_mem hq
      have hacc := hb.accepted (before ++ p :: c) q d (by rw [hs, List.append_assoc, List.cons_append]) (by simp)
      refine (canAdd_eq_true hacc).2.2 first src ?_ hsrc
      exact List.findSome?_eq_some_iff.2 ⟨before, p, c, rfl, hp, hnone⟩
    obtain ⟨dst', hdst'⟩ := foldlM_kwargs_some after first (List.forall₂_same.2 fun _ _ => ⟨rfl, rfl⟩) hcompat
    refine ⟨some dst', ?_, ?_⟩
    · rw [hs, List.foldlM_append, foldlM_kwargs_none hnone, ok_bind, List.foldlM_cons, hp]
      exact hdst'
    · refine (List.any_eq_true.2 ⟨p, ?_, ?_⟩).symm
      · rw [hs]
        simp
      · rw [hp]
        rfl

/-! ## A bin materialized -/

/-- The row size depends on the dtype and the shape of a row only. -/
theorem rowSize_tail {np : Numpy} {data : Bytes} {n row : Nat} {tail : List Nat} {dtype : String}
    (h : routedExpertsRowSize np ⟨data, n :: tail, dtype⟩ = .ok row) (data' : Bytes) (n' : Nat) :
    routedExpertsRowSize np ⟨data', n' :: tail, dtype⟩ = .ok row := by
  match tail with
  | [] => exact absurd h (by simp [routedExpertsRowSize])
  | [_] => exact absurd h (by simp [routedExpertsRowSize])
  | _ :: _ :: _ => exact h

/-- What a prepared sample's routed experts are. -/
theorem Prepared.routedExperts_eq {np : Numpy} {seqLen : Nat} {s : MicroBatch F} (hs : Prepared np seqLen s)
    {r : RoutedExperts} (hr : s.routedExperts = some r) :
    r = ⟨routedData s, s.inputIds.length :: r.shape.tail, r.dtype⟩ := by
  have hhead := hs.routedExperts r hr
  obtain ⟨data, shape, dtype⟩ := r
  cases shape with
  | nil => cases hhead
  | cons n rest =>
    dsimp only at hhead
    rw [List.head?_cons, Option.some.injEq] at hhead
    rw [routedData, hr, ← hhead]
    rfl

theorem routedPacks_of {np : Numpy} {seqLen : Nat} {samples : List (Nat × MicroBatch F)} {r : RoutedExperts}
    {p : Nat × MicroBatch F} (hprep : ∀ q ∈ p :: samples, Prepared np seqLen q.2) (hr : p.2.routedExperts = some r)
    (hall : ∀ q ∈ p :: samples, ∃ r', q.2.routedExperts = some r' ∧ r.dtype = r'.dtype ∧ r.shape.tail = r'.shape.tail) :
    RoutedPacks np ((p :: samples).map Prod.snd) 0
      (some ⟨r.data ++ samples.flatMap (fun q => routedData q.2), (p.2.inputIds.length + tokens samples) :: r.shape.tail,
        r.dtype⟩) := by
  obtain ⟨row, hrow, -⟩ := (hprep p List.mem_cons_self).rows r hr
  have heq := (hprep p List.mem_cons_self).routedExperts_eq hr
  have hdata : routedData p.2 = r.data := by rw [routedData, hr]; rfl
  rw [heq] at hrow
  have hpacks := @RoutedPacks.some F np ((p :: samples).map Prod.snd) 0 r.dtype r.shape.tail
    row (List.cons_ne_nil _ _) (rowSize_tail hrow) (fun s hs => by
      obtain ⟨q, hq, rfl⟩ := List.mem_map.1 hs
      obtain ⟨r', hr', hd, ht⟩ := hall q hq
      have heq' := (hprep q hq).routedExperts_eq hr'
      obtain ⟨row', hrow', hlen⟩ := (hprep q hq).rows r' hr'
      rw [heq', ← hd, ← ht] at hrow'
      obtain rfl : row' = row := Except.ok.inj (hrow'.symm.trans (rowSize_tail hrow _ _))
      refine ⟨by rw [hr', hd, ht, ← heq'], ?_⟩
      rw [← hlen, routedData, hr']
      rfl)
  rw [Nat.zero_mul, List.replicate_zero, List.append_nil, Nat.add_zero, List.map_cons, List.flatMap_cons, hdata,
    List.map_cons, List.sum_cons, List.flatMap_map, List.map_map] at hpacks
  exact hpacks

/-- **The routed experts of a bin stack exactly where they agree.** -/
theorem foldlM_routed_bin {np : Numpy} {maxSeqLen seqLen : Nat} {b : MicroBatchBin F} (hb : b.Ok maxSeqLen)
    (hprep : ∀ p ∈ b.samples, Prepared np seqLen p.2) :
    ((∃ o, b.samples.foldlM (fun r p => stackRoutedExperts r p.2.routedExperts) none = .ok o) ↔
      ∀ p ∈ b.samples, ∀ q ∈ b.samples, RoutedAlike p.2 q.2) ∧
    ∀ o, b.samples.foldlM (fun r p => stackRoutedExperts r p.2.routedExperts) none = .ok o →
      RoutedPacks np (b.samples.map Prod.snd) 0 o := by
  have hrouted := hb.routed
  cases hs : b.samples with
  | nil =>
    refine ⟨⟨fun _ p hp => (by cases hp), fun _ => ⟨none, rfl⟩⟩, fun o ho => ?_⟩
    cases ho
    exact .none fun s hs => by cases hs
  | cons p rest =>
    rw [hs] at hrouted hprep
    replace hrouted := fun q hq => hrouted q hq p rfl
    cases hp : p.2.routedExperts with
    | none =>
      have hnone : ∀ q ∈ p :: rest, q.2.routedExperts = none := fun q hq => by
        have hq := hrouted q hq
        rw [hp] at hq
        exact Option.isNone_iff_eq_none.1 hq
      have hfold := foldlM_unrouted hnone
      refine ⟨⟨fun _ q hq q' _ r r' hr => ?_, fun _ => ⟨none, hfold⟩⟩, fun o ho => ?_⟩
      · rw [hnone q hq] at hr
        cases hr
      · rw [hfold, Except.ok.injEq] at ho
        subst ho
        refine .none fun s hs => ?_
        obtain ⟨q, hq, rfl⟩ := List.mem_map.1 hs
        exact hnone q hq
    | some r =>
      have hsome : ∀ q ∈ p :: rest, ∃ r', q.2.routedExperts = some r' ∧
          r'.shape.head? = some q.2.inputIds.length := fun q hq => by
        have hq' := hrouted q hq
        rw [hp] at hq'
        obtain ⟨r', hr'⟩ := Option.isSome_iff_exists.1 (Option.isNone_eq_false_iff.1 hq')
        exact ⟨r', hr', (hprep q hq).routedExperts r' hr'⟩
      have hshape : r.shape = p.2.inputIds.length :: r.shape.tail :=
        congrArg RoutedExperts.shape ((hprep p List.mem_cons_self).routedExperts_eq hp)
      have hfold := fun o => foldlM_routed rest r o hshape fun q hq => hsome q (List.mem_cons_of_mem p hq)
      have hfirst : (p :: rest).foldlM (fun r p => stackRoutedExperts r p.2.routedExperts) none =
          rest.foldlM (fun r p => stackRoutedExperts r p.2.routedExperts) (some r) := by
        rw [List.foldlM_cons, hp]
        rfl
      rw [hfirst]
      have halike : (∀ q ∈ rest, ∀ r', q.2.routedExperts = some r' → r.dtype = r'.dtype ∧ r.shape.tail = r'.shape.tail) →
          ∀ q ∈ p :: rest, ∃ r', q.2.routedExperts = some r' ∧ r.dtype = r'.dtype ∧ r.shape.tail = r'.shape.tail := by
        intro h q hq
        rcases List.mem_cons.1 hq with rfl | hq
        · exact ⟨r, hp, rfl, rfl⟩
        · obtain ⟨r', hr', -⟩ := hsome q (List.mem_cons_of_mem p hq)
          exact ⟨r', hr', h q hq r' hr'⟩
      refine ⟨⟨?_, fun h => ⟨_, (hfold _).2 ⟨fun q hq r' hr' => ?_, rfl⟩⟩⟩, fun o ho => ?_⟩
      · rintro ⟨o, ho⟩ q hq q' hq' r₁ r₂ hr₁ hr₂
        have hall := halike ((hfold o).1 ho).1
        obtain ⟨r₁', hr₁', hd₁, ht₁⟩ := hall q hq
        obtain ⟨r₂', hr₂', hd₂, ht₂⟩ := hall q' hq'
        rw [hr₁, Option.some.injEq] at hr₁'
        rw [hr₂, Option.some.injEq] at hr₂'
        subst hr₁' hr₂'
        exact ⟨hd₁.symm.trans hd₂, ht₁.symm.trans ht₂⟩
      · exact h p List.mem_cons_self q (List.mem_cons_of_mem p hq) r r' hp hr'
      · obtain ⟨hall, rfl⟩ := (hfold o).1 ho
        exact routedPacks_of hprep hp (halike hall)

theorem length_flatMap_of {α : Type} {samples : List (MicroBatch F)} {f : MicroBatch F → List α}
    (h : ∀ s ∈ samples, (f s).length = s.inputIds.length) :
    (samples.flatMap f).length = (samples.map (·.inputIds.length)).sum := by
  rw [List.length_flatMap, List.map_congr_left h]

/-- **A bin is materialized exactly where its routed experts agree**, and packs its samples. -/
theorem materializeBin_ok [Zero F] [One F] {np : Numpy} {maxSeqLen seqLen numLoras : Nat} {b : MicroBatchBin F}
    (hb : b.Ok maxSeqLen) (hprep : ∀ p ∈ b.samples, Prepared np seqLen p.2) (hlora : ∀ p ∈ b.samples, p.1 < numLoras) :
    ((∃ m, materializeBin b numLoras = .ok m) ↔ ∀ p ∈ b.samples, ∀ q ∈ b.samples, RoutedAlike p.2 q.2) ∧
    ∀ m, materializeBin b numLoras = .ok m → Packs np (b.samples.map Prod.snd) 0 m ∧
      ∃ l, m.loraNumTokens = some l ∧ l.length = numLoras := by
  obtain ⟨kwargs, hkwargs, hany⟩ := foldlM_kwargs hb
  obtain ⟨lora, hloras, hlen⟩ := foldlM_lora b.samples (List.replicate numLoras 0)
    (by simpa using hlora)
  obtain ⟨hiff, hpacks⟩ := foldlM_routed_bin hb hprep
  have hsingle : ∀ s ∈ b.samples.map Prod.snd, s.seqLens = [s.inputIds.length] := fun s hs => by
    obtain ⟨p, hp, rfl⟩ := List.mem_map.1 hs
    exact (hprep p hp).singleLens
  have hseqLens : (b.samples.map Prod.snd).flatMap (·.seqLens) = (b.samples.map Prod.snd).map (·.inputIds.length) := by
    rw [List.flatMap_congr hsingle, ← List.map_eq_flatMap]
  have hsum : ((b.samples.map Prod.snd).map (·.inputIds.length)).sum =
      ((b.samples.map Prod.snd).flatMap (·.inputIds)).length := (length_flatMap_of fun _ _ => rfl).symm
  -- neither sum is off, so what is materialized is what was stacked
  have heq : ∀ m, materializeBin b numLoras = .ok m ↔ ∃ o,
      b.samples.foldlM (fun r p => stackRoutedExperts r p.2.routedExperts) none = .ok o ∧
        m = assemble (b.samples.map Prod.snd) ⟨o, kwargs, lora⟩ := by
    intro m
    simp only [materializeBin, bind_eq_ok, raiseUnless_eq_ok, Except.ok.injEq]
    constructor
    · rintro ⟨⟨r, k, l⟩, hstack, -, -, -, -, rfl⟩
      obtain ⟨hr, hk, hl⟩ := stackAll_eq_ok.1 hstack
      dsimp only at hr hk hl
      rw [hkwargs, Except.ok.injEq] at hk
      rw [hloras, Except.ok.injEq] at hl
      subst hk hl
      exact ⟨r, hr, rfl⟩
    · rintro ⟨o, ho, rfl⟩
      exact ⟨⟨o, kwargs, lora⟩, stackAll_eq_ok.2 ⟨ho, hkwargs, hloras⟩, (), hsum, (),
        (congrArg List.sum hseqLens).trans hsum, rfl⟩
  refine ⟨?_, fun m hm => ?_⟩
  · rw [← hiff]
    constructor
    · rintro ⟨m, hm⟩
      obtain ⟨o, ho, _⟩ := (heq m).1 hm
      exact ⟨o, ho⟩
    · rintro ⟨o, ho⟩
      exact ⟨_, (heq _).2 ⟨o, ho, rfl⟩⟩
  · obtain ⟨o, ho, rfl⟩ := (heq m).1 hm
    refine ⟨?_, lora, rfl, by rw [hlen, List.length_replicate]⟩
    exact {
      inputIds := (List.append_nil _).symm, lossMask := (List.append_nil _).symm
      advantages := (List.append_nil _).symm, inferenceLogprobs := (List.append_nil _).symm
      positionIds := (List.append_nil _).symm, temperatures := (List.append_nil _).symm
      envNames := (List.append_nil _).symm
      refLogprobs := by simp [assemble], rlWeights := by simp [assemble], ceWeights := by simp [assemble]
      refKlWeights := by simp [assemble], mmTokenTypeIds := by simp [assemble]
      sequenceLengths := (lastPlus_zero _).symm
      seqLens := by rw [lastPlus_zero]; exact hseqLens
      routedExperts := hpacks o ho
      mmKwargs := by
        rw [List.any_map]
        exact hany }

/-! ## Padded -/

theorem backfill_eq_some {α : Type} {stream : MicroBatch F → Option (List α)} {fill : α}
    {samples : List (MicroBatch F)} {l : List α} (h : backfill stream fill samples = some l) :
    l = samples.flatMap fun s => (stream s).getD (List.replicate s.inputIds.length fill) := by
  unfold backfill at h
  split at h
  · exact (Option.some.inj h).symm
  · cases h

theorem getD_length {α : Type} {o : Option (List α)} {n : Nat} {fill : α} (h : ∀ l, o = some l → l.length = n) :
    (o.getD (List.replicate n fill)).length = n := by
  cases o with
  | none => exact List.length_replicate
  | some l => exact h l rfl

/-- **A packed micro-batch is aligned.** -/
theorem Packs.aligned [Zero F] [One F] {np : Numpy} {samples : List (MicroBatch F)} {padding : Nat} {m : MicroBatch F}
    (hm : Packs np samples padding m) (hs : ∀ s ∈ samples, Aligned s) (hne : samples ≠ [] ∨ padding = 0) :
    Aligned m := by
  have hids : m.inputIds.length = (samples.map (·.inputIds.length)).sum + padding := by
    rw [hm.inputIds, List.length_append, length_flatMap_of fun _ _ => rfl, List.length_replicate]
  have array : ∀ {α : Type} {f : MicroBatch F → List α} {pad : List α}, (∀ s ∈ samples, (f s).length = s.inputIds.length) →
      pad.length = padding → (samples.flatMap f ++ pad).length = m.inputIds.length := fun hf hpad => by
    rw [List.length_append, length_flatMap_of hf, hpad, hids]
  have optional : ∀ {α : Type} {f : MicroBatch F → Option (List α)} {fill pad : α},
      (∀ s ∈ samples, ∀ l, f s = some l → l.length = s.inputIds.length) →
      ∀ l, (backfill f fill samples).map (· ++ List.replicate padding pad) = some l → l.length = m.inputIds.length := by
    intro α f fill pad hf l hl
    obtain ⟨l', hl', rfl⟩ := Option.map_eq_some_iff.1 hl
    rw [backfill_eq_some hl']
    exact array (fun s hs' => getD_length (hf s hs')) List.length_replicate
  have hsum : (lastPlus padding (samples.map (·.inputIds.length))).sum = m.inputIds.length := by
    rcases hne with hne | rfl
    · rw [lastPlus_sum padding (by simpa using hne), hids]
    · rw [lastPlus_zero, hids, Nat.add_zero]
  exact {
    lossMask := by rw [hm.lossMask]; exact array (fun s h => (hs s h).lossMask) List.length_replicate
    advantages := by rw [hm.advantages]; exact array (fun s h => (hs s h).advantages) List.length_replicate
    inferenceLogprobs := by
      rw [hm.inferenceLogprobs]; exact array (fun s h => (hs s h).inferenceLogprobs) List.length_replicate
    positionIds := by rw [hm.positionIds]; exact array (fun s h => (hs s h).positionIds) List.length_range
    temperatures := by rw [hm.temperatures]; exact array (fun s h => (hs s h).temperatures) List.length_replicate
    envNames := by rw [hm.envNames]; exact array (fun s h => (hs s h).envNames) List.length_replicate
    refLogprobs := by rw [hm.refLogprobs]; exact optional fun s h => (hs s h).refLogprobs
    rlWeights := by rw [hm.rlWeights]; exact optional fun s h => (hs s h).rlWeights
    ceWeights := by rw [hm.ceWeights]; exact optional fun s h => (hs s h).ceWeights
    refKlWeights := by rw [hm.refKlWeights]; exact optional fun s h => (hs s h).refKlWeights
    mmTokenTypeIds := by rw [hm.mmTokenTypeIds]; exact optional fun s h => (hs s h).mmTokenTypeIds
    sequenceLengths := by rw [hm.sequenceLengths, hsum]
    seqLens := by rw [hm.seqLens, hsum]
    routedExperts := fun r hr => by
      have hrouted := hm.routedExperts
      rw [hr] at hrouted
      cases hrouted with
      | some dtype tail row => rw [List.head?_cons, hids] }

/-- What padding adds to the routed experts. -/
theorem padRoutedExperts_ok {np : Numpy} {samples : List (MicroBatch F)} {o : Option RoutedExperts} (n : Nat)
    (h : RoutedPacks np samples 0 o) : ∃ o', padRoutedExperts np o n = .ok o' ∧ RoutedPacks np samples n o' := by
  cases h with
  | none h => exact ⟨none, rfl, .none h⟩
  | some dtype tail row hne hrow h =>
    refine ⟨_, ?_, .some dtype tail row hne hrow h⟩
    simp only [padRoutedExperts, hrow, ok_bind, Nat.zero_mul, List.replicate_zero, List.append_nil, Nat.add_zero]

/-- **Padding of a packed micro-batch never raises**, and packs the same samples. -/
theorem padMicroBatch_ok [Zero F] [One F] {np : Numpy} {samples : List (MicroBatch F)} {m : MicroBatch F}
    {padToMultipleOf : Nat} (hpad : 0 < padToMultipleOf) (hm : Packs np samples 0 m) (hs : ∀ s ∈ samples, Aligned s)
    (hlora : samples ≠ [] → ∃ l, m.loraNumTokens = some l ∧ l ≠ []) :
    ∃ n m', padMicroBatch np padToMultipleOf m = .ok m' ∧ Packs np samples n m' ∧ n < padToMultipleOf ∧
      (samples = [] → n = 0) ∧ m'.inputIds.length % padToMultipleOf = 0 := by
  have haligned := hm.aligned hs (.inr rfl)
  have hmod : (m.inputIds.length + paddingSize m padToMultipleOf) % padToMultipleOf = 0 := by
    have hlt := Nat.mod_lt m.inputIds.length hpad
    rw [paddingSize, Nat.add_mod, Nat.mod_mod]
    rcases Nat.eq_zero_or_pos (m.inputIds.length % padToMultipleOf) with h | h
    · rw [h, Nat.sub_zero, Nat.mod_self, Nat.add_zero, Nat.zero_mod]
    · rw [Nat.mod_eq_of_lt (show padToMultipleOf - m.inputIds.length % padToMultipleOf < padToMultipleOf by omega),
        Nat.add_sub_of_le hlt.le, Nat.mod_self]
  rw [padMicroBatch, raiseUnless_of _ (Nat.pos_iff_ne_zero.1 hpad), ok_bind, raiseUnless_of _ haligned.envNames, ok_bind]
  by_cases hsome : 1 < padToMultipleOf ∧ 0 < paddingSize m padToMultipleOf
  · rw [if_neg (not_not_intro hsome)]
    set n := paddingSize m padToMultipleOf with hn
    have hne : samples ≠ [] := by
      rintro rfl
      have hnil : m.inputIds = [] := hm.inputIds
      rw [hn, paddingSize, hnil, List.length_nil, Nat.zero_mod, Nat.sub_zero, Nat.mod_self] at hsome
      exact absurd hsome.2 (lt_irrefl 0)
    have hlens : samples.map (·.inputIds.length) ≠ [] := by simpa using hne
    obtain ⟨l, hl, hlne⟩ := hlora hne
    obtain ⟨o, ho, hrouted⟩ := padRoutedExperts_ok n hm.routedExperts
    rw [hm.sequenceLengths, hm.seqLens, lastPlus_zero, addToLast_of hlens, ok_bind, ok_bind, hl, addToLast?,
      addToLast_of hlne, ho]
    refine ⟨n, _, rfl, ?_, Nat.mod_lt _ hpad, fun h => absurd h hne, ?_⟩
    · exact {
        inputIds := by rw [hm.inputIds, List.replicate_zero, List.append_nil]
        lossMask := by rw [hm.lossMask, List.replicate_zero, List.append_nil]
        advantages := by rw [hm.advantages, List.replicate_zero, List.append_nil]
        inferenceLogprobs := by rw [hm.inferenceLogprobs, List.replicate_zero, List.append_nil]
        positionIds := by rw [hm.positionIds, List.range_zero, List.append_nil]
        temperatures := by rw [hm.temperatures, List.replicate_zero, List.append_nil]
        envNames := by rw [hm.envNames, List.replicate_zero, List.append_nil]
        refLogprobs := by simp [hm.refLogprobs]
        rlWeights := by simp [hm.rlWeights]
        ceWeights := by simp [hm.ceWeights]
        refKlWeights := by simp [hm.refKlWeights]
        mmTokenTypeIds := by simp [hm.mmTokenTypeIds]
        sequenceLengths := rfl
        seqLens := rfl
        routedExperts := hrouted
        mmKwargs := hm.mmKwargs }
    · rw [List.length_append, List.length_replicate, hmod]
  · rw [if_pos hsome]
    have hzero : paddingSize m padToMultipleOf = 0 := by
      rcases Nat.lt_or_ge 1 padToMultipleOf with h | h
      · exact Nat.eq_zero_of_not_pos fun hn => hsome ⟨h, hn⟩
      · obtain rfl : padToMultipleOf = 1 := by omega
        exact Nat.mod_one _
    rw [hzero, Nat.add_zero] at hmod
    exact ⟨0, m, rfl, hm, hpad, fun _ => rfl, hmod⟩

end Batch
end Aether
