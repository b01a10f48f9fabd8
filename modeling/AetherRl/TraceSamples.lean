import AetherRl.BatchSample
import AetherRl.Forest
/-!
# TraceSamples — the training samples of a trace (`orchestrator/trajectories.py`)

A trace is a forest of message nodes, and its branches are the paths from the roots to the leaves.  A branch gives one
sample; a sampled node that several branches share is trainable in the first of them.
-/
namespace Aether
namespace Traces

open Forest

inductive Role
  | system
  | user
  | assistant
  | tool
deriving DecidableEq

/-- A message with its tokens; only a sampled node has tokens the model sampled. -/
structure Node where
  tokenIds : List Int
  mask : List Bool
  sampled : Bool
  role : Role
  isContent : List Bool
  mask_length : mask.length = tokenIds.length
  unsampled : sampled = false → ∀ b ∈ mask, b = false
deriving DecidableEq

/-- A path through the nodes, with the streams that the trace type lays out along it. -/
structure Branch (F M ι : Type) where
  path : List ι
  logprobs : List F
  multiModalData : Option M
  routedExperts : Option RoutedExperts

variable {F M ι : Type}

def tokensOf (node : ι → Node) (path : List ι) : List Int := path.flatMap fun i => (node i).tokenIds

structure Trace (F M ι : Type) where
  node : ι → Node
  parent : ι → Option ι
  branches : List (Branch F M ι)
  acyclic : Acyclic parent
  paths : ∀ path, path ∈ branches.map (·.path) ↔ RootToLeaf parent path
  logprobs_length : ∀ b ∈ branches, b.logprobs.length = (tokensOf node b.path).length
  routed_shape : ∀ b ∈ branches, ∀ r ∈ b.routedExperts, r.shape.length = 3

/-! ## The branches that train -/

/-- `node.sampled and any(node.mask)`. -/
def Node.trains (n : Node) : Bool := n.sampled && n.mask.any id

/-- The loop over a branch's nodes: the nodes trained so far, and the branch's mask. -/
def branchMask [DecidableEq ι] (node : ι → Node) : List ι → List ι → List ι × List Bool
  | trained, [] => (trained, [])
  | trained, i :: path =>
    if (node i).trains ∧ i ∈ trained then
      let rest := branchMask node trained path
      (rest.1, List.replicate (node i).mask.length false ++ rest.2)
    else
      let rest := branchMask node (if (node i).trains then i :: trained else trained) path
      (rest.1, (node i).mask ++ rest.2)

/-- The loop over the branches, from the nodes trained so far. -/
def trainableBranches [DecidableEq ι] (node : ι → Node) :
    List ι → List (Branch F M ι) → List (Branch F M ι × List Bool)
  | _, [] => []
  | trained, b :: bs =>
    let r := branchMask node trained b.path
    if r.2.any id then (b, r.2) :: trainableBranches node r.1 bs else trainableBranches node r.1 bs

def iterTrainableBranches [DecidableEq ι] (t : Trace F M ι) : List (Branch F M ι × List Bool) :=
  trainableBranches t.node [] t.branches

/-! ## Samples -/

/-- The router-replay array with as many rows as there are tokens: cut, or filled up with zeros. -/
def encodeRoutedExperts (np : Batch.Numpy) (r : RoutedExperts) (numTokens : Nat) : Except Batch.Error RoutedExperts :=
  match r.shape with
  | rows :: dims =>
    let row := dims.prod * np.itemsize r.dtype
    if numTokens < rows then .ok ⟨r.data.take (numTokens * row), numTokens :: dims, r.dtype⟩
    else if rows < numTokens then
      .ok ⟨r.data ++ List.replicate ((numTokens - rows) * row) 0, numTokens :: dims, r.dtype⟩
    else .ok r
  | [] => .error .index

def routedSample (np : Batch.Numpy) (numTokens : Nat) : Option RoutedExperts → Except Batch.Error (Option RoutedExperts)
  | some r => some <$> encodeRoutedExperts np r numTokens
  | none => .ok none

/-- A branch's sample; the encoding of its images is numpy's, and the types of its tokens come from the renderer's
map. -/
def branchSample (encodeMm : M → Option (List (String × EncodedTensor))) (mapping : List (Int × Nat)) (envName : String)
    (node : ι → Node) (y : Branch F M ι × List Bool) (routedExperts : Option RoutedExperts) : TrainingSample F where
  tokenIds := tokensOf node y.1.path
  mask := y.2
  logprobs := y.1.logprobs
  temperatures := []
  envName := envName
  refLogprobs := none
  mmKwargs := y.1.multiModalData.bind encodeMm
  routedExperts := routedExperts
  mmTokenTypeIds := y.1.multiModalData.map fun _ =>
    (tokensOf node y.1.path).map fun t => (mapping.lookup t).getD 0
  rlWeights := none
  ceWeights := none
  refKlWeights := none
  advantages := none

def toSample (np : Batch.Numpy) (encodeMm : M → Option (List (String × EncodedTensor))) (mapping : List (Int × Nat))
    (envName : String) (node : ι → Node) (y : Branch F M ι × List Bool) : Except Batch.Error (TrainingSample F) := do
  let routedExperts ← routedSample np (tokensOf node y.1.path).length y.1.routedExperts
  .ok (branchSample encodeMm mapping envName node y routedExperts)

def traceToSamples [DecidableEq ι] (np : Batch.Numpy) (encodeMm : M → Option (List (String × EncodedTensor)))
    (mapping : List (Int × Nat)) (envName : String) (t : Trace F M ι) : Except Batch.Error (List (TrainingSample F)) :=
  (iterTrainableBranches t).mapM (toSample np encodeMm mapping envName t.node)

/-! ## What a branch's mask is -/

variable [DecidableEq ι]

/-- **A branch's mask is its nodes' masks, less the nodes trained before.** -/
theorem branchMask_eq (node : ι → Node) : ∀ (path trained : List ι), path.Nodup →
    (branchMask node trained path).2 = path.flatMap (fun i =>
      if (node i).trains ∧ i ∈ trained then List.replicate (node i).mask.length false else (node i).mask) ∧
    ∀ i, i ∈ (branchMask node trained path).1 ↔ i ∈ trained ∨ i ∈ path ∧ (node i).trains
  | [], trained, _ => ⟨rfl, fun i => by simp [branchMask]⟩
  | i :: path, trained, h => by
    obtain ⟨hi, hnodup⟩ := List.nodup_cons.1 h
    rw [branchMask, List.flatMap_cons]
    split
    · rename_i hseen
      obtain ⟨hmask, hmem⟩ := branchMask_eq node path trained hnodup
      refine ⟨congrArg (List.replicate (node i).mask.length false ++ ·) hmask, fun j => (hmem j).trans ?_⟩
      simp only [List.mem_cons]
      constructor
      · rintro (hj | ⟨hj, ht⟩)
        · exact .inl hj
        · exact .inr ⟨.inr hj, ht⟩
      · rintro (hj | ⟨rfl | hj, ht⟩)
        · exact .inl hj
        · exact .inl hseen.2
        · exact .inr ⟨hj, ht⟩
    · rename_i hnew
      obtain ⟨hmask, hmem⟩ := branchMask_eq node path (if (node i).trains then i :: trained else trained) hnodup
      constructor
      · refine (congrArg ((node i).mask ++ ·) hmask).trans (congrArg _ (List.flatMap_congr fun j hj => ?_))
        -- `i` is not on the rest of the path
        have hji : j ≠ i := by
          rintro rfl
          exact hi hj
        by_cases ht : (node i).trains <;> simp [ht, hji]
      · intro j
        refine (hmem j).trans ?_
        by_cases ht : (node i).trains = true
        · simp only [if_pos ht, List.mem_cons]
          constructor
          · rintro ((rfl | hj) | ⟨hj, htj⟩)
            · exact .inr ⟨.inl rfl, ht⟩
            · exact .inl hj
            · exact .inr ⟨.inr hj, htj⟩
          · rintro (hj | ⟨rfl | hj, htj⟩)
            · exact .inl (.inr hj)
            · exact .inl (.inl rfl)
            · exact .inr ⟨hj, htj⟩
        · simp only [if_neg ht, List.mem_cons]
          constructor
          · rintro (hj | ⟨hj, htj⟩)
            · exact .inl hj
            · exact .inr ⟨.inr hj, htj⟩
          · rintro (hj | ⟨rfl | hj, htj⟩)
            · exact .inl hj
            · exact absurd htj ht
            · exact .inr ⟨hj, htj⟩

theorem Node.trains_iff {n : Node} : n.trains = true ↔ n.sampled = true ∧ true ∈ n.mask := by
  simp [Node.trains]

/-- A node that does not train is masked throughout. -/
theorem Node.mask_eq {n : Node} (h : ¬ n.trains = true) : n.mask = List.replicate n.mask.length false := by
  refine List.eq_replicate_iff.2 ⟨rfl, fun b hb => ?_⟩
  cases hs : n.sampled with
  | false => exact n.unsampled hs b hb
  | true =>
    cases b with
    | false => rfl
    | true => exact absurd (Node.trains_iff.2 ⟨hs, hb⟩) h

/-- The mask of a branch, when these nodes are trained before it. -/
def maskAfter (node : ι → Node) (before path : List ι) : List Bool :=
  path.flatMap fun i => if i ∈ before then List.replicate (node i).mask.length false else (node i).mask

theorem maskAfter_congr {node : ι → Node} {before before' path : List ι}
    (h : ∀ i ∈ path, (node i).trains = true → (i ∈ before ↔ i ∈ before')) :
    maskAfter node before path = maskAfter node before' path := by
  refine List.flatMap_congr fun i hi => ?_
  by_cases ht : (node i).trains = true
  · have hiff := h i hi ht
    by_cases hb : i ∈ before
    · rw [if_pos hb, if_pos (hiff.1 hb)]
    · rw [if_neg hb, if_neg fun hb' => hb (hiff.2 hb')]
  · rw [← Node.mask_eq ht, ite_self, ite_self]

theorem branchMask_maskAfter (node : ι → Node) {path trained : List ι} (h : path.Nodup) :
    (branchMask node trained path).2 = maskAfter node trained path := by
  refine (branchMask_eq node path trained h).1.trans (List.flatMap_congr fun i _ => ?_)
  by_cases ht : (node i).trains = true
  · simp only [ht, true_and]
  · rw [if_neg fun hb => ht hb.1, ← Node.mask_eq ht, ite_self]

/-- A node that trains and was not trained before keeps a branch. -/
theorem any_maskAfter {node : ι → Node} {before path : List ι} {i : ι} (hi : i ∈ path) (ht : (node i).trains = true)
    (hb : i ∉ before) : (maskAfter node before path).any id = true := by
  refine List.any_eq_true.2 ⟨true, List.mem_flatMap.2 ⟨i, hi, ?_⟩, rfl⟩
  rw [if_neg hb]
  exact (Node.trains_iff.1 ht).2

/-! ## The branches that are yielded -/

/-- The nodes of the branches yielded. -/
def nodesOf (ys : List (Branch F M ι × List Bool)) : List ι := ys.flatMap fun y => y.1.path

omit [DecidableEq ι] in
theorem mem_nodesOf {ys : List (Branch F M ι × List Bool)} {i : ι} : i ∈ nodesOf ys ↔ ∃ y ∈ ys, i ∈ y.1.path :=
  List.mem_flatMap

/-- **What is yielded**: branches with a trainable token, each masked where a branch yielded before it trains. -/
theorem trainableBranches_eq (node : ι → Node) : ∀ (bs : List (Branch F M ι)) (trained : List ι),
    (∀ b ∈ bs, b.path.Nodup) → ∀ pre y post, trainableBranches node trained bs = pre ++ y :: post →
      true ∈ y.2 ∧ y.2 = maskAfter node (trained ++ nodesOf pre) y.1.path
  | [], trained, _, pre, y, post, h => by simp [trainableBranches] at h
  | b :: bs, trained, hnodup, pre, y, post, h => by
    have hb := hnodup b List.mem_cons_self
    have hbs : ∀ c ∈ bs, c.path.Nodup := fun c hc => hnodup c (List.mem_cons_of_mem b hc)
    have hmask : (branchMask node trained b.path).2 = maskAfter node trained b.path := branchMask_maskAfter node hb
    have hmem := (branchMask_eq node b.path trained hb).2
    simp only [trainableBranches] at h
    split at h
    · rename_i hany
      cases pre with
      | nil =>
        obtain ⟨rfl, -⟩ := List.cons.inj h
        obtain ⟨x, hx, hid⟩ := List.any_eq_true.1 hany
        refine ⟨by simpa [show x = true from hid] using hx, ?_⟩
        rw [nodesOf, List.flatMap_nil, List.append_nil]
        exact hmask
      | cons z pre =>
        rw [List.cons_append, List.cons.injEq] at h
        obtain ⟨rfl, h⟩ := h
        obtain ⟨htrue, heq⟩ := trainableBranches_eq node bs _ hbs pre y post h
        refine ⟨htrue, heq.trans (maskAfter_congr fun i _ ht => ?_)⟩
        rw [List.mem_append, hmem i, List.mem_append, nodesOf, nodesOf, List.flatMap_cons, List.mem_append]
        simp [ht, or_assoc]
    · rename_i hany
      obtain ⟨htrue, heq⟩ := trainableBranches_eq node bs _ hbs pre y post h
      refine ⟨htrue, heq.trans (maskAfter_congr fun i _ ht => ?_)⟩
      rw [List.mem_append, hmem i, List.mem_append]
      -- whatever trains on a branch that is skipped was trained before
      have hskip : i ∈ b.path → i ∈ trained := by
        intro hi
        by_contra hnot
        exact hany (hmask ▸ any_maskAfter hi ht hnot)
      constructor
      · rintro ((hi | ⟨hi, -⟩) | hi)
        · exact .inl hi
        · exact .inl (hskip hi)
        · exact .inr hi
      · rintro (hi | hi)
        · exact .inl (.inl hi)
        · exact .inr hi

/-- **A node that trains is on a branch that is yielded.** -/
theorem mem_trainableBranches (node : ι → Node) {i : ι} (ht : (node i).trains = true) :
    ∀ (bs : List (Branch F M ι)) (trained : List ι), (∀ b ∈ bs, b.path.Nodup) → (∃ b ∈ bs, i ∈ b.path) →
      i ∈ trained ∨ i ∈ nodesOf (trainableBranches node trained bs)
  | [], _, _, h => by simp at h
  | b :: bs, trained, hnodup, h => by
    have hb := hnodup b List.mem_cons_self
    have hbs : ∀ c ∈ bs, c.path.Nodup := fun c hc => hnodup c (List.mem_cons_of_mem b hc)
    have hmask : (branchMask node trained b.path).2 = maskAfter node trained b.path := branchMask_maskAfter node hb
    have hmem := (branchMask_eq node b.path trained hb).2
    by_cases htrained : i ∈ trained
    · exact .inl htrained
    right
    simp only [trainableBranches]
    by_cases hi : i ∈ b.path
    · rw [if_pos (hmask ▸ any_maskAfter hi ht htrained)]
      exact mem_nodesOf.2 ⟨_, List.mem_cons_self, hi⟩
    · obtain ⟨c, hc, hic⟩ := h
      rcases List.mem_cons.1 hc with rfl | hc
      · exact absurd hic hi
      rcases mem_trainableBranches node ht bs (branchMask node trained b.path).1 hbs ⟨c, hc, hic⟩ with hin | hin
      · rcases (hmem i).1 hin with hin | ⟨hin, -⟩
        · exact absurd hin htrained
        · exact absurd hin hi
      · split
        · obtain ⟨y, hy, hiy⟩ := mem_nodesOf.1 hin
          exact mem_nodesOf.2 ⟨y, List.mem_cons_of_mem _ hy, hiy⟩
        · exact hin

theorem trainableBranches_sublist (node : ι → Node) : ∀ (bs : List (Branch F M ι)) (trained : List ι),
    ((trainableBranches node trained bs).map Prod.fst).Sublist bs
  | [], _ => List.Sublist.refl []
  | b :: bs, trained => by
    simp only [trainableBranches]
    split
    · exact (trainableBranches_sublist node bs _).cons_cons b
    · exact (trainableBranches_sublist node bs _).cons b

/-! ## Every sampled token is trained once -/

/-- The part of a path's mask that covers one of its nodes. -/
def segment (node : ι → Node) (path : List ι) (mask : List Bool) (i : ι) : List Bool :=
  (mask.drop ((path.takeWhile (· ≠ i)).flatMap fun j => (node j).mask).length).take (node i).mask.length

theorem segment_maskAfter (node : ι → Node) (before : List ι) {i : ι} : ∀ path : List ι, i ∈ path →
    segment node path (maskAfter node before path) i =
      if i ∈ before then List.replicate (node i).mask.length false else (node i).mask
  | j :: path, hi => by
    have hlen : ∀ k, (if k ∈ before then List.replicate (node k).mask.length false else (node k).mask).length =
        (node k).mask.length := by
      intro k
      split
      · exact List.length_replicate
      · rfl
    rw [segment, maskAfter, List.flatMap_cons]
    by_cases hij : j = i
    · subst hij
      rw [List.takeWhile_cons_of_neg (by simp), List.flatMap_nil, List.length_nil, List.drop_zero,
        List.take_left' (hlen j)]
    · have hmem : i ∈ path := by
        rcases List.mem_cons.1 hi with rfl | hmem
        · exact absurd rfl hij
        · exact hmem
      have ih := segment_maskAfter node before path hmem
      rw [List.takeWhile_cons_of_pos (by simpa using hij), List.flatMap_cons, List.length_append, ← List.drop_drop,
        List.drop_left' (hlen j)]
      exact ih

omit [DecidableEq ι] in
theorem length_tokensOf (node : ι → Node) (path : List ι) :
    (tokensOf node path).length = (path.map fun i => (node i).mask.length).sum := by
  rw [tokensOf, List.length_flatMap]
  exact congrArg List.sum (List.map_congr_left fun i _ => (node i).mask_length.symm)

theorem length_maskAfter (node : ι → Node) (before path : List ι) :
    (maskAfter node before path).length = (tokensOf node path).length := by
  rw [length_tokensOf, maskAfter, List.length_flatMap]
  refine congrArg List.sum (List.map_congr_left fun i _ => ?_)
  split
  · exact List.length_replicate
  · rfl

/-- A sample's streams are its branch's. -/
structure Carries (t : Trace F M ι) (b : Branch F M ι) (s : TrainingSample F) : Prop where
  tokenIds : s.tokenIds = tokensOf t.node b.path
  mask : s.mask.length = s.tokenIds.length
  logprobs : s.logprobs = b.logprobs
  logprobs_length : s.logprobs.length = s.tokenIds.length

omit [DecidableEq ι] in
theorem Trace.nodup (t : Trace F M ι) {b : Branch F M ι} (hb : b ∈ t.branches) : b.path.Nodup :=
  ((t.paths b.path).1 (List.mem_map_of_mem hb)).nodup t.acyclic

/-- **A router-replay array is encoded with a row for each token.** -/
theorem encodeRoutedExperts_isOk (np : Batch.Numpy) {r : RoutedExperts} (numTokens : Nat) (h : r.shape.length = 3) :
    ∃ r', encodeRoutedExperts np r numTokens = .ok r' ∧ r'.shape = numTokens :: r.shape.tail ∧ r'.dtype = r.dtype ∧
      (r.data.length = r.shape.prod * np.itemsize r.dtype →
        r'.data.length = numTokens * (r.shape.tail.prod * np.itemsize r.dtype)) := by
  cases hs : r.shape with
  | nil =>
    rw [hs] at h
    cases h
  | cons rows dims =>
    simp only [encodeRoutedExperts, hs, List.tail_cons, List.prod_cons, Nat.mul_assoc]
    split
    · rename_i hlt
      refine ⟨_, rfl, rfl, rfl, fun hdata => ?_⟩
      rw [List.length_take, hdata]
      exact Nat.min_eq_left (Nat.mul_le_mul_right _ hlt.le)
    · split
      · rename_i hlt
        refine ⟨_, rfl, rfl, rfl, fun hdata => ?_⟩
        rw [List.length_append, hdata, List.length_replicate, ← Nat.add_mul, Nat.add_sub_cancel' hlt.le]
      · obtain rfl : rows = numTokens := by omega
        exact ⟨r, rfl, hs, rfl, fun hdata => hdata⟩

omit [DecidableEq ι] in
theorem routedSample_isOk (np : Batch.Numpy) (t : Trace F M ι) {b : Branch F M ι} (hb : b ∈ t.branches) (n : Nat) :
    ∃ r, routedSample np n b.routedExperts = .ok r := by
  cases hr : b.routedExperts with
  | none => exact ⟨none, rfl⟩
  | some r =>
    obtain ⟨r', hr', -⟩ := encodeRoutedExperts_isOk np n (t.routed_shape b hb r hr)
    exact ⟨some r', by rw [routedSample, hr']; rfl⟩

/-- The first element of a list that has a property. -/
theorem exists_first {α : Type} (p : α → Prop) [DecidablePred p] (l : List α) (h : ∃ x ∈ l, p x) :
    ∃ pre x post, l = pre ++ x :: post ∧ p x ∧ ∀ z ∈ pre, ¬ p z := by
  obtain ⟨x, hx⟩ := Option.isSome_iff_exists.1 (List.find?_isSome.2 (by simpa using h) : (l.find? (p ·)).isSome)
  obtain ⟨hp, pre, post, hl, hpre⟩ := List.find?_eq_some_iff_append.1 hx
  exact ⟨pre, x, post, hl, by simpa using hp, fun z hz => by simpa using hpre z hz⟩

/-- **Every sampled token is trained once**: a trace's samples go with the branches that are yielded, each aligned with
its branch and with a trainable token; a sample trains a node where no sample before it has the node, and the tokens of
every sampled node are trained by the first sample that has them and are context in every other. -/
theorem samples_cover [Finite ι] (np : Batch.Numpy) (encodeMm : M → Option (List (String × EncodedTensor)))
    (mapping : List (Int × Nat)) (envName : String) (t : Trace F M ι) :
    ∃ emitted : List (Branch F M ι × TrainingSample F),
      traceToSamples np encodeMm mapping envName t = .ok (emitted.map Prod.snd) ∧
      emitted.map Prod.fst = (iterTrainableBranches t).map Prod.fst ∧ (emitted.map Prod.fst).Sublist t.branches ∧
      (∀ x ∈ emitted, Carries t x.1 x.2 ∧ true ∈ x.2.mask) ∧
      (∀ pre x post, emitted = pre ++ x :: post → ∀ i ∈ x.1.path, segment t.node x.1.path x.2.mask i =
        if i ∈ pre.flatMap (fun z => z.1.path) then List.replicate (t.node i).mask.length false
        else (t.node i).mask) ∧
      ∀ i, (t.node i).sampled = true → true ∈ (t.node i).mask → ∃ pre x post, emitted = pre ++ x :: post ∧
        i ∈ x.1.path ∧ (∀ z ∈ pre, i ∉ z.1.path) ∧ segment t.node x.1.path x.2.mask i = (t.node i).mask ∧
        ∀ z ∈ post, i ∈ z.1.path →
          segment t.node z.1.path z.2.mask i = List.replicate (t.node i).mask.length false := by
  have hmem : ∀ y ∈ iterTrainableBranches t, y.1 ∈ t.branches := fun y hy =>
    (trainableBranches_sublist t.node t.branches []).subset (List.mem_map_of_mem hy)
  have hnodup : ∀ b ∈ t.branches, b.path.Nodup := fun b hb => t.nodup hb
  have heq := trainableBranches_eq t.node t.branches [] hnodup
  set sample : Branch F M ι × List Bool → TrainingSample F := fun y => branchSample encodeMm mapping envName t.node y
    (match routedSample np (tokensOf t.node y.1.path).length y.1.routedExperts with
      | .ok r => r
      | .error _ => none) with hsample
  have hok : ∀ y ∈ iterTrainableBranches t, toSample np encodeMm mapping envName t.node y = .ok (sample y) := by
    intro y hy
    obtain ⟨r, hr⟩ := routedSample_isOk np t (hmem y hy) (tokensOf t.node y.1.path).length
    simp only [toSample, hsample, hr]
    rfl
  -- a split of what is emitted is a split of what is yielded
  have hsplit : ∀ pre x post, (iterTrainableBranches t).map (fun y => (y.1, sample y)) = pre ++ x :: post →
      ∃ pre' y post', iterTrainableBranches t = pre' ++ y :: post' ∧ pre = pre'.map (fun y => (y.1, sample y)) ∧
        x = (y.1, sample y) := by
    intro pre x post h
    obtain ⟨pre', rest, hpre, rfl, hrest⟩ := List.map_eq_append_iff.1 h
    obtain ⟨y, post', rfl, rfl, -⟩ := List.map_eq_cons_iff.1 hrest
    exact ⟨pre', y, post', hpre, rfl, rfl⟩
  have hnodes : ∀ pre' : List (Branch F M ι × List Bool),
      (pre'.map fun y => (y.1, sample y)).flatMap (fun z => z.1.path) = nodesOf pre' := fun pre' => by
    rw [List.flatMap_map, nodesOf]
  have hsegment : ∀ pre x post, (iterTrainableBranches t).map (fun y => (y.1, sample y)) = pre ++ x :: post →
      ∀ i ∈ x.1.path, segment t.node x.1.path x.2.mask i =
        if i ∈ pre.flatMap (fun z => z.1.path) then List.replicate (t.node i).mask.length false
        else (t.node i).mask := by
    intro pre x post h i hi
    obtain ⟨pre', y, post', hy, rfl, rfl⟩ := hsplit pre x post h
    obtain ⟨-, hmask⟩ := heq pre' y post' hy
    rw [hnodes]
    refine (congrArg (fun m => segment t.node y.1.path m i) hmask).trans ?_
    exact segment_maskAfter t.node (nodesOf pre') y.1.path hi
  refine ⟨(iterTrainableBranches t).map fun y => (y.1, sample y), ?_, ?_, ?_, fun x hx => ?_, hsegment, fun i hs ht => ?_⟩
  · rw [traceToSamples, Checked.mapM_of_forall hok, List.map_map]
    rfl
  · rw [List.map_map]
    rfl
  · rw [List.map_map]
    exact trainableBranches_sublist t.node t.branches []
  · obtain ⟨y, hy, rfl⟩ := List.mem_map.1 hx
    obtain ⟨pre, post, hsplit⟩ := List.append_of_mem hy
    obtain ⟨htrue, hmask⟩ := heq pre y post hsplit
    refine ⟨⟨rfl, ?_, rfl, t.logprobs_length y.1 (hmem y hy)⟩, htrue⟩
    exact (congrArg List.length hmask).trans (length_maskAfter t.node _ y.1.path)
  · have htrains := Node.trains_iff.2 ⟨hs, ht⟩
    obtain ⟨path, hpath, hi⟩ := exists_rootToLeaf t.acyclic i
    obtain ⟨b, hb, rfl⟩ := List.mem_map.1 ((t.paths path).2 hpath)
    have hyielded : i ∈ nodesOf (iterTrainableBranches t) :=
      (mem_trainableBranches t.node htrains t.branches [] hnodup ⟨b, hb, hi⟩).resolve_left List.not_mem_nil
    obtain ⟨y, hy, hiy⟩ := mem_nodesOf.1 hyielded
    obtain ⟨pre, x, post, hx, hix, hpre⟩ := exists_first (fun z : Branch F M ι × TrainingSample F => i ∈ z.1.path)
      ((iterTrainableBranches t).map fun y => (y.1, sample y)) ⟨_, List.mem_map_of_mem hy, hiy⟩
    refine ⟨pre, x, post, hx, hix, hpre, ?_, fun z hz hiz => ?_⟩
    · rw [hsegment pre x post hx i hix, if_neg]
      intro hmem
      obtain ⟨z, hz, hiz⟩ := List.mem_flatMap.1 hmem
      exact hpre z hz hiz
    · obtain ⟨mid, last, rfl⟩ := List.append_of_mem hz
      rw [hsegment (pre ++ x :: mid) z last (by rw [hx, List.append_assoc, List.cons_append]) i hiz, if_pos]
      exact List.mem_flatMap.2 ⟨x, List.mem_append_right pre List.mem_cons_self, hix⟩

namespace Sample

/-- A sampled message, answered twice. -/
def node (i : Fin 3) : Node := ⟨[i.val], [true], true, .assistant, [], rfl, by simp⟩

instance neZero_three : NeZero 3 := ⟨by decide⟩

def parent : Fin 3 → Option (Fin 3)
  | 0 => none
  | _ => some 0

theorem acyclic : Acyclic parent := by
  have hedge : ∀ i j, Edge parent i j → i < j := by unfold Edge; decide
  have hlt : ∀ i j, Relation.TransGen (Edge parent) i j → i < j := by
    intro i j h
    induction h with
    | single h => exact hedge _ _ h
    | tail _ h ih => exact ih.trans (hedge _ _ h)
  exact fun i hi => lt_irrefl i (hlt i i hi)

theorem paths (path : List (Fin 3)) : path ∈ [[0, 1], [0, 2]] ↔ RootToLeaf parent path := by
  constructor
  · intro h
    simp only [List.mem_cons, List.not_mem_nil, or_false] at h
    rcases h with rfl | rfl
    · exact ⟨⟨0, rfl, rfl⟩, List.isChain_pair.2 rfl, 1, rfl, by unfold Leaf Edge; decide⟩
    · exact ⟨⟨0, rfl, rfl⟩, List.isChain_pair.2 rfl, 2, rfl, by unfold Leaf Edge; decide⟩
  · rintro ⟨⟨r, hr, hroot⟩, hchain, l, hl, hleaf⟩
    have hzero : ∀ i, parent i = none → i = 0 := by decide
    have hchild : ∀ j, Edge parent 0 j → j = 1 ∨ j = 2 := by unfold Edge; decide
    have hnone : ∀ i, i = 1 ∨ i = 2 → ∀ j, ¬ Edge parent i j := by unfold Edge; decide
    match path with
    | [a] =>
      obtain rfl := Option.some.inj hr
      obtain rfl := Option.some.inj hl
      obtain rfl := hzero a hroot
      exact absurd (show Edge parent 0 1 from rfl) (hleaf 1)
    | [a, b] =>
      obtain rfl := Option.some.inj hr
      obtain rfl := hzero a hroot
      rcases hchild b (List.isChain_pair.1 hchain) with rfl | rfl
      · exact List.mem_cons_self
      · exact List.mem_cons_of_mem _ List.mem_cons_self
    | a :: b :: c :: _ =>
      obtain rfl := Option.some.inj hr
      obtain rfl := hzero a hroot
      obtain ⟨hab, hrest⟩ := List.isChain_cons_cons.1 hchain
      exact absurd (List.isChain_cons_cons.1 hrest).1 (hnone b (hchild b hab) c)

def trace : Trace Int Unit (Fin 3) where
  node := node
  parent := parent
  branches := [⟨[0, 1], [-1, -1], none, none⟩, ⟨[0, 2], [-1, -2], none, none⟩]
  acyclic := acyclic
  paths := paths
  logprobs_length := by decide
  routed_shape := by simp

end Sample

/-- The message that both answers share is trained with the first. -/
theorem samples_cover_fork : ∃ emitted : List (Branch Int Unit (Fin 3) × TrainingSample Int),
    traceToSamples ⟨fun _ => 1, fun _ => .ok []⟩ (fun _ => none) [] "env" Sample.trace =
      .ok (emitted.map Prod.snd) ∧ emitted.map (·.2.mask) = [[true, true], [false, true]] := by
  obtain ⟨emitted, hsamples, -⟩ := samples_cover ⟨fun _ => 1, fun _ => .ok []⟩ (fun _ => none) [] "env" Sample.trace
  have heval : ((traceToSamples ⟨fun _ => 1, fun _ => .ok []⟩ (fun _ => none) [] "env" Sample.trace).toOption.map
      (·.map (·.mask))) = some [[true, true], [false, true]] := by decide +kernel
  rw [hsamples] at heval
  have hmasks : (emitted.map Prod.snd).map (·.mask) = [[true, true], [false, true]] := Option.some.inj heval
  rw [List.map_map] at hmasks
  exact ⟨emitted, hsamples, hmasks⟩

end Traces
end Aether
