import AetherRl.AlgoEcho
/-!
# AlgoFinalize — the routing of a finished group's samples

Echo weighs only what the model did not sample, so what it marks lies off the loss mask; the advantages are one value on
the mask and nothing off it; and a sample that went through all of it is one that `prepare_sample` takes.
-/
namespace Aether
namespace Algo

open Batch Checked Traces

/-! ## Samples of branches -/

/-- A branch's mask: each node's own mask, or nothing where an earlier branch trained it. -/
def Masks (nodes : List Node) (mask : List Bool) : Prop :=
  ∃ masks, List.Forall₂ (fun n m => m = n.mask ∨ m = List.replicate n.mask.length false) nodes masks ∧
    mask = masks.flatten

/-- A sample as its trace gives it, with no stream written on it. -/
structure OfBranch (np : Numpy) (nodes : List Node) (s : TrainingSample ℚ) : Prop where
  tokens : s.tokenIds.length = branchTokens nodes
  masks : Masks nodes s.mask
  logprobs : s.logprobs.length = s.tokenIds.length
  refLogprobs : s.refLogprobs = none
  rlWeights : s.rlWeights = none
  ceWeights : s.ceWeights = none
  refKlWeights : s.refKlWeights = none
  advantages : s.advantages = none
  mmTokenTypeIds : ∀ l, s.mmTokenTypeIds = some l → l.length = s.tokenIds.length
  images : s.mmKwargs.isSome → s.mmTokenTypeIds.isSome
  routed : ∀ r, s.routedExperts = some r → ∃ layers topk, r.shape = [s.tokenIds.length, layers, topk] ∧
    r.data.length = s.tokenIds.length * (layers * topk * np.itemsize r.dtype)

/-- A rollout whose samples are those of its trace; an array's bytes are as many as its shape says. -/
def FromTrace (np : Numpy) (r : Rollout) : Prop :=
  ∃ (M ι : Type) (_ : DecidableEq ι) (encodeMm : M → Option (List (String × EncodedTensor)))
    (mapping : List (Int × Nat)) (t : Trace ℚ M ι),
    (∀ b ∈ t.branches, ∀ x, b.routedExperts = some x → x.data.length = x.shape.prod * np.itemsize x.dtype) ∧
    traceToSamples np encodeMm mapping r.envName t = .ok r.samples ∧
    r.trainableBranches = (iterTrainableBranches t).map fun y => y.1.path.map t.node

theorem masks_maskAfter {ι : Type} [DecidableEq ι] (node : ι → Node) (before path : List ι) :
    Masks (path.map node) (maskAfter node before path) := by
  refine ⟨path.map fun i => if i ∈ before then List.replicate (node i).mask.length false else (node i).mask, ?_, ?_⟩
  · rw [List.forall₂_map_left_iff, List.forall₂_map_right_iff, List.forall₂_same]
    intro i _
    by_cases hi : i ∈ before
    · rw [if_pos hi]
      exact .inr rfl
    · rw [if_neg hi]
      exact .inl rfl
  · rw [maskAfter, List.flatMap_def]

theorem branchTokens_map {ι : Type} (node : ι → Node) (path : List ι) :
    branchTokens (path.map node) = (tokensOf node path).length := by
  rw [branchTokens, List.map_map, tokensOf, List.length_flatMap]
  rfl

theorem Masks.length {nodes : List Node} {mask : List Bool} (h : Masks nodes mask) :
    mask.length = branchTokens nodes := by
  obtain ⟨masks, hmasks, rfl⟩ := h
  rw [List.length_flatten, branchTokens]
  congr 1
  induction hmasks with
  | nil => rfl
  | @cons n m ns ms hm _ ih =>
    have hlen : m.length = n.tokenIds.length := by
      rcases hm with rfl | rfl
      · exact n.mask_length
      · rw [List.length_replicate, n.mask_length]
    rw [List.map_cons, List.map_cons, ih, hlen]

/-- **The samples of a trace go with its branches.** -/
theorem FromTrace.ofBranch {np : Numpy} {r : Rollout} (h : FromTrace np r) :
    List.Forall₂ (OfBranch np) r.trainableBranches r.samples := by
  obtain ⟨M, ι, _, encodeMm, mapping, t, hbytes, hsamples, hbranches⟩ := h
  rw [hbranches, List.forall₂_map_left_iff]
  have hnodup : ∀ b ∈ t.branches, b.path.Nodup := fun b hb => t.nodup hb
  have hyielded : ∀ y ∈ iterTrainableBranches t, y.1 ∈ t.branches ∧ ∃ before, y.2 = maskAfter t.node before y.1.path := by
    intro y hy
    obtain ⟨pre, post, hsplit⟩ := List.append_of_mem hy
    obtain ⟨-, hmask⟩ := trainableBranches_eq t.node t.branches [] hnodup pre y post hsplit
    exact ⟨(trainableBranches_sublist t.node t.branches []).subset (List.mem_map_of_mem hy), _, hmask⟩
  have hboth := (List.forall₂_and_left _ _).2 ⟨hyielded, mapM_eq_ok.1 hsamples⟩
  refine hboth.imp ?_
  rintro ⟨b, mask⟩ s ⟨⟨hb, before, hmask⟩, hs⟩
  obtain ⟨routed, hrouted, hs⟩ := bind_eq_ok.1 hs
  cases hs
  refine ⟨(branchTokens_map t.node b.path).symm, ?_, t.logprobs_length b hb, rfl, rfl, rfl, rfl, rfl, ?_, ?_, ?_⟩
  · change Masks _ mask
    rw [show mask = _ from hmask]
    exact masks_maskAfter t.node before b.path
  · intro l hl
    obtain ⟨_, -, rfl⟩ := Option.map_eq_some_iff.1 hl
    exact List.length_map _
  · intro hkwargs
    obtain ⟨kwargs, hkwargs⟩ := Option.isSome_iff_exists.1 hkwargs
    obtain ⟨data, hdata, -⟩ := Option.bind_eq_some_iff.1 hkwargs
    change (b.multiModalData.map _).isSome
    rw [show b.multiModalData = some data from hdata]
    rfl
  · intro x hx
    change routed = some x at hx
    cases hexperts : b.routedExperts with
    | none =>
      rw [hexperts] at hrouted
      cases hrouted
      cases hx
    | some r₀ =>
      rw [hexperts] at hrouted
      have hshape := t.routed_shape b hb r₀ (by rw [hexperts]; exact rfl)
      obtain ⟨x', hx', hshape', hdtype, hdata⟩ :=
        encodeRoutedExperts_isOk np (tokensOf t.node b.path).length hshape
      rw [Traces.routedSample, hx'] at hrouted
      cases hrouted
      cases hx
      obtain ⟨rows, layers, topk, hthree⟩ := List.length_eq_three.1 hshape
      refine ⟨layers, topk, ?_, ?_⟩
      · rw [hshape', hthree]
        rfl
      · have hlength := hdata (hbytes b hb r₀ hexperts)
        rw [hlength, hthree, hdtype]
        simp [branchSample]

/-! ## Echo marks what is off the mask -/

theorem offMask_of_false : ∀ {mask : List Bool} {o : List ℚ}, mask.length = o.length → (∀ b ∈ mask, b = false) →
    OffMask mask o
  | [], [], _, _ => .nil
  | b :: bs, q :: qs, hlen, hfalse => by
    refine .cons (fun hb => ?_) (offMask_of_false (Nat.succ.inj hlen) fun c hc => hfalse c (List.mem_cons_of_mem b hc))
    rw [hfalse b List.mem_cons_self] at hb
    cases hb

theorem offMask_zeros : ∀ {mask : List Bool} {n : Nat}, mask.length = n → OffMask mask (List.replicate n 0)
  | [], _, rfl => .nil
  | _ :: bs, _, rfl => .cons (fun _ => rfl) (@offMask_zeros bs bs.length rfl)

theorem length_nodeWeights {roles : EchoRoles} {seen : Bool} {n : Node} {keep : Option (List Bool)}
    (hkeep : ∀ k, keep = some k → n.tokenIds.length ≤ k.length) :
    (nodeWeights roles seen n keep).length = n.tokenIds.length := by
  unfold nodeWeights
  split
  · exact List.length_replicate
  · dsimp only
    rw [List.length_zipWith]
    have hcontent : (if n.isContent.length = n.tokenIds.length then n.isContent
        else List.replicate n.tokenIds.length true).length = n.tokenIds.length := by
      split
      · assumption
      · exact List.length_replicate
    rw [hcontent]
    cases keep with
    | none => rw [List.length_replicate, Nat.min_self]
    | some k => rw [List.length_take, Nat.min_eq_left (hkeep k rfl), Nat.min_self]

theorem nodeWeights_offMask {roles : EchoRoles} {seen : Bool} {n : Node} {keep : Option (List Bool)} {m : List Bool}
    (hkeep : ∀ k, keep = some k → n.tokenIds.length ≤ k.length)
    (hm : m = n.mask ∨ m = List.replicate n.mask.length false) : OffMask m (nodeWeights roles seen n keep) := by
  have hlen : m.length = n.tokenIds.length := by
    rcases hm with rfl | rfl
    · exact n.mask_length
    · rw [List.length_replicate, n.mask_length]
  by_cases hsampled : n.sampled = true
  · have hnone : nodeWeights roles seen n keep = List.replicate n.tokenIds.length 0 := by
      simp [nodeWeights, hsampled]
    rw [hnone]
    exact offMask_zeros hlen
  · apply offMask_of_false
    · rw [hlen, length_nodeWeights hkeep]
    · rcases hm with rfl | rfl
      · exact n.unsampled (by simpa using hsampled)
      · exact fun b hb => List.eq_of_mem_replicate hb

/-- **Echo's weights lie off the mask.** -/
theorem observationWeights_offMask {roles : EchoRoles} : ∀ {nodes : List Node} {masks : List (List Bool)} {seen : Bool}
    {keep : Option (List Bool)},
    List.Forall₂ (fun n m => m = n.mask ∨ m = List.replicate n.mask.length false) nodes masks →
    (∀ k, keep = some k → k.length = branchTokens nodes) →
    OffMask masks.flatten (observationWeights roles seen nodes keep)
  | [], _, _, _, .nil, _ => .nil
  | n :: ns, _ :: _, seen, keep, .cons hm h, hkeep => by
    have htokens : branchTokens (n :: ns) = n.tokenIds.length + branchTokens ns := by
      rw [branchTokens, List.map_cons, List.sum_cons]
      rfl
    have hnode : ∀ k, keep = some k → n.tokenIds.length ≤ k.length := by
      intro k hk
      rw [hkeep k hk, htokens]
      exact Nat.le_add_right _ _
    have hrest : ∀ k, keep.map (·.drop n.tokenIds.length) = some k → k.length = branchTokens ns := by
      intro k hk
      obtain ⟨k', hk', rfl⟩ := Option.map_eq_some_iff.1 hk
      rw [List.length_drop, hkeep k' hk', htokens, Nat.add_sub_cancel_left]
    exact List.rel_append (nodeWeights_offMask hnode hm) (observationWeights_offMask h hrest)

/-- Masks of a filter that passed its checks span their branches. -/
theorem checkKeepMasks_eq_ok : ∀ {idx : Nat} {branches : List (List Node)} {ms : List KeepMask} {masks : List (List Bool)},
    ms.length = branches.length → checkKeepMasks idx branches ms = .ok masks →
      List.Forall₂ (fun b k => k.length = branchTokens b) branches masks
  | _, [], [], _, _, h => by
    cases h
    exact .nil
  | idx, b :: bs, m :: ms, masks, hlen, h => by
    obtain ⟨k, hk, h⟩ := bind_eq_ok.1 h
    obtain ⟨ks, hks, h⟩ := bind_eq_ok.1 h
    cases h
    refine .cons ?_ (checkKeepMasks_eq_ok (Nat.succ.inj hlen) hks)
    cases m with
    | list mask =>
      rw [checkKeepMask] at hk
      split at hk
      · cases hk
        assumption
      · cases hk
    | other type => cases hk

theorem filterMasks_eq_ok {filter : Rollout → KeepMasks} {r : Rollout} {masks : List (List Bool)}
    (h : filterMasks filter r = .ok masks) :
    List.Forall₂ (fun b k => k.length = branchTokens b) r.trainableBranches masks := by
  unfold filterMasks at h
  split at h
  · split at h
    · rename_i hlen
      exact checkKeepMasks_eq_ok hlen h
    · cases h
  · cases h

theorem branchWeights_offMask {np : Numpy} {roles : EchoRoles} : ∀ {branches : List (List Node)}
    {samples : List (TrainingSample ℚ)} {keep : Option (List (List Bool))}, List.Forall₂ (OfBranch np) branches samples →
    (∀ ks, keep = some ks → List.Forall₂ (fun b k => k.length = branchTokens b) branches ks) →
    List.Forall₂ (fun s o => OffMask s.mask o) samples (branchWeights roles branches keep)
  | [], [], _, .nil, _ => .nil
  | b :: bs, s :: ss, keep, .cons hs h, hkeep => by
    obtain ⟨masks, hmasks, hmask⟩ := hs.masks
    have hhead : ∀ k, keep.bind (·.head?) = some k → k.length = branchTokens b := by
      intro k hk
      obtain ⟨ks, hks, hk⟩ := Option.bind_eq_some_iff.1 hk
      obtain ⟨k', ks', hk', -, rfl⟩ := List.forall₂_cons_left_iff.1 (hkeep ks hks)
      cases hk
      exact hk'
    have htail : ∀ ks, keep.map (·.tail) = some ks → List.Forall₂ (fun b k => k.length = branchTokens b) bs ks := by
      intro ks hks
      obtain ⟨ks', hks', rfl⟩ := Option.map_eq_some_iff.1 hks
      obtain ⟨k, ks'', -, hrest, rfl⟩ := List.forall₂_cons_left_iff.1 (hkeep ks' hks')
      exact hrest
    refine .cons ?_ (branchWeights_offMask h htail)
    rw [hmask]
    exact observationWeights_offMask hmasks hhead

/-! ## The streams of a processed rollout -/

/-- A sample with the streams that processing writes: the weights of its observed tokens, the routing of its actions, the
advantages if there are any, and one temperature. -/
def stamped (c : ActionLossType) (temperature : ℚ) (advantages : Option (List ℚ)) (s : TrainingSample ℚ)
    (observed : List ℚ) : TrainingSample ℚ :=
  { routedStreams (weighSample s observed) c observed with
    advantages := advantages
    temperatures := List.replicate s.tokenIds.length temperature }

@[simp] theorem weighSample_mask (s : TrainingSample ℚ) (o : List ℚ) : (weighSample s o).mask = s.mask := by
  unfold weighSample
  split <;> rfl

@[simp] theorem weighSample_tokenIds (s : TrainingSample ℚ) (o : List ℚ) : (weighSample s o).tokenIds = s.tokenIds := by
  unfold weighSample
  split <;> rfl

theorem weighSample_zeros (s : TrainingSample ℚ) (n : Nat) : weighSample s (List.replicate n 0) = s := by
  have hnone : (List.replicate n (0 : ℚ)).any (· ≠ 0) = false := by simp
  rw [weighSample, hnone]
  rfl

/-- Nothing is marked where all weights are zero. -/
theorem eq_zeros_of_any : ∀ {o : List ℚ}, o.any (· ≠ 0) = false → o = List.replicate o.length 0
  | [], _ => rfl
  | q :: qs, h => by
    rw [List.any_cons, Bool.or_eq_false_iff] at h
    have hq : q = 0 := by simpa using h.1
    rw [hq, List.length_cons, List.replicate_succ, ← eq_zeros_of_any h.2]

/-- **A weighed sample is unrouted but for its observed tokens.** -/
theorem OfBranch.unrouted {np : Numpy} {nodes : List Node} {s : TrainingSample ℚ} (h : OfBranch np nodes s) {o : List ℚ}
    (ho : OffMask s.mask o) : Unrouted (weighSample s o) o := by
  have hmask : s.mask.length = s.tokenIds.length := h.masks.length.trans h.tokens.symm
  refine ⟨?_, ?_, ?_, ?_, ?_⟩
  · unfold weighSample
    split
    · exact h.rlWeights
    · exact h.rlWeights
  · unfold weighSample
    split
    · exact h.refKlWeights
    · exact h.refKlWeights
  · unfold weighSample
    split
    · rfl
    · rename_i hany
      have hzeros := eq_zeros_of_any (by simpa using hany)
      rw [h.ceWeights, hzeros, ← ho.length_eq, hmask]
      rfl
  · rw [weighSample_mask, weighSample_tokenIds, hmask]
  · rw [weighSample_mask]
    exact ho

/-- Zipping a rollout's samples with the weights of their branches. -/
theorem weighSamples_eq : ∀ {ss : List (TrainingSample ℚ)} {os : List (List ℚ)}, ss.length = os.length →
    weighSamples ss os = List.zipWith weighSample ss os
  | [], [], _ => rfl
  | s :: ss, o :: os, h => by rw [weighSamples, weighSamples_eq (Nat.succ.inj h), List.zipWith_cons_cons]

/-- **What arrival does to a rollout**: its samples get the weights of their observed tokens. -/
theorem finalizeRollout_eq {np : Numpy} {algorithm : Algorithm} {r r' : Rollout} (hr : FromTrace np r)
    (h : finalizeRollout algorithm r = .ok r') : ∃ os, (r.samples ≠ [] → observed algorithm r = .ok os) ∧
      List.Forall₂ (fun s o => OffMask s.mask o) r.samples os ∧
      r' = { r with samples := List.zipWith weighSample r.samples os } := by
  have hbranch := hr.ofBranch
  unfold finalizeRollout at h
  split at h
  · rename_i hnil
    cases h
    refine ⟨[], fun hne => absurd hnil hne, ?_, ?_⟩
    · rw [hnil]
      exact .nil
    · rw [hnil, List.zipWith_nil_left, ← hnil]
  · have hplain : ∀ ss : List (TrainingSample ℚ),
        List.zipWith weighSample ss (ss.map fun s => List.replicate s.tokenIds.length 0) = ss := by
      intro ss
      induction ss with
      | nil => rfl
      | cons s ss ih => rw [List.map_cons, List.zipWith_cons_cons, weighSample_zeros, ih]
    have hzeros : List.Forall₂ (fun s o => OffMask s.mask o) r.samples
        (r.samples.map fun s => List.replicate s.tokenIds.length 0) := by
      rw [List.forall₂_map_right_iff, List.forall₂_same]
      intro s hs
      obtain ⟨nodes, -, hs⟩ := forall₂_mem_right hbranch s hs
      exact offMask_zeros (hs.masks.length.trans hs.tokens.symm)
    cases algorithm with
    | grpo penalty =>
      cases h
      exact ⟨_, fun _ => rfl, hzeros, by rw [hplain]⟩
    | maxRl =>
      cases h
      exact ⟨_, fun _ => rfl, hzeros, by rw [hplain]⟩
    | echo penalty roles filter =>
      obtain ⟨keep, hkeep, h⟩ := bind_eq_ok.1 h
      cases h
      have hspans : ∀ ks, keep = some ks →
          List.Forall₂ (fun b k => k.length = branchTokens b) r.trainableBranches ks := by
        rintro ks rfl
        cases filter with
        | none => cases hkeep
        | some filter =>
          cases hmasks : filterMasks filter r with
          | error e =>
            rw [keepMasks, hmasks] at hkeep
            cases hkeep
          | ok masks =>
            rw [keepMasks, hmasks] at hkeep
            cases hkeep
            exact filterMasks_eq_ok hmasks
      have hoff := @branchWeights_offMask np roles _ _ keep hbranch hspans
      refine ⟨_, fun _ => ?_, hoff, ?_⟩
      · rw [observed, hkeep]
        rfl
      · rw [weighSamples_eq hoff.length_eq]

/-- The stream that one value gives, sliced again sample by sample. -/
theorem sliceAdvantages_scalar (value : ℚ) : ∀ {ss : List (TrainingSample ℚ)},
    (∀ s ∈ ss, s.mask.length = s.tokenIds.length) →
    sliceAdvantages (ss.flatMap fun s => s.mask.map fun trains => if trains then value else 0) ss =
      ss.map fun s => { s with advantages := some (s.mask.map fun trains => if trains then value else 0) }
  | [], _ => rfl
  | s :: ss, h => by
    have hlen : (s.mask.map fun trains => if trains then value else 0).length = s.tokenIds.length := by
      rw [List.length_map, h s List.mem_cons_self]
    rw [List.flatMap_cons, sliceAdvantages, List.take_left' hlen, List.drop_left' hlen, List.map_cons,
      sliceAdvantages_scalar value fun t ht => h t (List.mem_cons_of_mem s ht)]

theorem length_scalar (value : ℚ) (r : Rollout) (h : ∀ s ∈ r.samples, s.mask.length = s.tokenIds.length) :
    (r.samples.flatMap fun s => s.mask.map fun trains => if trains then value else 0).length = totalTokens r := by
  rw [List.length_flatMap, totalTokens]
  congr 1
  refine List.map_congr_left fun s hs => ?_
  rw [List.length_map, h s hs]

/-- **What the group does to a rollout**: one value on the tokens its samples train. -/
theorem finalizeGroup_eq {algorithm : Algorithm} {group group' : List Rollout}
    (hlen : ∀ r ∈ group, ∀ s ∈ r.samples, s.mask.length = s.tokenIds.length)
    (h : finalizeGroup algorithm group = .ok group') :
    List.Forall₂ (fun r r' => ∃ value, r'.envName = r.envName ∧ r'.samples = r.samples.map fun s =>
      { s with advantages := some (s.mask.map fun trains => if trains then value else 0) }) group group' := by
  obtain ⟨scored, hscored, h⟩ := bind_eq_ok.1 h
  obtain ⟨advantages, -, hscored⟩ := bind_eq_ok.1 hscored
  obtain ⟨_, hzip, hscored⟩ := bind_eq_ok.1 hscored
  have hzip := raiseUnless_eq_ok.1 hzip
  have hboth := mapM_comp hscored h
  have hfst : (group.zip advantages).map Prod.fst = group := List.map_fst_zip hzip.ge
  have hmem : ∀ p ∈ group.zip advantages, p.1 ∈ group := fun p hp => by
    rw [← hfst]
    exact List.mem_map_of_mem hp
  rw [← hfst, List.forall₂_map_left_iff]
  refine ((List.forall₂_and_left _ _).2 ⟨hmem, hboth⟩).imp ?_
  rintro ⟨r, value⟩ r' ⟨hr, r₁, hassign, hstamp⟩
  cases hassign
  obtain ⟨r₂, hr₂, hstamp⟩ := bind_eq_ok.1 hstamp
  have hlength := length_scalar value r (hlen r hr)
  unfold stampAdvantages at hr₂
  dsimp only at hr₂
  rw [totalTokens] at hlength hr₂
  rw [if_pos hlength] at hr₂
  cases hr₂
  have hrl : ∀ s ∈ sliceAdvantages (r.samples.flatMap fun s => s.mask.map fun trains => if trains then value else 0)
      r.samples, (stampLossRouting s (actionLossType algorithm)).mapError Error.stamping = .ok (id s) := by
    intro s _
    cases algorithm <;> rfl
  obtain ⟨samples, hsamples, hstamp⟩ := bind_eq_ok.1 hstamp
  cases hstamp
  refine ⟨value, rfl, ?_⟩
  rw [mapM_of_forall hrl, List.map_id] at hsamples
  cases hsamples
  exact sliceAdvantages_scalar value (hlen r hr)

/-! ## The routing as a whole -/

/-- The components share a sample's tokens, and what is observed lies apart from what is trained. -/
structure Shares (c : ActionLossType) (s : TrainingSample ℚ) (observed : List ℚ) (s' : TrainingSample ℚ) : Prop where
  tokenIds : s'.tokenIds = s.tokenIds
  mask : s'.mask = s.mask
  mask_length : s.mask.length = s.tokenIds.length
  apart : OffMask s.mask observed
  feeds : ∀ component, feeds s' component = share c s.mask observed component

/-- `prepare_sample` refuses the sample for the reserved name, or because it cannot cut its images, and for nothing else;
images that are whole can be cut. -/
def Taken (np : Numpy) (s : TrainingSample ℚ) : Prop :=
  ∀ seqLen, ((∃ m, prepareSample np s seqLen = .ok m) ↔ s.envName ≠ "all" ∧
      (s.tokenIds.length ≤ seqLen ∨ ∃ p, cutPoint np seqLen s.mmTokenTypeIds s.mmKwargs = .ok p)) ∧
    ∀ pieces, ImagesOf np s pieces → ∃ p, cutPoint np seqLen s.mmTokenTypeIds s.mmKwargs = .ok p

theorem taken_of {np : Numpy} {s : TrainingSample ℚ} (h : Acceptable np s) : Taken np s := by
  intro seqLen
  refine ⟨?_, fun pieces hpieces => ?_⟩
  · by_cases henv : s.envName = "all"
    · exact ⟨fun ⟨_, hm⟩ => absurd henv (prepareSample_admitted hm).envName, fun hok => absurd henv hok.1⟩
    obtain ⟨advantages, -, hwhole, hcuts⟩ := prepareSample_eq h henv seqLen
    by_cases hle : s.tokenIds.length ≤ seqLen
    · exact ⟨fun _ => ⟨henv, .inl hle⟩, fun _ => ⟨_, hwhole hle⟩⟩
    · obtain ⟨herror, hok⟩ := hcuts (Nat.lt_of_not_le hle)
      cases hcut : cutPoint np seqLen s.mmTokenTypeIds s.mmKwargs with
      | error e =>
        rw [herror e hcut]
        constructor
        · rintro ⟨m, hm⟩
          cases hm
        · rintro ⟨-, hle' | ⟨p, hp⟩⟩
          · exact absurd hle' hle
          · cases hp
      | ok p =>
        obtain ⟨routed, -, hprepared⟩ := hok p.1 p.2 hcut
        exact ⟨fun _ => ⟨henv, .inr ⟨p, rfl⟩⟩, fun _ => ⟨_, hprepared⟩⟩
  · obtain ⟨kwargs, hcut⟩ := cutPoint_whole hpieces seqLen
    exact ⟨_, hcut⟩

theorem hasRlMembers_zeros : ∀ (mask : List Bool) (n : Nat), hasRlMembers mask (some (List.replicate n (0 : ℚ))) = false := by
  intro mask n
  rw [hasRlMembers, List.any_eq_false]
  rintro ⟨b, w⟩ h
  have hw : w = 0 := List.eq_of_mem_replicate (List.of_mem_zip h).2
  simp [hw]

section
variable {np : Numpy} {nodes : List Node} {s : TrainingSample ℚ} {observed : List ℚ}

theorem OfBranch.mask_length (h : OfBranch np nodes s) : s.mask.length = s.tokenIds.length :=
  h.masks.length.trans h.tokens.symm

/-- Weighing writes one stream. -/
theorem weighSample_eq (s : TrainingSample ℚ) (o : List ℚ) :
    ∃ w, weighSample s o = { s with ceWeights := w } ∧ (w = some o ∨ w = s.ceWeights) := by
  unfold weighSample
  split
  · exact ⟨some o, rfl, .inl rfl⟩
  · exact ⟨s.ceWeights, rfl, .inr rfl⟩

/-- **A stamped sample passes the checks**, where its advantages are there or are not asked for. -/
theorem OfBranch.acceptable (h : OfBranch np nodes s) (ho : OffMask s.mask observed) {c : ActionLossType}
    {temperature : ℚ} {advantages : Option (List ℚ)} (hadvantages : ∀ l, advantages = some l → l.length = s.mask.length)
    (hc : advantages = none → c ≠ .rl) : Acceptable np (stamped c temperature advantages s observed) := by
  have hmask := h.mask_length
  obtain ⟨w, hw, hstream⟩ := weighSample_eq s observed
  have hweights : ∀ l, w = some l → l.length = s.tokenIds.length := by
    rintro l rfl
    rcases hstream with hstream | hstream
    · cases hstream
      rw [← ho.length_eq, hmask]
    · rw [h.ceWeights] at hstream
      cases hstream
  have hzeros : ∀ l : List ℚ, some (List.replicate s.tokenIds.length 0) = some l → l.length = s.tokenIds.length := by
    rintro l hl
    cases hl
    exact List.length_replicate
  have hshare : ∀ component l, some (share component s.mask observed component) = some l →
      l.length = s.tokenIds.length := by
    rintro component l hl
    cases hl
    rw [length_share ho.length_eq.symm, hmask]
  have hnone : ∀ {stream : Option (List ℚ)}, stream = none → ∀ l, stream = some l → l.length = s.tokenIds.length := by
    rintro _ rfl l hl
    cases hl
  have hgiven : ∀ l, advantages = some l → l.length = s.tokenIds.length := fun l hl => (hadvantages l hl).trans hmask
  have hgrid : ∀ kwargs, s.mmKwargs = some kwargs → (kwargs.lookup "image_grid_thw").isSome → s.mmTokenTypeIds.isSome :=
    fun kwargs hkwargs _ => h.images (by rw [hkwargs]; rfl)
  unfold stamped
  rw [hw]
  cases c with
  | rl => exact {
      mask := hmask, logprobs := h.logprobs, temperatures := List.length_replicate, advantages := hgiven
      members := fun habsent => absurd rfl (hc habsent), refLogprobs := hnone h.refLogprobs
      rlWeights := hnone h.rlWeights, ceWeights := hweights, refKlWeights := hnone h.refKlWeights
      mmTokenTypeIds := h.mmTokenTypeIds, images := hgrid, routed := h.routed }
  | ce => exact {
      mask := hmask, logprobs := h.logprobs, temperatures := List.length_replicate, advantages := hgiven
      members := fun _ => hasRlMembers_zeros s.mask s.tokenIds.length, refLogprobs := hnone h.refLogprobs
      rlWeights := hzeros, refKlWeights := hnone h.refKlWeights
      ceWeights := hshare .ce
      mmTokenTypeIds := h.mmTokenTypeIds, images := hgrid, routed := h.routed }
  | refKl => exact {
      mask := hmask, logprobs := h.logprobs, temperatures := List.length_replicate, advantages := hgiven
      members := fun _ => hasRlMembers_zeros s.mask s.tokenIds.length, refLogprobs := hnone h.refLogprobs
      rlWeights := hzeros, ceWeights := hweights, refKlWeights := hshare .refKl
      mmTokenTypeIds := h.mmTokenTypeIds, images := hgrid, routed := h.routed }

/-- A weighed sample is shared as its tokens are, whatever its other streams. -/
theorem OfBranch.shares (h : OfBranch np nodes s) (ho : OffMask s.mask observed) (c : ActionLossType) :
    Shares c s observed (routedStreams (weighSample s observed) c observed) := by
  obtain ⟨w, hw, -⟩ := weighSample_eq s observed
  have hshare := routedStreams_share (h.unrouted ho) c
  rw [weighSample_mask] at hshare
  refine ⟨?_, ?_, h.mask_length, ho, hshare⟩
  · rw [hw]
    cases c <;> rfl
  · rw [hw]
    cases c <;> rfl

theorem OfBranch.taken (h : OfBranch np nodes s) (ho : OffMask s.mask observed) {c : ActionLossType} (hc : c ≠ .rl)
    (temperature : ℚ) : Taken np (stampTemperature (routedStreams (weighSample s observed) c observed) temperature) := by
  obtain ⟨w, hw, -⟩ := weighSample_eq s observed
  have hnone : (routedStreams (weighSample s observed) c observed).advantages = none := by
    rw [hw]
    cases c <;> exact h.advantages
  have hstamped : stampTemperature (routedStreams (weighSample s observed) c observed) temperature =
      stamped c temperature none s observed := by
    rw [stamped, ← hnone, ← (h.shares ho c).tokenIds]
    rfl
  rw [hstamped]
  exact taken_of (h.acceptable ho (fun l hl => by cases hl) fun _ => hc)

end

theorem forall₂_zipWith {α β γ : Type} (f : α → β → γ) : ∀ (xs : List α) (ys : List β),
    List.Forall₂ (fun p z => z = f p.1 p.2) (xs.zip ys) (List.zipWith f xs ys)
  | [], _ => .nil
  | _ :: _, [] => .nil
  | _ :: xs, _ :: ys => .cons rfl (forall₂_zipWith f xs ys)

/-- **What arrival leaves of a rollout from a trace**, sample by sample with the weights of its observed tokens. -/
theorem FromTrace.arrived {np : Numpy} {algorithm : Algorithm} {r r' : Rollout} (hr : FromTrace np r)
    (h : finalizeRollout algorithm r = .ok r') : ∃ os, (r.samples ≠ [] → observed algorithm r = .ok os) ∧
      os.length = r.samples.length ∧ r'.envName = r.envName ∧ List.Forall₂ (fun p s' =>
        (∃ nodes, OfBranch np nodes p.1) ∧ OffMask p.1.mask p.2 ∧ s' = weighSample p.1 p.2)
          (r.samples.zip os) r'.samples := by
  obtain ⟨os, hos, hoff, rfl⟩ := finalizeRollout_eq hr h
  have hpairs : ∀ p ∈ r.samples.zip os, (∃ nodes, OfBranch np nodes p.1) ∧ OffMask p.1.mask p.2 := by
    rintro ⟨s, o⟩ hp
    obtain ⟨nodes, -, hs⟩ := forall₂_mem_right hr.ofBranch s (List.of_mem_zip hp).1
    exact ⟨⟨nodes, hs⟩, List.forall₂_zip hoff hp⟩
  refine ⟨os, hos, hoff.length_eq.symm, rfl, ?_⟩
  refine ((List.forall₂_and_left _ _).2 ⟨hpairs, forall₂_zipWith weighSample r.samples os⟩).imp ?_
  rintro p s' ⟨⟨hs, ho⟩, rfl⟩
  exact ⟨hs, ho, rfl⟩

/-- **Loss routing is a partition**: in a processed group, a sample's trained tokens feed `rl` with weight one and nothing
else, and what echo observed, which is off the mask, feeds `ce` alone; the advantages are one value on the mask and zero
off it; and `prepare_sample` takes the sample.  Stamping any other component succeeds and shares the tokens alike. -/
theorem loss_routing_partition {np : Numpy} {algorithm : Algorithm} {temperature : ℚ} {group group' : List Rollout}
    (h : processRollouts algorithm temperature group = .ok group') (hgroup : ∀ r ∈ group, FromTrace np r) :
    List.Forall₂ (fun r r' => ∃ value os, (r.samples ≠ [] → observed algorithm r = .ok os) ∧
        os.length = r.samples.length ∧ List.Forall₂ (fun p s' => Shares .rl p.1 p.2 s' ∧ Taken np s' ∧
          s'.advantages = some (s'.mask.map fun trains => if trains then value else 0))
            (r.samples.zip os) r'.samples) group group' ∧
      ∀ r ∈ group, ∀ r₁, finalizeRollout algorithm r = .ok r₁ →
        ∃ os, (r.samples ≠ [] → observed algorithm r = .ok os) ∧ os.length = r.samples.length ∧
          List.Forall₂ (fun p s₁ => ∀ c, ∃ s₂, stampLossRouting s₁ c = .ok s₂ ∧ Shares c p.1 p.2 s₂ ∧
            (c ≠ .rl → Taken np (stampTemperature s₂ temperature))) (r.samples.zip os) r₁.samples := by
  constructor
  · obtain ⟨arrived, harrived, h⟩ := bind_eq_ok.1 h
    obtain ⟨finished, hfinished, h⟩ := bind_eq_ok.1 h
    cases h
    have harrived := (List.forall₂_and_left _ _).2 ⟨hgroup, mapM_eq_ok.1 harrived⟩
    have hlen : ∀ r ∈ arrived, ∀ s ∈ r.samples, s.mask.length = s.tokenIds.length := by
      intro r' hr' s hs
      obtain ⟨r, -, hr, hfinal⟩ := forall₂_mem_right harrived r' hr'
      obtain ⟨os, -, -, -, hsamples⟩ := hr.arrived hfinal
      obtain ⟨p, -, ⟨nodes, hp⟩, -, rfl⟩ := forall₂_mem_right hsamples s hs
      rw [weighSample_mask, weighSample_tokenIds, hp.mask_length]
    rw [List.forall₂_map_right_iff]
    refine (forall₂_comp harrived (finalizeGroup_eq hlen hfinished)).imp ?_
    rintro r r₂ ⟨r₁, ⟨hr, hfinal⟩, value, -, hsamples⟩
    obtain ⟨os, hos, hoslen, -, hpairs⟩ := hr.arrived hfinal
    refine ⟨value, os, hos, hoslen, ?_⟩
    have hfilled : (fillTemperatures temperature r₂).samples = r₁.samples.map fun s =>
        { s with
          advantages := some (s.mask.map fun trains => if trains then value else 0)
          temperatures := List.replicate s.tokenIds.length temperature } := by
      rw [fillTemperatures, hsamples, List.map_map]
      rfl
    rw [hfilled, List.forall₂_map_right_iff]
    refine hpairs.imp ?_
    rintro ⟨s, o⟩ _ ⟨⟨nodes, hs⟩, ho, rfl⟩
    have hstamped : { weighSample s o with
        advantages := some ((weighSample s o).mask.map fun trains => if trains then value else 0)
        temperatures := List.replicate (weighSample s o).tokenIds.length temperature } =
        stamped .rl temperature (some (s.mask.map fun trains => if trains then value else 0)) s o := by
      rw [stamped, weighSample_tokenIds, weighSample_mask]
      rfl
    have hshares := hs.shares ho .rl
    dsimp only
    rw [hstamped]
    refine ⟨⟨hshares.tokenIds, hshares.mask, hshares.mask_length, ho, fun component => ?_⟩, ?_, ?_⟩
    · refine Eq.trans ?_ (hshares.feeds component)
      cases component <;> rfl
    · refine taken_of (hs.acceptable ho (fun l hl => ?_) fun hnone => by cases hnone)
      cases hl
      exact List.length_map _
    · rfl
  · intro r hr r₁ hfinal
    obtain ⟨os, hos, hoslen, -, hpairs⟩ := (hgroup r hr).arrived hfinal
    refine ⟨os, hos, hoslen, hpairs.imp ?_⟩
    rintro ⟨s, o⟩ _ ⟨⟨nodes, hs⟩, ho, rfl⟩ c
    exact ⟨_, stampLossRouting_routed (hs.unrouted ho) c, hs.shares ho c, fun hc => hs.taken ho hc temperature⟩

namespace ToolUse

/-- A question, an answer of two sampled tokens, and what a tool said to it. -/
def node : Fin 3 → Node
  | 0 => ⟨[1], [false], false, .user, [], rfl, by simp⟩
  | 1 => ⟨[2, 3], [true, true], true, .assistant, [], rfl, by simp⟩
  | 2 => ⟨[4], [false], false, .tool, [true], rfl, by simp⟩

def parent : Fin 3 → Option (Fin 3)
  | 0 => none
  | 1 => some 0
  | 2 => some 1

theorem acyclic : Forest.Acyclic parent := by
  have hedge : ∀ i j, Forest.Edge parent i j → i < j := by unfold Forest.Edge; decide
  have hlt : ∀ i j, Relation.TransGen (Forest.Edge parent) i j → i < j := by
    intro i j h
    induction h with
    | single h => exact hedge _ _ h
    | tail _ h ih => exact ih.trans (hedge _ _ h)
  exact fun i hi => lt_irrefl i (hlt i i hi)

theorem paths (path : List (Fin 3)) : path ∈ [[0, 1, 2]] ↔ Forest.RootToLeaf parent path := by
  have hroot : ∀ i, parent i = none → i = 0 := by decide
  have hfirst : ∀ j, Forest.Edge parent 0 j → j = 1 := by unfold Forest.Edge; decide
  have hsecond : ∀ j, Forest.Edge parent 1 j → j = 2 := by unfold Forest.Edge; decide
  have hlast : ∀ j, ¬ Forest.Edge parent 2 j := by unfold Forest.Edge; decide
  constructor
  · intro h
    obtain rfl := List.mem_singleton.1 h
    exact ⟨⟨0, rfl, rfl⟩, List.isChain_cons_cons.2 ⟨rfl, List.isChain_pair.2 rfl⟩, 2, rfl, hlast⟩
  · rintro ⟨⟨r, hr, hr'⟩, hchain, l, hl, hleaf⟩
    match path with
    | [a] =>
      obtain rfl := Option.some.inj hr
      obtain rfl := Option.some.inj hl
      obtain rfl := hroot a hr'
      exact absurd (show Forest.Edge parent 0 1 from rfl) (hleaf 1)
    | [a, b] =>
      obtain rfl := Option.some.inj hr
      obtain rfl := Option.some.inj hl
      obtain rfl := hroot a hr'
      obtain rfl := hfirst b (List.isChain_pair.1 hchain)
      exact absurd (show Forest.Edge parent 1 2 from rfl) (hleaf 2)
    | a :: b :: c :: rest =>
      obtain rfl := Option.some.inj hr
      obtain rfl := hroot a hr'
      obtain ⟨hab, hrest⟩ := List.isChain_cons_cons.1 hchain
      obtain ⟨hbc, htail⟩ := List.isChain_cons_cons.1 hrest
      obtain rfl := hfirst b hab
      obtain rfl := hsecond c hbc
      cases rest with
      | nil => exact List.mem_singleton.2 rfl
      | cons d _ => exact absurd (List.isChain_cons_cons.1 htail).1 (hlast d)

def trace : Trace ℚ Unit (Fin 3) where
  node := node
  parent := parent
  branches := [⟨[0, 1, 2], [0, -1, -1, 0], none, none⟩]
  acyclic := acyclic
  paths := paths
  logprobs_length := by decide
  routed_shape := by simp

def sample (envName : String) : TrainingSample ℚ where
  tokenIds := [1, 2, 3, 4]
  mask := [false, true, true, false]
  logprobs := [0, -1, -1, 0]
  temperatures := []
  envName := envName
  refLogprobs := none
  mmKwargs := none
  routedExperts := none
  mmTokenTypeIds := none
  rlWeights := none
  ceWeights := none
  refKlWeights := none
  advantages := none

def rollout (envName : String) (reward : ℚ) : Rollout where
  graded := ⟨reward, 2, 4, 1, []⟩
  envName := envName
  trainableBranches := [[node 0, node 1, node 2]]
  samples := [sample envName]
  advantages := none

theorem fromTrace (envName : String) (reward : ℚ) : FromTrace byteArrays (rollout envName reward) :=
  ⟨Unit, Fin 3, inferInstance, fun _ => none, [], trace, by simp [trace], rfl, rfl⟩

/-- Tool responses at the default `alpha`. -/
def roles : EchoRoles where
  alpha role := if role = .tool then some (1 / 10) else none
  pos := by
    intro role a h
    split at h
    · cases h
      norm_num
    · cases h
  enabled := ⟨.tool, rfl⟩

end ToolUse

/-- The answer is trained by `rl`, the tool's response by `ce`, and the question by nothing. -/
theorem loss_routing_partition_toolUse : ∃ r' s' rs, processRollouts (.echo none ToolUse.roles none) 1
    [ToolUse.rollout "search" 1, ToolUse.rollout "search" 0] = .ok (r' :: rs) ∧ r'.samples = [s'] ∧
      feeds s' .rl = [0, 1, 1, 0] ∧ feeds s' .ce = [0, 0, 0, 1 / 10] ∧ Taken byteArrays s' := by
  have hok : (processRollouts (.echo none ToolUse.roles none) 1
      [ToolUse.rollout "search" 1, ToolUse.rollout "search" 0]).toOption.isSome = true := by decide +kernel
  cases hprocess : processRollouts (.echo none ToolUse.roles none) 1
      [ToolUse.rollout "search" 1, ToolUse.rollout "search" 0] with
  | error e =>
    rw [hprocess] at hok
    cases hok
  | ok group' =>
    have hgroup : ∀ r ∈ [ToolUse.rollout "search" 1, ToolUse.rollout "search" 0], FromTrace byteArrays r := by
      intro r hr
      simp only [List.mem_cons, List.not_mem_nil, or_false] at hr
      rcases hr with rfl | rfl
      · exact ToolUse.fromTrace "search" 1
      · exact ToolUse.fromTrace "search" 0
    obtain ⟨hshares, -⟩ := loss_routing_partition hprocess hgroup
    obtain ⟨r', rs, ⟨_, os, hos, -, hsamples⟩, -, rfl⟩ := List.forall₂_cons_left_iff.1 hshares
    have hobserved : observed (.echo none ToolUse.roles none) (ToolUse.rollout "search" 1) =
        .ok [[0, 0, 0, 1 / 10]] := by decide +kernel
    obtain rfl := Except.ok.inj (hobserved.symm.trans (hos (by simp [ToolUse.rollout])))
    obtain ⟨s', ss, ⟨hs', htaken, -⟩, hnil, hr'⟩ := List.forall₂_cons_left_iff.1 hsamples
    cases hnil
    refine ⟨r', s', rs, rfl, hr', ?_, ?_, htaken⟩
    · rw [hs'.feeds .rl]
      decide +kernel
    · rw [hs'.feeds .ce]
      decide +kernel

/-- An environment may be named by the reserved word, and its samples are refused. -/
theorem not_every_sample_taken : ¬ ∀ (np : Numpy) (algorithm : Algorithm) (temperature : ℚ) (group group' : List Rollout),
    processRollouts algorithm temperature group = .ok group' → (∀ r ∈ group, FromTrace np r) →
      ∀ r' ∈ group', ∀ s' ∈ r'.samples, ∀ seqLen, 1 ≤ seqLen → ∃ m, prepareSample np s' seqLen = .ok m := by
  intro h
  have hrefused : (processRollouts (.grpo none) 1 [ToolUse.rollout "all" 1]).toOption.map (fun group => group.flatMap
      fun r => r.samples.map fun s => (prepareSample byteArrays s 4).toOption.isSome) = some [false] := by
    decide +kernel
  cases hprocess : processRollouts (.grpo none) 1 [ToolUse.rollout "all" 1] with
  | error e =>
    rw [hprocess] at hrefused
    cases hrefused
  | ok group' =>
    rw [hprocess] at hrefused
    have hlist : group'.flatMap (fun r => r.samples.map fun s => (prepareSample byteArrays s 4).toOption.isSome) =
        [false] := Option.some.inj hrefused
    have hmem : false ∈ group'.flatMap fun r => r.samples.map fun s => (prepareSample byteArrays s 4).toOption.isSome := by
      rw [hlist]
      exact List.mem_cons_self
    obtain ⟨r', hr', hs'⟩ := List.mem_flatMap.1 hmem
    obtain ⟨s', hs', hnone⟩ := List.mem_map.1 hs'
    have hgroup : ∀ r ∈ [ToolUse.rollout "all" 1], FromTrace byteArrays r := by
      intro r hr
      rw [List.mem_singleton.1 hr]
      exact ToolUse.fromTrace "all" 1
    obtain ⟨m, hm⟩ := h byteArrays _ 1 _ _ hprocess hgroup r' hr' s' hs' 4 (by decide)
    rw [hm] at hnone
    cases hnone

end Algo
end Aether
