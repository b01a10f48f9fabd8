import AetherRl.QueueEmit
import AetherRl.RepoAccounts
/-!
# QueueSelect — what the loading and the selection return

The pending list names every waiting rollout once, the loading gives each the payload its artifact decodes to, and the
selection is empty where no policy has enough pending, else the shortest prefix of what the policy with the oldest such
work has pending.
-/
namespace Aether
namespace Queue

open Repo Grouping

variable {F : Type} {p : Processor F} {q : QueueFiles}

/-! ## The pending rollouts -/

def pendingKey (r : PendingProcessedRollout) : OpaqueId × Int := (r.groupId, r.ordinal)

/-- A pending rollout as the join lists it. -/
def joined (t : Tables) (r : ProcessedRolloutRow) : Option (Nat × PendingProcessedRollout) :=
  (t.processedGroups.find? (fun p => decide (p.groupId = r.groupId))).bind fun p =>
    (t.group? r.groupId).map fun g =>
      (g.sequence, ⟨r.groupId, r.ordinal, r.tokenCount, p.artifactPath, p.artifactDigest, p.sizeBytes⟩)

/-- **Every row has its group and its artifact.** -/
theorem joined_of_mem {t : Tables} (hk : SchemaOk t) {r : ProcessedRolloutRow} (hr : r ∈ t.processedRollouts) :
    ∃ g ∈ t.groups, ∃ p ∈ t.processedGroups, g.groupId = r.groupId ∧ p.groupId = r.groupId ∧ joined t r =
      some (g.sequence, ⟨r.groupId, r.ordinal, r.tokenCount, p.artifactPath, p.artifactDigest, p.sizeBytes⟩) := by
  obtain ⟨p, hp, hpid⟩ := hk.processed.processed r hr
  obtain ⟨g, hg, hgid⟩ := hk.processed.group p hp
  have hgr : g.groupId = r.groupId := hgid.trans hpid
  refine ⟨g, hg, p, hp, hgr, hpid, ?_⟩
  have hp' : t.processedGroups.find? (fun p => decide (p.groupId = r.groupId)) = some p := by
    rw [← hpid]
    exact Rows.get_of_mem _ hk.processed.groupKey hp
  have hg' : t.group? r.groupId = some g := by
    rw [← hgr]
    exact Rows.get_of_mem _ hk.groups.key hg
  rw [joined, hp', hg']
  rfl

/-- **The pending list names every waiting rollout once.** -/
theorem pending_keys_perm {t : Tables} (hk : SchemaOk t) :
    ((pendingProcessedRollouts t).map pendingKey).Perm t.pendingKeys := by
  have hrows : ∀ rows : List ProcessedRolloutRow, (∀ r ∈ rows, r ∈ t.processedRollouts) →
      (rows.filterMap (joined t)).map (fun x => pendingKey x.2) = rows.map ProcessedRolloutRow.key := by
    intro rows hrows
    induction rows with
    | nil => rfl
    | cons r rows ih =>
      obtain ⟨g, _, p, _, _, _, hj⟩ := joined_of_mem hk (hrows r List.mem_cons_self)
      rw [List.filterMap_cons_some hj, List.map_cons, List.map_cons, ih fun r' hr' => hrows r' (List.mem_cons_of_mem _ hr')]
      rfl
  have hperm := (Rows.orderBy_perm (fun x : Nat × PendingProcessedRollout => toLex (x.1, toLex (x.2.ordinal, x.2.groupId)))
    ((t.processedRollouts.filter ProcessedRolloutRow.pending).filterMap (joined t))).map
      fun x => pendingKey x.2
  rw [hrows _ fun r hr => (List.mem_filter.1 hr).1] at hperm
  rw [pendingProcessedRollouts, List.map_map]
  exact hperm

/-- A rollout as the pending order compares it: the sequence of its group, then its ordinal. -/
def placeOf (t : Tables) (r : PendingProcessedRollout) : Nat ×ₗ Int :=
  toLex (((t.group? r.groupId).map (·.sequence)).getD 0, r.ordinal)

/-- **The pending list is in group sequence and ordinal order.** -/
theorem pending_sorted {t : Tables} : (pendingProcessedRollouts t).Pairwise fun r r' => placeOf t r ≤ placeOf t r' := by
  rw [pendingProcessedRollouts, List.pairwise_map]
  refine (Rows.orderBy_pairwise _ _).imp_of_mem fun {x y} hx hy hle => ?_
  have hseq : ∀ z : Nat × PendingProcessedRollout, z ∈ (t.processedRollouts.filter ProcessedRolloutRow.pending).filterMap
      (joined t) → placeOf t z.2 = toLex (z.1, z.2.ordinal) := by
    intro z hz
    obtain ⟨row, _, hj⟩ := List.mem_filterMap.1 hz
    obtain ⟨p, _, hj⟩ := Option.bind_eq_some_iff.1 hj
    obtain ⟨g, hg, rfl⟩ := Option.map_eq_some_iff.1 hj
    rw [placeOf, hg]
    rfl
  rw [hseq x ((Rows.mem_orderBy _ _ x).1 hx), hseq y ((Rows.mem_orderBy _ _ y).1 hy)]
  rw [Prod.Lex.le_iff] at hle ⊢
  rcases hle with hlt | ⟨heq, hle⟩
  · exact Or.inl hlt
  · rw [Prod.Lex.le_iff] at hle
    refine Or.inr ⟨heq, ?_⟩
    rcases hle with hlt | ⟨heq, _⟩
    · exact hlt.le
    · exact heq.le

/-- How many rollouts wait. -/
def pendingCount (t : Tables) : Nat := (pendingProcessedRollouts t).length

theorem pendingCount_eq {t : Tables} (hk : SchemaOk t) : pendingCount t = t.pendingKeys.length := by
  rw [← (pending_keys_perm hk).length_eq, List.length_map, pendingCount]

/-- A pending rollout comes from a waiting row and its group's artifact. -/
theorem mem_pending {t : Tables} (hk : SchemaOk t) {r : PendingProcessedRollout}
    (hr : r ∈ pendingProcessedRollouts t) : ∃ g ∈ t.processedGroups, g.groupId = r.groupId ∧
      g.artifactPath = r.artifactPath ∧ g.artifactDigest = r.artifactDigest ∧ g.sizeBytes = r.sizeBytes := by
  rw [pendingProcessedRollouts, List.mem_map] at hr
  obtain ⟨x, hx, rfl⟩ := hr
  rw [Rows.mem_orderBy, List.mem_filterMap] at hx
  obtain ⟨row, hrow, hj⟩ := hx
  obtain ⟨g, _, p, hp, _, hpid, hj'⟩ := joined_of_mem hk (List.mem_filter.1 hrow).1
  have hxe := Option.some.inj (hj'.symm.trans hj)
  rw [← hxe]
  exact ⟨p, hp, hpid, rfl, rfl, rfl⟩

/-! ## Loading -/

/-- The payload is what the rollout's artifact decodes to. -/
def Decodes (p : Processor F) (q : QueueFiles) (x : Loaded F) : Prop :=
  ∃ data, q.read x.1.artifactPath = some data ∧ p.decodeGroup data = some x.2

theorem read_of_verify {c : Codec} {path : String} {digest : Digest} {size : Int} {data : Bytes}
    (h : verify c q path digest size = .ok data) : q.read path = some data := by
  unfold verify at h
  split at h
  · cases h
  · rename_i found hq
    split at h
    · cases h
    · split at h
      · cases h
      · rw [← Except.ok.inj h]
        exact hq

theorem loadFrom_ok : ∀ {rs : List PendingProcessedRollout} {payloads : List (String × ProcessedGroupPayload F)}
    {l : List (Loaded F)}, (∀ x ∈ payloads, ∃ data, q.read x.1 = some data ∧ p.decodeGroup data = some x.2) →
    loadFrom p q payloads rs = .ok l → l.map Prod.fst = rs ∧ ∀ x ∈ l, Decodes p q x
  | [], payloads, l, _, h => by
    rw [loadFrom, Except.ok.injEq] at h
    subst h
    exact ⟨rfl, fun x hx => absurd hx List.not_mem_nil⟩
  | r :: rs, payloads, l, hp, h => by
    unfold loadFrom at h
    split at h
    · rename_i x hx
      obtain ⟨rest, hrest, h⟩ := Checked.bind_eq_ok.1 h
      obtain rfl := Checked.pure_eq_ok.1 h
      obtain ⟨hfst, hall⟩ := loadFrom_ok hp hrest
      refine ⟨by rw [List.map_cons, hfst], fun y hy => ?_⟩
      rcases List.mem_cons.1 hy with rfl | hy
      · obtain ⟨data, hd, hx'⟩ := hp x (Rows.mem_of_get _ hx)
        rw [Rows.key_of_get _ hx] at hd
        exact ⟨data, hd, hx'⟩
      · exact hall y hy
    · obtain ⟨data, hdata, h⟩ := Checked.bind_eq_ok.1 h
      split at h
      · cases h
      · rename_i payload hdec
        obtain ⟨rest, hrest, h⟩ := Checked.bind_eq_ok.1 h
        obtain rfl := Checked.pure_eq_ok.1 h
        have hnew : ∃ data, q.read r.artifactPath = some data ∧ p.decodeGroup data = some payload :=
          ⟨data, read_of_verify hdata, hdec⟩
        obtain ⟨hfst, hall⟩ := loadFrom_ok (fun e he => by
          rcases List.mem_append.1 he with he | he
          · exact hp e he
          · rw [List.mem_singleton.1 he]
            exact hnew) hrest
        refine ⟨by rw [List.map_cons, hfst], fun y hy => ?_⟩
        rcases List.mem_cons.1 hy with rfl | hy
        · exact hnew
        · exact hall y hy

/-- **Loading pairs every pending rollout, in order, with what its artifact decodes to.** -/
theorem loadPendingPayloads_ok {rs : List PendingProcessedRollout} {l : List (Loaded F)}
    (h : loadPendingPayloads p q rs = .ok l) : l.map Prod.fst = rs ∧ ∀ x ∈ l, Decodes p q x :=
  loadFrom_ok (fun _ hx => absurd hx List.not_mem_nil) h

/-! ## The selection -/

/-- What a policy has pending, in order. -/
def pendingOf (l : List (Loaded F)) (k : PolicyKey) : List (Loaded F) :=
  l.filter fun x => decide (payloadPolicyIdentity x.2 = k)

/-- Enough rollouts, or enough tokens, for a batch. -/
def Enough (p : Processor F) (l : List (Loaded F)) : Prop :=
  (∀ n ∈ p.batchSize, n ≤ l.length) ∧ ∀ n ∈ p.tokenBatchSize, (n : Int) ≤ tokensOf l

/-- **One size is configured**, and it is positive. -/
theorem size_cases (p : Processor F) :
    (∃ n, 1 ≤ n ∧ p.batchSize = some n ∧ p.tokenBatchSize = none) ∨
      ∃ n, 1 ≤ n ∧ p.batchSize = none ∧ p.tokenBatchSize = some n := by
  have hone := p.one_size
  cases hb : p.batchSize with
  | none =>
    cases ht : p.tokenBatchSize with
    | none => exact absurd (iff_of_true hb ht) hone
    | some n => exact Or.inr ⟨n, p.token_pos n ht, rfl, rfl⟩
  | some n =>
    cases ht : p.tokenBatchSize with
    | none => exact Or.inl ⟨n, p.batch_pos n hb, rfl, rfl⟩
    | some m => exact absurd (iff_of_false (by simp [hb]) (by simp [ht])) hone

theorem full_iff {l : List (Loaded F)} : full p l.length (tokensOf l) = true ↔ Enough p l := by
  rcases size_cases p with ⟨n, _, hb, ht⟩ | ⟨n, _, hb, ht⟩ <;> simp [full, Enough, hb, ht]

theorem ready_groupOf {l : List (Loaded F)} {k : PolicyKey} :
    ready p (groupOf (fun x => payloadPolicyIdentity x.2) (fun x : Loaded F => x.1.tokenCount) l k) = true ↔
      Enough p (pendingOf l k) := by
  unfold ready Enough tokensOf pendingOf groupOf
  rcases size_cases p with ⟨n, _, hb, ht⟩ | ⟨n, _, hb, ht⟩ <;> simp [hb, ht]

theorem Enough.ne_nil {l : List (Loaded F)} (h : Enough p l) : l ≠ [] := by
  rintro rfl
  rcases size_cases p with ⟨n, hn, hb, _⟩ | ⟨n, hn, _, ht⟩
  · have := h.1 n hb
    simp at this
    omega
  · have := h.2 n ht
    simp [tokensOf] at this
    omega

/-- `selected` is the batch of the policy `k`: the shortest prefix of what it has pending in which there is enough, of the
policy that was first met among those that have enough. -/
structure Selects (p : Processor F) (l : List (Loaded F)) (k : PolicyKey) (selected : List (Loaded F)) : Prop where
  pending : selected <+: pendingOf l k
  enough : Enough p selected
  shortest : ∀ b, b <+: pendingOf l k → Enough p b → selected <+: b
  oldest : ∀ k', Enough p (pendingOf l k') →
    l.findIdx (fun x => decide (payloadPolicyIdentity x.2 = k)) ≤
      l.findIdx (fun x => decide (payloadPolicyIdentity x.2 = k'))

/-- **The selection**: nothing where no policy has enough pending, else the batch of one that has. -/
theorem select_cases (p : Processor F) (l : List (Loaded F)) :
    (selectPolicyHomogeneousBatch p l = [] ∧ ∀ k, ¬ Enough p (pendingOf l k)) ∨
      ∃ k, Selects p l k (selectPolicyHomogeneousBatch p l) := by
  have hready : ∀ k, Enough p (pendingOf l k) →
      groupOf (fun x => payloadPolicyIdentity x.2) (fun x : Loaded F => x.1.tokenCount) l k ∈
        (partitions l).filter (ready p) := by
    intro k hk
    obtain ⟨x, hx⟩ := List.exists_mem_of_ne_nil _ hk.ne_nil
    obtain ⟨hxl, hxk⟩ := List.mem_filter.1 hx
    refine List.mem_filter.2 ⟨mem_group.2 ⟨x, hxl, ?_⟩, ready_groupOf.2 hk⟩
    rw [of_decide_eq_true hxk]
  unfold selectPolicyHomogeneousBatch
  cases hmin : ((partitions l).filter (ready p)).argmin (·.first) with
  | none =>
    have hnil := List.argmin_eq_none.1 hmin
    exact Or.inl ⟨rfl, fun k hk => absurd (hready k hk) (by rw [hnil]; exact List.not_mem_nil)⟩
  | some g =>
    have hg := List.argmin_mem hmin
    obtain ⟨hgroup, hrdy⟩ := List.mem_filter.1 hg
    obtain ⟨x, hx, rfl⟩ := mem_group.1 hgroup
    have henough := ready_groupOf.1 hrdy
    refine Or.inr ⟨payloadPolicyIdentity x.2, takeUntil_prefix _, ?_, fun b hb he => ?_, fun k' hk' => ?_⟩
    · exact full_iff.1 (takeUntil_enough henough.ne_nil (full_iff.2 henough))
    · exact takeUntil_shortest hb he.ne_nil (full_iff.2 he)
    · exact List.le_of_mem_argmin (hready k' hk') hmin

section
variable {l selected : List (Loaded F)} {k : PolicyKey}

theorem Selects.ne_nil (h : Selects p l k selected) : selected ≠ [] := h.enough.ne_nil

theorem Selects.sublist (h : Selects p l k selected) : selected.Sublist l :=
  h.pending.sublist.trans List.filter_sublist

theorem Selects.identity (h : Selects p l k selected) {x : Loaded F} (hx : x ∈ selected) :
    payloadPolicyIdentity x.2 = k := by
  have hm := h.pending.subset hx
  exact of_decide_eq_true (List.mem_filter.1 hm).2

/-- **By rollouts, exactly the first `n`.** -/
theorem Selects.take (h : Selects p l k selected) {n : Nat} (hn : p.batchSize = some n) :
    selected = (pendingOf l k).take n := by
  have ht : p.tokenBatchSize = none := by
    rcases size_cases p with ⟨m, _, _, ht⟩ | ⟨m, _, hb, _⟩
    · exact ht
    · rw [hn] at hb
      cases hb
  have hlen : n ≤ selected.length := h.enough.1 n hn
  have hle := h.pending.length_le
  have htake : Enough p ((pendingOf l k).take n) := by
    refine ⟨fun m hm => ?_, fun m hm => absurd hm (by simp [ht])⟩
    rw [hn, Option.mem_some] at hm
    rw [List.length_take]
    omega
  have hpre := h.shortest _ (List.take_prefix n _) htake
  refine hpre.eq_of_length_le ?_
  rw [List.length_take]
  omega

end

end Queue
end Aether
