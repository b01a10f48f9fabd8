import AetherRl.AdapterCacheRuns
import AetherRl.PolicyRuntime
/-!
# PolicyRuntimeSound — what the worker has loaded is what it refers to, marks and serves

While no call to the server is under way, the dict of loaded policies, the cache's marks and the server's adapters name
the same policies; a call under way makes a difference of one name, and holds the lock.  A policy is unloaded only when
nothing refers to it.
-/
namespace Aether

/-- The acquisition and the manifest of its policy agree on whether there is an adapter. -/
def Acquisition.Fits (a : Acquisition) : Prop := a.cached.isSome ↔ a.manifest.adapter.isSome

namespace WorkerPolicyRuntime

variable {digest : PolicyManifest → Digest} {r : WorkerPolicyRuntime} {a : Acquisition} {p q : OpaqueId}
  {hand : List WorkerPolicy} {marked served : OpaqueId → Prop}

/-! ## The dict of loaded policies -/

theorem mem_trained : p ∈ r.trained ↔ ∃ x ∈ r.loaded, x.2.isSome ∧ x.1 = p := by
  rw [trained, List.mem_map]
  constructor
  · rintro ⟨x, hx, hp⟩
    rw [List.mem_filter] at hx
    exact ⟨x, hx.1, hx.2, hp⟩
  · rintro ⟨x, hx, hs, hp⟩
    exact ⟨x, List.mem_filter.2 ⟨hx, hs⟩, hp⟩

theorem nodup_trained (h : (r.loaded.map (·.1)).Nodup) : r.trained.Nodup := (List.filter_sublist.map _).nodup h

theorem mem_of_leastRecent {ids : List OpaqueId} (h : r.leastRecent ids = some p) : p ∈ ids :=
  (List.perm_insertionSort r.UsedBefore ids).mem_iff.1 (List.mem_of_mem_head? h)

theorem mem_setLoaded {x : OpaqueId × Option CachedPolicy} :
    x ∈ (r.setLoaded a).loaded ↔ x ∈ r.loaded ∧ x.1 ≠ a.manifest.policyId ∨ x = (a.manifest.policyId, a.cached) := by
  rw [setLoaded, List.mem_append, List.mem_filter, List.mem_singleton, decide_eq_true_eq]

theorem keys_setLoaded (h : (r.loaded.map (·.1)).Nodup) : ((r.setLoaded a).loaded.map (·.1)).Nodup := by
  rw [setLoaded, List.map_append, List.nodup_append]
  refine ⟨(List.filter_sublist.map _).nodup h, List.nodup_singleton _, fun p hp q hq => ?_⟩
  obtain ⟨x, hx, rfl⟩ := List.mem_map.1 hp
  obtain rfl : q = a.manifest.policyId := List.mem_singleton.1 hq
  exact of_decide_eq_true (List.mem_filter.1 hx).2

theorem mem_drop {x : OpaqueId × Option CachedPolicy} : x ∈ (r.drop q).loaded ↔ x ∈ r.loaded ∧ x.1 ≠ q := by
  rw [drop, List.mem_filter, decide_eq_true_eq]

theorem mem_trained_drop : p ∈ (r.drop q).trained ↔ p ∈ r.trained ∧ p ≠ q := by
  rw [mem_trained, mem_trained]
  constructor
  · rintro ⟨x, hx, hs, rfl⟩
    rw [mem_drop] at hx
    exact ⟨⟨x, hx.1, hs, rfl⟩, hx.2⟩
  · rintro ⟨⟨x, hx, hs, rfl⟩, hne⟩
    exact ⟨x, mem_drop.2 ⟨hx, hne⟩, hs, rfl⟩

theorem length_le_of_subset {l k : List OpaqueId} (hn : l.Nodup) (h : ∀ p ∈ l, p ∈ k) : l.length ≤ k.length :=
  (List.subperm_of_subset hn h).length_le

theorem count_erase_map {α β : Type} [DecidableEq α] [DecidableEq β] {l : List α} {x : α} (hx : x ∈ l) (f : α → β)
    (y : β) : (l.map f).count y = ((l.erase x).map f).count y + [f x].count y := by
  have hperm := ((List.perm_cons_erase hx).map f).count_eq y
  rw [List.map_cons, List.count_cons] at hperm
  rw [hperm, List.count_singleton]

/-! ## What holds whoever has the lock -/

/-- The pins are the acquisitions', the references those of the open bodies, and every policy referred to is loaded;
`marked` and `served` are the policies the cache and the server take to be loaded. -/
structure Settled (digest : PolicyManifest → Digest) (r : WorkerPolicyRuntime) (hand : List WorkerPolicy)
    (marked served : OpaqueId → Prop) : Prop where
  cache : AdapterCache.Sound digest r.cache
  pins : ∀ m, r.cache.pins.count m = (r.pinned.map (·.manifest)).count m + (r.suspended.map (·.manifest)).count m +
    hand.count m + r.entered.count m + r.exiting.count m
  fits : ∀ a ∈ r.pinned, a.Fits
  waits : ∀ a ∈ r.suspended, a.Fits ∧ a.cached.isSome
  keys : (r.loaded.map (·.1)).Nodup
  kinds : ∀ x ∈ r.loaded, ∃ m : WorkerPolicy, m.policyId = x.1 ∧ (x.2.isSome ↔ m.adapter.isSome)
  bounded : r.trained.length ≤ r.maxLoadedPolicies
  counted : ∀ p, r.references p = (r.entered ++ r.exiting).countP (fun m => decide (m.policyId = p))
  lives : ∀ m ∈ r.entered ++ r.exiting, m.policyId ∈ r.loaded.map (·.1)
  marks : ∀ p, p ∈ r.cache.loaded ↔ marked p
  server : ∀ p, (r.server p).isSome ↔ served p

/-- What holds in every state, by the call to the server that is under way. -/
def Sound (digest : PolicyManifest → Digest) (r : WorkerPolicyRuntime) : Prop :=
  match r.holder with
  | none => Settled digest r [] (· ∈ r.trained) (· ∈ r.trained)
  | some (.load a done) =>
    Settled digest r [a.manifest] (· ∈ r.trained) (fun p => p ∈ r.trained ∨ done = true ∧ p = a.manifest.policyId) ∧
      a.Fits ∧ a.cached.isSome ∧ r.trained.length < r.maxLoadedPolicies
  | some (.makeRoom a q done) =>
    Settled digest r [a.manifest] (· ∈ r.trained) (fun p => p ∈ r.trained ∧ ¬ (done = true ∧ p = q)) ∧
      a.Fits ∧ a.cached.isSome ∧ r.references q = 0
  | some (.retain _ _ _ _) => False

theorem Settled.holding (h : Settled digest r hand marked served) (o : Option Holder) :
    Settled digest { r with holder := o } hand marked served :=
  ⟨h.cache, h.pins, h.fits, h.waits, h.keys, h.kinds, h.bounded, h.counted, h.lives, h.marks, h.server⟩

theorem Settled.congr (h : Settled digest r hand marked served) {marked' served' : OpaqueId → Prop}
    (hm : ∀ p, marked p ↔ marked' p) (hs : ∀ p, served p ↔ served' p) : Settled digest r hand marked' served' :=
  ⟨h.cache, h.pins, h.fits, h.waits, h.keys, h.kinds, h.bounded, h.counted, h.lives,
    fun p => (h.marks p).trans (hm p), fun p => (h.server p).trans (hs p)⟩

/-- A policy is loaded with an adapter, if it is loaded and an acquisition of it has one. -/
theorem Settled.trained_of_key (h : Settled digest r hand marked served) {m : WorkerPolicy} (ha : m.adapter.isSome)
    (hk : m.policyId ∈ r.loaded.map (·.1)) : m.policyId ∈ r.trained := by
  obtain ⟨x, hx, hp⟩ := List.mem_map.1 hk
  obtain ⟨m', hm', hs⟩ := h.kinds x hx
  have hnone := WorkerPolicy.adapter_of_id (hm'.trans hp)
  rw [Option.isSome_iff_ne_none] at ha
  refine mem_trained.2 ⟨x, hx, ?_, hp⟩
  rw [hs, Option.isSome_iff_ne_none]
  exact fun h => ha (hnone.1 h)

/-- A policy that is loaded with an adapter has one in each of its manifests. -/
theorem Settled.adapter_of_trained (h : Settled digest r hand marked served) {m : WorkerPolicy}
    (hk : m.policyId ∈ r.trained) : m.adapter.isSome := by
  obtain ⟨x, hx, hs, hp⟩ := mem_trained.1 hk
  obtain ⟨m', hm', hsome⟩ := h.kinds x hx
  have hnone := WorkerPolicy.adapter_of_id (hm'.trans hp)
  rw [hsome, Option.isSome_iff_ne_none] at hs
  exact Option.isSome_iff_ne_none.2 fun h => hs (hnone.2 h)

/-! ## Waiting for capacity -/

/-- **Waiting for capacity** keeps the runtime sound, whether it waits, makes room or loads. -/
theorem Settled.wait (h : Settled digest r [a.manifest] (· ∈ r.trained) (· ∈ r.trained)) (hf : a.Fits)
    (hc : a.cached.isSome) : Sound digest (r.waitForLoadCapacity a) := by
  unfold waitForLoadCapacity
  split
  · split
    · have hpins : ∀ m, r.cache.pins.count m = (r.pinned.map (·.manifest)).count m +
          ((a :: r.suspended).map (·.manifest)).count m + [].count m + r.entered.count m + r.exiting.count m := by
        intro m
        rw [h.pins m]
        simp only [List.map_cons, List.count_cons, List.count_nil]
        omega
      exact ⟨h.cache, hpins, h.fits, List.forall_mem_cons.2 ⟨⟨hf, hc⟩, h.waits⟩, h.keys, h.kinds, h.bounded, h.counted,
        h.lives, h.marks, h.server⟩
    · rename_i p hp
      have hfree := mem_of_leastRecent hp
      rw [candidates, List.mem_filter, decide_eq_true_eq] at hfree
      refine ⟨(h.congr (fun _ => Iff.rfl) fun p => ?_).holding _, hf, hc, hfree.2⟩
      exact (and_iff_left (fun h => Bool.false_ne_true h.1)).symm
  · rename_i hroom
    refine ⟨(h.congr (fun _ => Iff.rfl) fun p => ?_).holding _, hf, hc, Nat.lt_of_not_le hroom⟩
    exact (or_iff_left (fun h => Bool.false_ne_true h.1)).symm

/-- **An unload has returned**: its policy is in none of the three. -/
theorem Settled.drop (h : Settled digest r hand (· ∈ r.trained) (fun p => p ∈ r.trained ∧ p ≠ q))
    (hq : r.references q = 0) : Settled digest (r.drop q) hand (· ∈ (r.drop q).trained) (· ∈ (r.drop q).trained) := by
  have hkeys : ((r.drop q).loaded.map (·.1)).Nodup := (List.filter_sublist.map _).nodup h.keys
  refine ⟨AdapterCache.sound_markUnloaded h.cache q, h.pins, h.fits, h.waits, hkeys,
    fun x hx => h.kinds x (mem_drop.1 hx).1, ?_, h.counted, fun m hm => ?_, fun p => ?_, fun p => ?_⟩
  · have hle := length_le_of_subset (nodup_trained hkeys) fun p hp => (mem_trained_drop.1 hp).1
    exact hle.trans h.bounded
  · obtain ⟨x, hx, hp⟩ := List.mem_map.1 (h.lives m hm)
    refine List.mem_map.2 ⟨x, mem_drop.2 ⟨hx, fun hxq => ?_⟩, hp⟩
    rw [h.counted, List.countP_eq_zero] at hq
    exact hq m hm (decide_eq_true (hp.symm.trans hxq))
  · rw [mem_trained_drop, ← h.marks]
    change p ∈ r.cache.loaded.erase q ↔ _
    rw [Finset.mem_erase, and_comm]
  · rw [mem_trained_drop]
    exact h.server p

/-! ## Entering and leaving -/

theorem mem_trained_setLoaded (h : Settled digest r hand marked served) (hf : a.Fits) :
    p ∈ (r.setLoaded a).trained ↔ p ∈ r.trained ∨ a.cached.isSome ∧ p = a.manifest.policyId := by
  rw [mem_trained, mem_trained]
  constructor
  · rintro ⟨x, hx, hs, rfl⟩
    rcases mem_setLoaded.1 hx with ⟨hx, -⟩ | rfl
    · exact Or.inl ⟨x, hx, hs, rfl⟩
    · exact Or.inr ⟨hs, rfl⟩
  · rintro (⟨x, hx, hs, rfl⟩ | ⟨hs, rfl⟩)
    · by_cases hid : x.1 = a.manifest.policyId
      · have hadapter := h.adapter_of_trained (m := a.manifest) (mem_trained.2 ⟨x, hx, hs, hid⟩)
        exact ⟨(a.manifest.policyId, a.cached), mem_setLoaded.2 (Or.inr rfl), hf.2 hadapter, hid.symm⟩
      · exact ⟨x, mem_setLoaded.2 (Or.inl ⟨hx, hid⟩), hs, rfl⟩
    · exact ⟨(a.manifest.policyId, a.cached), mem_setLoaded.2 (Or.inr rfl), hs, rfl⟩

theorem length_trained_setLoaded (h : Settled digest r hand marked served) (hf : a.Fits)
    (hroom : a.cached.isSome → a.manifest.policyId ∈ r.trained ∨ r.trained.length < r.maxLoadedPolicies) :
    (r.setLoaded a).trained.length ≤ r.maxLoadedPolicies := by
  have hnodup := nodup_trained (keys_setLoaded (a := a) h.keys)
  by_cases hold : a.cached.isSome → a.manifest.policyId ∈ r.trained
  · have hle := length_le_of_subset hnodup fun p hp => by
      rcases (mem_trained_setLoaded h hf).1 hp with hp | ⟨hs, rfl⟩
      · exact hp
      · exact hold hs
    exact hle.trans h.bounded
  · rw [Classical.not_imp] at hold
    have hle := length_le_of_subset (k := a.manifest.policyId :: r.trained) hnodup fun p hp => by
      rcases (mem_trained_setLoaded h hf).1 hp with hp | ⟨-, rfl⟩
      · exact List.mem_cons_of_mem _ hp
      · exact List.mem_cons_self
    rw [List.length_cons] at hle
    have hlt := (hroom hold.1).resolve_left hold.2
    omega

/-- The retention that follows unloads nothing: the bound was kept before. -/
theorem retention_of_le {ids : List OpaqueId} (h : ids.length ≤ r.maxLoadedPolicies) (after : After) (now : Time) :
    r.enforceLoadedRetention ids after now = r.finish now after := by
  rw [enforceLoadedRetention, if_neg (Nat.not_lt.2 h)]

theorem hold_of_le {now : Time} (h : (r.setLoaded a).trained.length ≤ r.maxLoadedPolicies) :
    r.hold a now = { r.setLoaded a with
      references := Function.update r.references a.manifest.policyId (r.references a.manifest.policyId + 1)
      lastUsed := Function.update r.lastUsed a.manifest.policyId now
      entered := a.manifest :: r.entered
      holder := none } :=
  retention_of_le (r := { r.setLoaded a with
    references := Function.update r.references a.manifest.policyId (r.references a.manifest.policyId + 1)
    lastUsed := Function.update r.lastUsed a.manifest.policyId now }) h (.enter a.manifest) now

theorem release_of_le {m : WorkerPolicy} {now : Time} (h : r.trained.length ≤ r.maxLoadedPolicies) :
    r.release m now = WorkerPolicyRuntime.finish { r with
      references := Function.update r.references m.policyId (r.references m.policyId - 1)
      lastUsed := Function.update r.lastUsed m.policyId now } now (.leave m) :=
  retention_of_le (r := { r with
    references := Function.update r.references m.policyId (r.references m.policyId - 1)
    lastUsed := Function.update r.lastUsed m.policyId now }) h (.leave m) now

/-- **A policy is entered**: it is loaded and referred to. -/
theorem Settled.hold (h : Settled digest r [a.manifest]
      (fun p => p ∈ r.trained ∨ a.cached.isSome ∧ p = a.manifest.policyId)
      (fun p => p ∈ r.trained ∨ a.cached.isSome ∧ p = a.manifest.policyId)) (hf : a.Fits)
    (hroom : a.cached.isSome → a.manifest.policyId ∈ r.trained ∨ r.trained.length < r.maxLoadedPolicies) (now : Time) :
    Sound digest (r.hold a now) := by
  have hlength := length_trained_setLoaded h hf hroom
  have hmem : ∀ p, p ∈ r.trained ∨ a.cached.isSome ∧ p = a.manifest.policyId ↔ p ∈ (r.setLoaded a).trained :=
    fun p => (mem_trained_setLoaded h hf).symm
  rw [hold_of_le hlength]
  refine ⟨h.cache, fun m => ?_, h.fits, h.waits, keys_setLoaded h.keys, fun x hx => ?_, hlength, fun p => ?_,
    fun m hm => ?_, fun p => (h.marks p).trans (hmem p), fun p => (h.server p).trans (hmem p)⟩
  · change r.cache.pins.count m = (r.pinned.map (·.manifest)).count m + (r.suspended.map (·.manifest)).count m +
      [].count m + (a.manifest :: r.entered).count m + r.exiting.count m
    rw [h.pins m]
    simp only [List.count_cons, List.count_nil]
    omega
  · rcases mem_setLoaded.1 hx with ⟨hx, -⟩ | rfl
    · exact h.kinds x hx
    · exact ⟨a.manifest, rfl, hf⟩
  · change Function.update r.references a.manifest.policyId (r.references a.manifest.policyId + 1) p =
      List.countP _ (a.manifest :: r.entered ++ r.exiting)
    rw [List.cons_append, List.countP_cons, ← h.counted]
    by_cases hp : a.manifest.policyId = p
    · subst hp
      rw [Function.update_self, decide_eq_true rfl, if_pos rfl]
    · rw [Function.update_of_ne (fun h => hp h.symm), decide_eq_false hp, if_neg Bool.false_ne_true, Nat.add_zero]
  · change m ∈ a.manifest :: (r.entered ++ r.exiting) at hm
    rcases List.mem_cons.1 hm with rfl | hm
    · exact List.mem_map.2 ⟨(a.manifest.policyId, a.cached), mem_setLoaded.2 (Or.inr rfl), rfl⟩
    · obtain ⟨x, hx, hp⟩ := List.mem_map.1 (h.lives m hm)
      by_cases hid : x.1 = a.manifest.policyId
      · exact List.mem_map.2 ⟨(a.manifest.policyId, a.cached), mem_setLoaded.2 (Or.inr rfl), hid.symm.trans hp⟩
      · exact List.mem_map.2 ⟨x, mem_setLoaded.2 (Or.inl ⟨hx, hid⟩), hp⟩

/-- **The `pin` of an acquisition is closed.** -/
theorem Settled.leave {m : WorkerPolicy} (h : Settled digest r [m] marked served) (now : Time) :
    Settled digest (r.finish now (.leave m)) [] marked served := by
  have hm : m ∈ r.cache.pins := by
    rw [← List.count_pos_iff, h.pins, List.count_singleton_self]
    omega
  refine ⟨AdapterCache.sound_unpin h.cache hm now, fun x => ?_, h.fits, h.waits, h.keys, h.kinds, h.bounded, h.counted,
    h.lives, h.marks, h.server⟩
  change (r.cache.pins.erase m).count x = (r.pinned.map (·.manifest)).count x + (r.suspended.map (·.manifest)).count x +
    [].count x + r.entered.count x + r.exiting.count x
  have hpins := h.pins x
  rw [List.count_erase, hpins]
  simp only [List.count_cons, List.count_nil]
  omega

/-- **A body that has ended gives its reference back.** -/
theorem Settled.release {m : WorkerPolicy} (h : Settled digest r [] (· ∈ r.trained) (· ∈ r.trained))
    (hm : m ∈ r.exiting) (now : Time) : Sound digest ({ r with exiting := r.exiting.erase m }.release m now) := by
  have hheld : Settled digest { r with
      exiting := r.exiting.erase m
      references := Function.update r.references m.policyId (r.references m.policyId - 1)
      lastUsed := Function.update r.lastUsed m.policyId now } [m] (· ∈ r.trained) (· ∈ r.trained) := by
    refine ⟨h.cache, fun x => ?_, h.fits, h.waits, h.keys, h.kinds, h.bounded, fun p => ?_, fun x hx => ?_, h.marks,
      h.server⟩
    · have hpins := h.pins x
      have hcount := count_erase_map hm id x
      rw [List.map_id, List.map_id] at hcount
      rw [hpins, hcount]
      simp only [List.count_cons, List.count_nil, id]
      omega
    · change Function.update r.references m.policyId (r.references m.policyId - 1) p =
        List.countP _ (r.entered ++ r.exiting.erase m)
      have hperm := ((List.perm_cons_erase hm).append_left r.entered).countP_eq
        (fun m => decide (m.policyId = p))
      rw [List.perm_middle.countP_eq, List.countP_cons, ← h.counted] at hperm
      by_cases hp : m.policyId = p
      · subst hp
        rw [decide_eq_true rfl, if_pos rfl] at hperm
        rw [Function.update_self, hperm, Nat.add_sub_cancel]
      · rw [decide_eq_false hp, if_neg Bool.false_ne_true, Nat.add_zero] at hperm
        rw [Function.update_of_ne (fun h => hp h.symm), hperm]
    · refine h.lives x ?_
      rcases List.mem_append.1 hx with hx | hx
      · exact List.mem_append_left _ hx
      · exact List.mem_append_right _ (List.mem_of_mem_erase hx)
  rw [release_of_le (r := { r with exiting := r.exiting.erase m }) h.bounded]
  exact hheld.leave now

/-! ## The calls to the server -/

theorem sound_serve (h : Sound digest r) {o : Holder} (hh : r.holder = some o) {now : Time} {t : WorkerPolicyRuntime}
    (hs : r.serve now o = some t) : Sound digest t := by
  unfold Sound at h
  rw [hh] at h
  cases o with
  | load a done =>
    obtain ⟨h, hf, hc, hroom⟩ := h
    cases done with
    | true => cases hs
    | false =>
      have hidle : Settled digest r [a.manifest] (· ∈ r.trained) (· ∈ r.trained) :=
        h.congr (fun _ => Iff.rfl) fun p => or_iff_left (fun h => Bool.false_ne_true h.1)
      rw [serve] at hs
      split at hs
      · obtain rfl := Option.some.inj hs
        refine ⟨⟨h.cache, h.pins, h.fits, h.waits, h.keys, h.kinds, h.bounded, h.counted, h.lives, h.marks,
          fun p => ?_⟩, hf, hc, hroom⟩
        change (Function.update r.server a.manifest.policyId (a.cached.map (·.path)) p).isSome ↔
          p ∈ r.trained ∨ true = true ∧ p = a.manifest.policyId
        by_cases hp : p = a.manifest.policyId
        · subst hp
          rw [Function.update_self, Option.isSome_map]
          exact iff_of_true hc (Or.inr ⟨rfl, rfl⟩)
        · rw [Function.update_of_ne hp, hidle.server]
          exact (or_iff_left fun h => hp h.2).symm
      · rename_i path hpath
        split at hs
        · obtain rfl := Option.some.inj hs
          refine ⟨(hidle.congr (fun _ => Iff.rfl) fun p => ?_).holding _, hf, hc, hroom⟩
          refine (or_iff_left_of_imp ?_).symm
          rintro ⟨-, rfl⟩
          refine (hidle.server _).1 ?_
          rw [show r.server a.manifest.policyId = some path from hpath]
          rfl
        · obtain rfl := Option.some.inj hs
          exact hidle.leave now
  | makeRoom a q done =>
    obtain ⟨h, hf, hc, hq⟩ := h
    cases done with
    | true => cases hs
    | false =>
      obtain rfl := Option.some.inj hs
      refine ⟨⟨h.cache, h.pins, h.fits, h.waits, h.keys, h.kinds, h.bounded, h.counted, h.lives, h.marks,
        fun p => ?_⟩, hf, hc, hq⟩
      change (Function.update r.server q none p).isSome ↔ p ∈ r.trained ∧ ¬ (true = true ∧ p = q)
      by_cases hp : p = q
      · subst hp
        rw [Function.update_self]
        exact iff_of_false (fun h => by cases h) fun h => h.2 ⟨rfl, rfl⟩
      · rw [Function.update_of_ne hp, h.server]
        exact and_congr_right fun _ => iff_of_true (fun h => Bool.false_ne_true h.1) fun h => hp h.2
  | retain ids q done after => exact h.elim

theorem sound_proceed (h : Sound digest r) {o : Holder} (hh : r.holder = some o) {now : Time} {t : WorkerPolicyRuntime}
    (hs : r.proceed now o = some t) : Sound digest t := by
  unfold Sound at h
  rw [hh] at h
  cases o with
  | load a done =>
    obtain ⟨h, hf, hc, hroom⟩ := h
    cases done with
    | false => cases hs
    | true =>
      obtain rfl := Option.some.inj hs
      have hmarked : Settled digest { r with cache := r.cache.markLoaded a.manifest.policyId now } [a.manifest]
          (fun p => p ∈ r.trained ∨ a.cached.isSome ∧ p = a.manifest.policyId)
          (fun p => p ∈ r.trained ∨ a.cached.isSome ∧ p = a.manifest.policyId) := by
        refine ⟨AdapterCache.sound_markLoaded h.cache _ now, h.pins, h.fits, h.waits, h.keys, h.kinds, h.bounded,
          h.counted, h.lives, fun p => ?_, fun p => ?_⟩
        · change p ∈ insert a.manifest.policyId r.cache.loaded ↔ _
          rw [Finset.mem_insert, h.marks, or_comm, hc]
          exact or_congr_right (and_iff_right rfl).symm
        · rw [hc]
          exact h.server p
      exact hmarked.hold hf (fun _ => Or.inr hroom) now
  | makeRoom a q done =>
    obtain ⟨h, hf, hc, hq⟩ := h
    cases done with
    | false => cases hs
    | true =>
      obtain rfl := Option.some.inj hs
      have hgone : Settled digest r [a.manifest] (· ∈ r.trained) (fun p => p ∈ r.trained ∧ p ≠ q) :=
        h.congr (fun _ => Iff.rfl) fun p => and_congr_right fun _ => not_congr (and_iff_right rfl)
      exact (hgone.drop hq).wait hf hc
  | retain ids q done after => exact h.elim

/-! ## Events -/

/-- An acquisition has the lock. -/
theorem Settled.lock (h : Settled digest r [] marked served) (ha : a ∈ r.pinned) :
    Settled digest { r with pinned := r.pinned.erase a } [a.manifest] marked served := by
  refine ⟨h.cache, fun x => ?_, fun x hx => h.fits x (List.mem_of_mem_erase hx), h.waits, h.keys, h.kinds, h.bounded,
    h.counted, h.lives, h.marks, h.server⟩
  rw [h.pins x, count_erase_map ha (·.manifest) x, List.count_nil]
  simp only
  omega

theorem sound_lock (h : Settled digest r [] (· ∈ r.trained) (· ∈ r.trained)) (ha : a ∈ r.pinned) (now : Time) :
    Sound digest ({ r with pinned := r.pinned.erase a }.acquire a now) := by
  have hf := h.fits a ha
  have hheld := h.lock ha
  unfold acquire
  split
  · rename_i hc
    exact hheld.wait hf hc.1
  · rename_i hc
    have hloaded : a.cached.isSome → a.manifest.policyId ∈ r.trained := fun hs =>
      h.trained_of_key (hf.1 hs) (not_not.1 fun hk => hc ⟨hs, hk⟩)
    have hiff : ∀ p, p ∈ r.trained ↔ p ∈ r.trained ∨ a.cached.isSome ∧ p = a.manifest.policyId :=
      fun p => (or_iff_left_of_imp fun ⟨hs, hp⟩ => hp ▸ hloaded hs).symm
    exact (hheld.congr hiff hiff).hold hf (fun hs => Or.inl (hloaded hs)) now

theorem sound_wake (h : Settled digest r [] (· ∈ r.trained) (· ∈ r.trained)) (ha : a ∈ r.suspended) :
    Sound digest ({ r with suspended := r.suspended.erase a }.waitForLoadCapacity a) := by
  obtain ⟨hf, hc⟩ := h.waits a ha
  have hheld : Settled digest { r with suspended := r.suspended.erase a } [a.manifest] (· ∈ r.trained)
      (· ∈ r.trained) := by
    refine ⟨h.cache, fun x => ?_, h.fits, fun x hx => h.waits x (List.mem_of_mem_erase hx), h.keys, h.kinds, h.bounded,
      h.counted, h.lives, h.marks, h.server⟩
    rw [h.pins x, count_erase_map ha (·.manifest) x, List.count_nil]
    simp only
    omega
  exact hheld.wait hf hc

/-- What leaves the dict, the references and the holder alone is sound, if it settles whatever the holder does. -/
theorem Sound.congr {t : WorkerPolicyRuntime} (h : Sound digest r)
    (hset : ∀ hand marked served, Settled digest r hand marked served → Settled digest t hand marked served)
    (hl : t.loaded = r.loaded) (hm : t.maxLoadedPolicies = r.maxLoadedPolicies) (hr : t.references = r.references)
    (hh : t.holder = r.holder) : Sound digest t := by
  have ht : t.trained = r.trained := by rw [trained, trained, hl]
  unfold Sound at h ⊢
  rw [hh, ht, hm, hr]
  split at h
  · exact hset _ _ _ h
  · exact ⟨hset _ _ _ h.1, h.2⟩
  · exact ⟨hset _ _ _ h.1, h.2⟩
  · exact h

theorem sound_exit (h : Sound digest r) {m : WorkerPolicy} (hm : m ∈ r.entered) :
    Sound digest { r with entered := r.entered.erase m, exiting := m :: r.exiting } := by
  refine h.congr (fun hand marked served h => ?_) rfl rfl rfl rfl
  have hperm : (r.entered ++ r.exiting).Perm (r.entered.erase m ++ m :: r.exiting) :=
    ((List.perm_cons_erase hm).append_right _).trans List.perm_middle.symm
  refine ⟨h.cache, fun x => ?_, h.fits, h.waits, h.keys, h.kinds, h.bounded, fun p => ?_, fun x hx => ?_, h.marks,
    h.server⟩
  · have hcount := hperm.count_eq x
    rw [List.count_append, List.count_append] at hcount
    have hpins := h.pins x
    simp only
    omega
  · rw [h.counted]
    exact hperm.countP_eq _
  · exact h.lives x (hperm.mem_iff.2 hx)

theorem sound_cache (h : Sound digest r) {e : AdapterCache.Event} (he : e.ofCall) {x : AdapterCache.Answer}
    {c : AdapterCache} (hs : r.cache.step digest e = some (x, c)) : Sound digest (r.pinReturns (x, c)) := by
  have hkeep : AdapterCache.Sound digest r.cache := by
    unfold Sound at h
    split at h
    · exact h.cache
    · exact h.1.cache
    · exact h.1.cache
    · exact h.elim
  have hsound := AdapterCache.sound_step hkeep hs
  by_cases hpin : ∃ m cached, x = .pinned m cached
  · obtain ⟨m, cached, rfl⟩ := hpin
    obtain ⟨hpins, hloaded, hfit⟩ := AdapterCache.pinned_step hkeep hs
    refine h.congr (fun hand marked served h => ?_) rfl rfl rfl rfl
    refine ⟨hsound, fun y => ?_, List.forall_mem_cons.2 ⟨hfit, h.fits⟩, h.waits, h.keys, h.kinds, h.bounded, h.counted,
      h.lives, fun p => ?_, h.server⟩
    · change c.pins.count y = (m :: r.pinned.map (·.manifest)).count y +
        (r.suspended.map (·.manifest)).count y + hand.count y + r.entered.count y + r.exiting.count y
      rw [hpins, List.count_cons, h.pins y, List.count_cons]
      omega
    · rw [← h.marks]
      change p ∈ c.loaded ↔ _
      rw [hloaded]
  · have hsame := (AdapterCache.moves_step hkeep hs).2.2 he fun m cached hx => hpin ⟨m, cached, hx⟩
    have heq : r.pinReturns (x, c) = { r with cache := c } := by
      cases x with
      | pinned m cached => exact absurd ⟨m, cached, rfl⟩ hpin
      | suspended => rfl
      | ensured cached => rfl
      | done => rfl
      | raised e => rfl
    rw [heq]
    refine h.congr (fun hand marked served h => ?_) rfl rfl rfl rfl
    refine ⟨hsound, fun y => ?_, h.fits, h.waits, h.keys, h.kinds, h.bounded, h.counted, h.lives, fun p => ?_, h.server⟩
    · rw [hsame.pins]
      exact h.pins y
    · rw [hsame.loaded]
      exact h.marks p

/-- **Every event keeps the runtime sound.** -/
theorem sound_step (h : Sound digest r) {ev : Event} {t : WorkerPolicyRuntime} (hs : r.step digest ev = some t) :
    Sound digest t := by
  have hfree (hn : r.holder = none) : Settled digest r [] (· ∈ r.trained) (· ∈ r.trained) := by
    unfold Sound at h
    rw [hn] at h
    exact h
  cases ev with
  | cache e =>
    rw [step, Option.ite_none_right_eq_some, Option.map_eq_some_iff] at hs
    obtain ⟨he, ⟨x, c⟩, hs, rfl⟩ := hs
    exact sound_cache h he hs
  | lock a now =>
    rw [step, Option.ite_none_right_eq_some] at hs
    obtain ⟨⟨hn, ha⟩, hs⟩ := hs
    exact Option.some.inj hs ▸ sound_lock (hfree hn) ha now
  | wake a =>
    rw [step, Option.ite_none_right_eq_some] at hs
    obtain ⟨⟨hn, ha⟩, hs⟩ := hs
    exact Option.some.inj hs ▸ sound_wake (hfree hn) ha
  | exit m =>
    rw [step, Option.ite_none_right_eq_some] at hs
    exact Option.some.inj hs.2 ▸ sound_exit h hs.1
  | release m now =>
    rw [step, Option.ite_none_right_eq_some] at hs
    obtain ⟨⟨hn, hm⟩, hs⟩ := hs
    exact Option.some.inj hs ▸ (hfree hn).release hm now
  | serve now =>
    rw [step, Option.bind_eq_some_iff] at hs
    obtain ⟨o, ho, hs⟩ := hs
    exact sound_serve h ho hs
  | proceed now =>
    rw [step, Option.bind_eq_some_iff] at hs
    obtain ⟨o, ho, hs⟩ := hs
    exact sound_proceed h ho hs

/-! ## The bound is what it was configured to be -/

theorem limit_wait (r : WorkerPolicyRuntime) (a : Acquisition) :
    (r.waitForLoadCapacity a).maxLoadedPolicies = r.maxLoadedPolicies := by
  unfold waitForLoadCapacity
  split
  · split <;> rfl
  · rfl

theorem limit_finish (r : WorkerPolicyRuntime) (now : Time) (after : After) :
    (r.finish now after).maxLoadedPolicies = r.maxLoadedPolicies := by
  cases after <;> rfl

theorem limit_retention (r : WorkerPolicyRuntime) (ids : List OpaqueId) (after : After) (now : Time) :
    (r.enforceLoadedRetention ids after now).maxLoadedPolicies = r.maxLoadedPolicies := by
  unfold enforceLoadedRetention
  split
  · split
    · exact limit_finish r now after
    · rfl
  · exact limit_finish r now after

theorem limit_hold (r : WorkerPolicyRuntime) (a : Acquisition) (now : Time) :
    (r.hold a now).maxLoadedPolicies = r.maxLoadedPolicies :=
  limit_retention _ _ _ now

theorem limit_step {ev : Event} {t : WorkerPolicyRuntime} (hs : r.step digest ev = some t) :
    t.maxLoadedPolicies = r.maxLoadedPolicies := by
  cases ev with
  | cache e =>
    rw [step, Option.ite_none_right_eq_some, Option.map_eq_some_iff] at hs
    obtain ⟨-, ⟨x, c⟩, -, rfl⟩ := hs
    cases x <;> rfl
  | lock a now =>
    rw [step, Option.ite_none_right_eq_some] at hs
    obtain rfl := Option.some.inj hs.2
    unfold acquire
    split
    · exact limit_wait _ a
    · exact limit_hold _ a now
  | wake a =>
    rw [step, Option.ite_none_right_eq_some] at hs
    exact Option.some.inj hs.2 ▸ limit_wait _ a
  | exit m =>
    rw [step, Option.ite_none_right_eq_some] at hs
    obtain rfl := Option.some.inj hs.2
    rfl
  | release m now =>
    rw [step, Option.ite_none_right_eq_some] at hs
    exact Option.some.inj hs.2 ▸ limit_retention _ _ _ now
  | serve now =>
    rw [step, Option.bind_eq_some_iff] at hs
    obtain ⟨o, -, hs⟩ := hs
    unfold serve at hs
    split at hs
    · split at hs
      · obtain rfl := Option.some.inj hs
        rfl
      · split at hs
        · obtain rfl := Option.some.inj hs
          rfl
        · obtain rfl := Option.some.inj hs
          rfl
    · obtain rfl := Option.some.inj hs
      rfl
    · obtain rfl := Option.some.inj hs
      rfl
    · cases hs
  | proceed now =>
    rw [step, Option.bind_eq_some_iff] at hs
    obtain ⟨o, -, hs⟩ := hs
    unfold proceed at hs
    split at hs
    · exact Option.some.inj hs ▸ limit_hold _ _ now
    · exact Option.some.inj hs ▸ limit_wait _ _
    · exact Option.some.inj hs ▸ limit_retention _ _ _ now
    · cases hs

/-! ## Whole runs -/

/-- What the runtime promises in a state its runs reach. -/
structure Safe (digest : PolicyManifest → Digest) (maxLoadedPolicies : Nat) (r : WorkerPolicyRuntime) : Prop where
  cache : AdapterCache.Sound digest r.cache
  bounded : r.trained.length ≤ maxLoadedPolicies
  served : ∀ ids : List OpaqueId, ids.Nodup → (∀ p ∈ ids, (r.server p).isSome) → ids.length ≤ maxLoadedPolicies
  lives : ∀ m ∈ r.live, m.policyId ∈ r.loaded.map (·.1) ∧
    (m.adapter.isSome → m.policyId ∈ r.trained ∧ m.policyId ∈ r.cache.loaded ∧ (r.server m.policyId).isSome)
  counted : ∀ p, r.references p = r.live.countP (fun m => decide (m.policyId = p))
  agree : r.holder = none → ∀ p, (p ∈ r.trained ↔ p ∈ r.cache.loaded) ∧ (p ∈ r.trained ↔ (r.server p).isSome)

theorem Settled.safe (h : Settled digest r hand (· ∈ r.trained) served) (hl : r.live = r.entered ++ r.exiting)
    (hbound : ∀ ids : List OpaqueId, ids.Nodup → (∀ p ∈ ids, served p) → ids.length ≤ r.maxLoadedPolicies)
    (hserved : ∀ p ∈ r.trained, r.references p ≠ 0 → served p)
    (hidle : r.holder = none → ∀ p, p ∈ r.trained ↔ served p) : Safe digest r.maxLoadedPolicies r := by
  refine ⟨h.cache, h.bounded, fun ids hn hall => hbound ids hn fun p hp => (h.server p).1 (hall p hp), fun m hm => ?_,
    fun p => hl ▸ h.counted p, fun hn p => ⟨(h.marks p).symm, (hidle hn p).trans (h.server p).symm⟩⟩
  rw [hl] at hm
  refine ⟨h.lives m hm, fun ha => ?_⟩
  have htrained := h.trained_of_key ha (h.lives m hm)
  refine ⟨htrained, (h.marks _).2 htrained, (h.server _).2 (hserved _ htrained ?_)⟩
  rw [h.counted, ← Nat.pos_iff_ne_zero, List.countP_pos_iff]
  exact ⟨m, hm, decide_eq_true rfl⟩

theorem Sound.safe (h : Sound digest r) : Safe digest r.maxLoadedPolicies r := by
  unfold Sound at h
  split at h
  · rename_i hh
    refine h.safe (by rw [live, hh, List.nil_append]) (fun ids hn hall => ?_) (fun p hp _ => hp) fun _ _ => Iff.rfl
    exact (length_le_of_subset hn hall).trans h.bounded
  · rename_i a done hh
    obtain ⟨h, -, -, hroom⟩ := h
    refine h.safe (by rw [live, hh, List.nil_append]) (fun ids hn hall => ?_) (fun p hp _ => Or.inl hp)
      fun hn => by rw [hh] at hn; cases hn
    have hle := length_le_of_subset (k := a.manifest.policyId :: r.trained) hn fun p hp => by
      rcases hall p hp with hp | ⟨-, rfl⟩
      · exact List.mem_cons_of_mem _ hp
      · exact List.mem_cons_self
    rw [List.length_cons] at hle
    omega
  · rename_i a q done hh
    obtain ⟨h, -, -, hq⟩ := h
    refine h.safe (by rw [live, hh, List.nil_append]) (fun ids hn hall => ?_) (fun p hp hr => ⟨hp, fun hpq => ?_⟩)
      fun hn => by rw [hh] at hn; cases hn
    · exact (length_le_of_subset hn fun p hp => (hall p hp).1).trans h.bounded
    · exact hr (hpq.2 ▸ hq)
  · exact h.elim

/-- **A runtime that starts is sound**: its cache has no pin and no mark. -/
theorem sound_begin {c : AdapterCache} (hc : AdapterCache.Sound digest c) (hp : c.pins = []) (hl : c.loaded = ∅)
    (limit : Nat) : Sound digest (start limit c) := by
  refine ⟨hc, fun m => ?_, fun a ha => (by cases ha), fun a ha => (by cases ha), List.nodup_nil,
    fun x hx => (by cases hx), Nat.zero_le _, fun p => rfl, fun m hm => (by cases hm), fun p => ?_, fun p => ?_⟩
  · change c.pins.count m = _
    rw [hp]
    rfl
  · change p ∈ c.loaded ↔ p ∈ []
    rw [hl]
    exact iff_of_false (Finset.notMem_empty p) List.not_mem_nil
  · exact iff_of_false (fun h => by cases h) List.not_mem_nil

/-- **The runtime is safe in every state of every run.** -/
theorem runtime_safe (digest : PolicyManifest → Digest) (maxBytes limit : Nat) (ds : List AdapterDirectory)
    (incoming : List Incoming) (c : AdapterCache) (evs : List Event) (r : WorkerPolicyRuntime)
    (hd : (ds.map (·.path)).Nodup) (hc : AdapterCache.start digest maxBytes ds incoming = some c)
    (hr : Machine.run (step digest) (start limit c) evs = some r) : Safe digest limit r := by
  obtain ⟨-, hp, hl⟩ := AdapterCache.start_idle hc
  have hall : Sound digest r ∧ r.maxLoadedPolicies = limit :=
    Machine.run_invariant (I := fun r => Sound digest r ∧ r.maxLoadedPolicies = limit)
      (fun r ev t h hs => ⟨sound_step h.1 hs, (limit_step hs).trans h.2⟩)
      ⟨sound_begin (AdapterCache.sound_start hd hc) hp hl limit, rfl⟩ hr
  exact hall.2 ▸ hall.1.safe

namespace Sample

open AdapterCache.Sample (first second directory)

def entry (m : WorkerPolicy) : CachedPolicy := ⟨m, AdapterCache.path (·.policyId) m, m.adapterSize⟩

/-- One adapter may be loaded.  The first policy is acquired, the second waits until it is released, and takes its
place. -/
def events : List Event :=
  [.cache (.pin first 1), .cache (.lock (.ensure ⟨first, true⟩) 2), .lock ⟨first, some (entry first)⟩ 3, .serve 4,
    .proceed 5, .cache (.pin second 6), .cache (.lock (.ensure ⟨second, true⟩) 7),
    .lock ⟨second, some (entry second)⟩ 8, .exit first, .release first 9, .wake ⟨second, some (entry second)⟩,
    .serve 10, .proceed 11, .serve 12, .proceed 13]

end Sample

/-- A run in which one policy takes the place of another. -/
theorem runtime_safe_swap :
    ∃ c r, AdapterCache.start (·.policyId) 9 [AdapterCache.Sample.directory AdapterCache.Sample.first, AdapterCache.Sample.directory AdapterCache.Sample.second] [] =
        some c ∧
      Machine.run (step (·.policyId)) (start 1 c) Sample.events = some r ∧
      r.trained = [AdapterCache.Sample.second.policyId] ∧ Safe (·.policyId) 1 r := by
  have hrun : ((AdapterCache.start (·.policyId) 9
      [AdapterCache.Sample.directory AdapterCache.Sample.first, AdapterCache.Sample.directory AdapterCache.Sample.second] []).bind
        fun c => Machine.run (step (·.policyId)) (start 1 c) Sample.events).map trained =
      some [AdapterCache.Sample.second.policyId] := by decide +kernel
  rw [Option.map_eq_some_iff] at hrun
  obtain ⟨r, hr, htrained⟩ := hrun
  rw [Option.bind_eq_some_iff] at hr
  obtain ⟨c, hc, hr⟩ := hr
  exact ⟨c, r, hc, hr, htrained, runtime_safe (·.policyId) 9 1 _ [] c Sample.events r (by decide) hc hr⟩

end WorkerPolicyRuntime

end Aether
