import AetherRl.PolicyRuntimeSound
/-!
# PolicyRuntimeShare — acquiring a policy that is loaded

An `acquire` that takes the lock with its policy loaded holds the policy at once.  One that comes back from the wait for
capacity does not look again whether its policy has been loaded meanwhile: it waits once more, or has another adapter
unloaded, for a load that its policy does not need.
-/
namespace Aether
namespace WorkerPolicyRuntime

variable {digest : PolicyManifest → Digest} {r t : WorkerPolicyRuntime} {a : Acquisition} {p q : OpaqueId}
  {hand : List WorkerPolicy} {marked served : OpaqueId → Prop}

/-- The policy of the acquisition is in `_loaded`. -/
def Loaded (r : WorkerPolicyRuntime) (a : Acquisition) : Prop := a.manifest.policyId ∈ r.loaded.map (·.1)

instance (r : WorkerPolicyRuntime) (a : Acquisition) : Decidable (r.Loaded a) := by unfold Loaded; infer_instance

/-- The acquisition that has the lock in this step: it has just entered, or was woken from the wait for capacity. -/
def Event.acquirer : Event → Option Acquisition
  | .lock a _ => some a
  | .wake a => some a
  | _ => none

/-- The acquisition has gone on to its body: its policy has one reference more, and no adapter was asked for, waited for
or unloaded. -/
structure Joined (r : WorkerPolicyRuntime) (a : Acquisition) (t : WorkerPolicyRuntime) : Prop where
  holder : t.holder = none
  references : t.references = Function.update r.references a.manifest.policyId (r.references a.manifest.policyId + 1)
  entered : t.entered = a.manifest :: r.entered
  loaded : ∀ p, p ∈ t.loaded.map (·.1) ↔ p ∈ r.loaded.map (·.1)
  cache : t.cache = r.cache
  server : t.server = r.server

/-- The acquisition has not gone on: it waits for another's release, or has the server unload an adapter. -/
def Balked (r t : WorkerPolicyRuntime) : Prop :=
  t.holder = none ∧ t.references = r.references ∨ ∃ a p done, t.holder = some (.makeRoom a p done)

/-- An acquirer whose policy is loaded goes on at once. -/
def Joins (digest : PolicyManifest → Digest) (r : WorkerPolicyRuntime) (ev : Event) : Prop :=
  ∀ a t, ev.acquirer = some a → r.Loaded a → r.step digest ev = some t → Joined r a t

/-- An acquirer whose policy is loaded neither waits nor unloads. -/
def NeverBalks (digest : PolicyManifest → Digest) (r : WorkerPolicyRuntime) (ev : Event) : Prop :=
  ∀ a t, ev.acquirer = some a → r.Loaded a → r.step digest ev = some t → ¬ Balked r t

/-- No acquirer is woken from the wait for capacity with its policy loaded. -/
def WokenUnloaded (r : WorkerPolicyRuntime) (ev : Event) : Prop := ∀ a, ev = .wake a → ¬ r.Loaded a

instance (r : WorkerPolicyRuntime) : DecidablePred (WokenUnloaded r)
  | .wake a => decidable_of_iff (¬ r.Loaded a)
    ⟨fun h b hb => by cases hb; exact h, fun h => h a rfl⟩
  | .cache _ | .lock _ _ | .release _ _ | .exit _ | .serve _ | .proceed _ => isTrue fun a h => by cases h

/-! ## Taking the lock -/

theorem loaded_setLoaded (h : r.Loaded a) (p : OpaqueId) :
    p ∈ (r.setLoaded a).loaded.map (·.1) ↔ p ∈ r.loaded.map (·.1) := by
  rw [List.mem_map, List.mem_map]
  constructor
  · rintro ⟨x, hx, rfl⟩
    rcases mem_setLoaded.1 hx with ⟨hx, -⟩ | rfl
    · exact ⟨x, hx, rfl⟩
    · exact List.mem_map.1 h
  · rintro ⟨x, hx, rfl⟩
    by_cases hid : x.1 = a.manifest.policyId
    · exact ⟨(a.manifest.policyId, a.cached), mem_setLoaded.2 (Or.inr rfl), hid.symm⟩
    · exact ⟨x, mem_setLoaded.2 (Or.inl ⟨hx, hid⟩), rfl⟩

theorem Joined.not_balked (h : Joined r a t) : ¬ Balked r t := by
  rintro (⟨-, hr⟩ | ⟨b, p, done, hh⟩)
  · have hone := congrFun (h.references.symm.trans hr) a.manifest.policyId
    rw [Function.update_self] at hone
    omega
  · rw [h.holder] at hh
    cases hh

/-- **Whoever enters with its policy loaded joins those who hold it.** -/
theorem joined_lock (h : Settled digest r [] (· ∈ r.trained) (· ∈ r.trained)) (ha : a ∈ r.pinned) (hl : r.Loaded a)
    (now : Time) : Joined r a ({ r with pinned := r.pinned.erase a }.acquire a now) := by
  have hf := h.fits a ha
  have hroom : a.cached.isSome → a.manifest.policyId ∈ r.trained ∨ r.trained.length < r.maxLoadedPolicies :=
    fun hs => Or.inl (h.trained_of_key (hf.1 hs) hl)
  have hlength := length_trained_setLoaded h hf hroom
  rw [acquire, if_neg (fun hc => hc.2 hl), hold_of_le (r := { r with pinned := r.pinned.erase a }) hlength]
  exact ⟨rfl, rfl, rfl, loaded_setLoaded hl, rfl, rfl⟩

/-- **Whoever comes back from the wait does not.** -/
theorem not_joined_wait : ¬ Joined r a ({ r with suspended := r.suspended.erase a }.waitForLoadCapacity a) := by
  intro hj
  unfold waitForLoadCapacity at hj
  split at hj
  · split at hj
    · exact hj.not_balked (Or.inl ⟨rfl, rfl⟩)
    · exact hj.not_balked (Or.inr ⟨_, _, _, rfl⟩)
  · cases hj.holder

theorem balked_wait (h : r.maxLoadedPolicies ≤ r.trained.length) : Balked r (r.waitForLoadCapacity a) := by
  rw [waitForLoadCapacity, if_pos h]
  split
  · exact Or.inl ⟨rfl, rfl⟩
  · exact Or.inr ⟨_, _, _, rfl⟩

theorem joins_iff (h : Sound digest r) {ev : Event} (hs : r.step digest ev = some t) :
    WokenUnloaded r ev ↔ Joins digest r ev := by
  have hfree (hn : r.holder = none) : Settled digest r [] (· ∈ r.trained) (· ∈ r.trained) := by
    unfold Sound at h
    rw [hn] at h
    exact h
  constructor
  · intro hw a t ha hl hs
    cases ev with
    | lock b now =>
      obtain rfl := Option.some.inj ha
      rw [step, Option.ite_none_right_eq_some] at hs
      exact Option.some.inj hs.2 ▸ joined_lock (hfree hs.1.1) hs.1.2 hl now
    | wake b =>
      obtain rfl := Option.some.inj ha
      exact absurd hl (hw b rfl)
    | _ => cases ha
  · rintro hj a rfl hl
    have hjoined := hj a t rfl hl hs
    rw [step, Option.ite_none_right_eq_some] at hs
    exact not_joined_wait (Option.some.inj hs.2 ▸ hjoined)

/-! ## Waiters leave no room -/

/-- While an acquisition waits for capacity, there is none but what the holder of the lock is to fill, and that holder's
policy is not loaded. -/
def Crowded (r : WorkerPolicyRuntime) : Prop :=
  match r.holder with
  | some (.load a _) => (r.suspended ≠ [] → r.maxLoadedPolicies ≤ r.trained.length + 1) ∧ ¬ r.Loaded a
  | some (.makeRoom a _ _) => (r.suspended ≠ [] → r.maxLoadedPolicies ≤ r.trained.length) ∧ ¬ r.Loaded a
  | _ => r.suspended ≠ [] → r.maxLoadedPolicies ≤ r.trained.length

theorem Crowded.congr (h : Crowded r) (hs : t.suspended = r.suspended) (hl : t.loaded = r.loaded)
    (hm : t.maxLoadedPolicies = r.maxLoadedPolicies) (hh : t.holder = r.holder) : Crowded t := by
  unfold Crowded Loaded trained at h ⊢
  rw [hh, hs, hl, hm]
  exact h

theorem crowded_wait (hl : ¬ r.Loaded a) (h : r.suspended ≠ [] → r.maxLoadedPolicies ≤ r.trained.length + 1) :
    Crowded (r.waitForLoadCapacity a) := by
  unfold waitForLoadCapacity
  split
  · rename_i hfull
    split
    · exact fun _ => hfull
    · exact ⟨fun _ => hfull, hl⟩
  · exact ⟨h, hl⟩

/-- A policy that is entered takes no one's place. -/
theorem crowded_hold (h : Settled digest r hand marked served) (hf : a.Fits)
    (hroom : a.cached.isSome → a.manifest.policyId ∈ r.trained ∨ r.trained.length < r.maxLoadedPolicies)
    (hfull : r.suspended ≠ [] → r.maxLoadedPolicies ≤ r.trained.length ∨
      r.maxLoadedPolicies ≤ r.trained.length + 1 ∧ a.cached.isSome ∧ ¬ r.Loaded a) (now : Time) :
    Crowded (r.hold a now) := by
  rw [hold_of_le (length_trained_setLoaded h hf hroom)]
  intro hne
  have hnodup := nodup_trained h.keys
  have hsub : ∀ p ∈ r.trained, p ∈ (r.setLoaded a).trained := fun p hp => (mem_trained_setLoaded h hf).2 (Or.inl hp)
  change r.maxLoadedPolicies ≤ (r.setLoaded a).trained.length
  rcases hfull hne with hle | ⟨hle, hc, hl⟩
  · exact hle.trans (length_le_of_subset hnodup hsub)
  · have hnew : a.manifest.policyId ∉ r.trained := fun hp => hl (by
      obtain ⟨x, hx, -, hp⟩ := mem_trained.1 hp
      exact List.mem_map.2 ⟨x, hx, hp⟩)
    have hcons := length_le_of_subset (l := a.manifest.policyId :: r.trained) (List.nodup_cons.2 ⟨hnew, hnodup⟩)
      (List.forall_mem_cons.2 ⟨(mem_trained_setLoaded h hf).2 (Or.inr ⟨hc, rfl⟩), hsub⟩)
    exact hle.trans hcons

theorem length_trained_drop (h : (r.loaded.map (·.1)).Nodup) (q : OpaqueId) :
    r.trained.length ≤ (r.drop q).trained.length + 1 := by
  have hle := length_le_of_subset (k := q :: (r.drop q).trained) (nodup_trained h) fun p hp => by
    by_cases hq : p = q
    · exact hq ▸ List.mem_cons_self
    · exact List.mem_cons_of_mem _ (mem_trained_drop.2 ⟨hp, hq⟩)
  exact hle

theorem not_loaded_drop (h : ¬ r.Loaded a) (q : OpaqueId) : ¬ (r.drop q).Loaded a := by
  intro hl
  obtain ⟨x, hx, hp⟩ := List.mem_map.1 hl
  exact h (List.mem_map.2 ⟨x, (mem_drop.1 hx).1, hp⟩)

theorem crowded_serve (h : Sound digest r) (hc : Crowded r) {o : Holder} (hh : r.holder = some o) {now : Time}
    (hs : r.serve now o = some t) : Crowded t := by
  unfold Sound at h
  unfold Crowded at hc
  rw [hh] at h hc
  cases o with
  | load a done =>
    cases done with
    | true => cases hs
    | false =>
      rw [serve] at hs
      split at hs
      · obtain rfl := Option.some.inj hs
        exact hc
      · -- the server has no adapter of a policy that is not loaded
        rename_i path hpath
        have hserved : (r.server a.manifest.policyId).isSome := by
          rw [show r.server a.manifest.policyId = some path from hpath]
          rfl
        rcases (h.1.server _).1 hserved with ht | ⟨hf, -⟩
        · obtain ⟨x, hx, -, hp⟩ := mem_trained.1 ht
          exact absurd (List.mem_map.2 ⟨x, hx, hp⟩) hc.2
        · cases hf
  | makeRoom a q done =>
    cases done with
    | true => cases hs
    | false =>
      obtain rfl := Option.some.inj hs
      exact hc
  | retain ids q done after => exact h.elim

theorem crowded_proceed (h : Sound digest r) (hc : Crowded r) {o : Holder} (hh : r.holder = some o) {now : Time}
    (hs : r.proceed now o = some t) : Crowded t := by
  unfold Sound at h
  unfold Crowded at hc
  rw [hh] at h hc
  cases o with
  | load a done =>
    obtain ⟨h, hf, hsome, hroom⟩ := h
    cases done with
    | false => cases hs
    | true =>
      obtain rfl := Option.some.inj hs
      have hlength := length_trained_setLoaded h hf fun _ => Or.inr hroom
      have hheld := crowded_hold h hf (fun _ => Or.inr hroom) (fun hne => Or.inr ⟨hc.1 hne, hsome, hc.2⟩) now
      rw [hold_of_le hlength] at hheld
      rw [hold_of_le (r := { r with cache := r.cache.markLoaded a.manifest.policyId now }) hlength]
      exact hheld.congr rfl rfl rfl rfl
  | makeRoom a q done =>
    cases done with
    | false => cases hs
    | true =>
      obtain rfl := Option.some.inj hs
      exact crowded_wait (not_loaded_drop hc.2 q) fun hne => (hc.1 hne).trans (length_trained_drop h.1.keys q)
  | retain ids q done after => exact h.elim

/-- **A step keeps the waiters without room**, if it wakes none whose policy is loaded. -/
theorem crowded_step (h : Sound digest r) (hc : Crowded r) {ev : Event} (hw : WokenUnloaded r ev)
    (hs : r.step digest ev = some t) : Crowded t := by
  have hfree (hn : r.holder = none) : Settled digest r [] (· ∈ r.trained) (· ∈ r.trained) ∧
      (r.suspended ≠ [] → r.maxLoadedPolicies ≤ r.trained.length) := by
    unfold Sound at h
    unfold Crowded at hc
    rw [hn] at h hc
    exact ⟨h, hc⟩
  cases ev with
  | cache e =>
    rw [step, Option.ite_none_right_eq_some, Option.map_eq_some_iff] at hs
    obtain ⟨-, ⟨x, c⟩, -, rfl⟩ := hs
    cases x <;> exact hc.congr rfl rfl rfl rfl
  | lock a now =>
    rw [step, Option.ite_none_right_eq_some] at hs
    obtain ⟨⟨hn, ha⟩, hs⟩ := hs
    obtain rfl := Option.some.inj hs
    obtain ⟨hset, hfull⟩ := hfree hn
    unfold acquire
    split
    · rename_i hcond
      exact crowded_wait hcond.2 fun hne => Nat.le_succ_of_le (hfull hne)
    · rename_i hcond
      have hf := hset.fits a ha
      have hroom : a.cached.isSome → a.manifest.policyId ∈ r.trained ∨ r.trained.length < r.maxLoadedPolicies :=
        fun hsome => Or.inl (hset.trained_of_key (hf.1 hsome) (not_not.1 fun hk => hcond ⟨hsome, hk⟩))
      exact crowded_hold (hset.lock ha) hf hroom (fun hne => Or.inl (hfull hne)) now
  | wake a =>
    rw [step, Option.ite_none_right_eq_some] at hs
    obtain ⟨⟨hn, ha⟩, hs⟩ := hs
    obtain rfl := Option.some.inj hs
    exact crowded_wait (hw a rfl) fun _ => Nat.le_succ_of_le ((hfree hn).2 (List.ne_nil_of_mem ha))
  | exit m =>
    rw [step, Option.ite_none_right_eq_some] at hs
    obtain rfl := Option.some.inj hs.2
    exact hc.congr rfl rfl rfl rfl
  | release m now =>
    rw [step, Option.ite_none_right_eq_some] at hs
    obtain ⟨⟨hn, hm⟩, hs⟩ := hs
    obtain rfl := Option.some.inj hs
    obtain ⟨hset, hfull⟩ := hfree hn
    rw [release_of_le (r := { r with exiting := r.exiting.erase m }) hset.bounded]
    exact hfull
  | serve now =>
    rw [step, Option.bind_eq_some_iff] at hs
    obtain ⟨o, ho, hs⟩ := hs
    exact crowded_serve h hc ho hs
  | proceed now =>
    rw [step, Option.bind_eq_some_iff] at hs
    obtain ⟨o, ho, hs⟩ := hs
    exact crowded_proceed h hc ho hs

/-- Where waiters leave no room, one that is woken with its policy loaded waits again or has an adapter unloaded. -/
theorem neverBalks_iff (h : Sound digest r) (hc : Crowded r) {ev : Event} (hs : r.step digest ev = some t) :
    WokenUnloaded r ev ↔ NeverBalks digest r ev := by
  constructor
  · intro hw a u ha hl hu
    exact ((joins_iff h hs).1 hw a u ha hl hu).not_balked
  · rintro hb a rfl hl
    have hgoes := hb a t rfl hl hs
    rw [step, Option.ite_none_right_eq_some] at hs
    obtain ⟨⟨hn, ha⟩, hs⟩ := hs
    obtain rfl := Option.some.inj hs
    unfold Crowded at hc
    rw [hn] at hc
    have hfull : r.maxLoadedPolicies ≤ r.trained.length := hc (List.ne_nil_of_mem ha)
    exact hgoes (balked_wait (r := { r with suspended := r.suspended.erase a }) hfull)

/-! ## Whole runs -/

/-- **A policy that is loaded is acquired without a load**, and no acquirer of it waits or unloads, exactly in the runs
in which no acquirer is woken from the wait for capacity with its policy loaded. -/
theorem loaded_joined_iff (digest : PolicyManifest → Digest) (maxBytes limit : Nat) (ds : List AdapterDirectory)
    (incoming : List Incoming) (c : AdapterCache) (evs : List Event) (r : WorkerPolicyRuntime)
    (hd : (ds.map (·.path)).Nodup) (hc : AdapterCache.start digest maxBytes ds incoming = some c)
    (hr : Machine.run (step digest) (start limit c) evs = some r) :
    (Machine.Meets (step digest) WokenUnloaded (start limit c) evs ↔
      Machine.Meets (step digest) (Joins digest) (start limit c) evs) ∧
    (Machine.Meets (step digest) WokenUnloaded (start limit c) evs ↔
      Machine.Meets (step digest) (NeverBalks digest) (start limit c) evs) := by
  obtain ⟨-, hp, hl⟩ := AdapterCache.start_idle hc
  have hsound := sound_begin (AdapterCache.sound_start hd hc) hp hl limit
  have hcrowded : Crowded (start limit c) := fun hne => absurd rfl hne
  have hkeep : ∀ s ev t, Sound digest s ∧ Crowded s → WokenUnloaded s ev → step digest s ev = some t →
      Sound digest t ∧ Crowded t :=
    fun s ev t h hw hs => ⟨sound_step h.1 hs, crowded_step h.1 h.2 hw hs⟩
  constructor
  · exact Machine.meets_congr hkeep (fun s ev t h hs => joins_iff h.1 hs) evs _ ⟨hsound, hcrowded⟩ r hr
  · exact Machine.meets_congr hkeep (fun s ev t h hs => neverBalks_iff h.1 h.2 hs) evs _ ⟨hsound, hcrowded⟩ r hr

namespace Sample

open AdapterCache.Sample (first second directory)

def directories : List AdapterDirectory := [directory first, directory second]

/-- An acquisition of the second policy. -/
def again : Acquisition := ⟨second, some (entry second)⟩

/-- One adapter may be loaded, and the first policy's is.  Two acquisitions of the second policy wait; the release of
the first wakes both, and the one that goes on first has the second policy loaded. -/
def shared : List Event :=
  [.cache (.pin first 1), .cache (.lock (.ensure ⟨first, true⟩) 2), .lock ⟨first, some (entry first)⟩ 3, .serve 4,
    .proceed 5, .cache (.pin second 6), .cache (.lock (.ensure ⟨second, true⟩) 7),
    .lock again 8, .cache (.pin second 9), .cache (.lock (.ensure ⟨second, true⟩) 10), .lock again 11, .exit first,
    .release first 12, .wake again, .serve 13, .proceed 14, .serve 15, .proceed 16]

end Sample

/-- A run in which one policy takes the place of another: its waiter finds it unloaded, and loads it. -/
theorem loaded_joined_swap :
    ∃ c r, AdapterCache.start (·.policyId) 9 Sample.directories [] = some c ∧
      Machine.run (step (·.policyId)) (start 1 c) Sample.events = some r ∧
      Machine.Meets (step (·.policyId)) (Joins (·.policyId)) (start 1 c) Sample.events ∧
      Machine.Meets (step (·.policyId)) (NeverBalks (·.policyId)) (start 1 c) Sample.events := by
  have hrun : ((AdapterCache.start (·.policyId) 9 Sample.directories []).bind fun c =>
      if Machine.Meets (step (·.policyId)) WokenUnloaded (start 1 c) Sample.events then
        Machine.run (step (·.policyId)) (start 1 c) Sample.events else none).isSome = true := by decide +kernel
  obtain ⟨r, hr⟩ := Option.isSome_iff_exists.1 hrun
  rw [Option.bind_eq_some_iff] at hr
  obtain ⟨c, hc, hr⟩ := hr
  rw [Option.ite_none_right_eq_some] at hr
  obtain ⟨hwoken, hr⟩ := hr
  obtain ⟨hjoins, hbalks⟩ := loaded_joined_iff (·.policyId) 9 1 _ [] c Sample.events r (by decide) hc hr
  exact ⟨c, r, hc, hr, hjoins.1 hwoken, hbalks.1 hwoken⟩

/-- The second acquirer of a policy waits again although the first has loaded it. -/
theorem not_every_loaded_joined :
    ¬ ∀ (digest : PolicyManifest → Digest) maxBytes limit ds incoming c evs r, (ds.map AdapterDirectory.path).Nodup →
      AdapterCache.start digest maxBytes ds incoming = some c → Machine.run (step digest) (start limit c) evs = some r →
      Machine.Meets (step digest) (NeverBalks digest) (start limit c) evs := by
  intro hall
  have hrun : ((AdapterCache.start (·.policyId) 9 Sample.directories []).bind fun c =>
      (Machine.run (step (·.policyId)) (start 1 c) Sample.shared).map fun r =>
        (r.holder.isNone, decide (Sample.again ∈ r.suspended), decide (r.Loaded Sample.again),
          decide (r.maxLoadedPolicies ≤ r.trained.length))) = some (true, true, true, true) := by decide +kernel
  rw [Option.bind_eq_some_iff] at hrun
  obtain ⟨c, hc, hrun⟩ := hrun
  simp only [Option.map_eq_some_iff, Prod.mk.injEq, Option.isNone_iff_eq_none, decide_eq_true_eq] at hrun
  obtain ⟨r, hr, hn, hwaits, hloaded, hfull⟩ := hrun
  obtain ⟨t, hwake, hbalked⟩ : ∃ t, r.step (·.policyId) (.wake Sample.again) = some t ∧ Balked r t :=
    ⟨_, if_pos ⟨hn, hwaits⟩, balked_wait (r := { r with suspended := r.suspended.erase Sample.again }) hfull⟩
  have hlast : Machine.run (step (·.policyId)) (start 1 c) (Sample.shared ++ [.wake Sample.again]) = some t := by
    rw [Machine.run_append, hr, Option.bind_some, Machine.run, hwake, Option.bind_some, Machine.run]
  have hmeets := hall (·.policyId) 9 1 Sample.directories [] c _ t (by decide) hc hlast
  exact Machine.meets_at Sample.shared _ hmeets hr Sample.again t rfl hloaded hwake hbalked

end WorkerPolicyRuntime
end Aether
