import AetherRl.AdapterCacheSound
/-!
# AdapterCacheRuns — the cache over whole runs

A cache starts from the directories an earlier run left, evicts down to its bound, and then takes any events in any
order: calls that start, take the lock, go on or fail, pins that end, marks set and cleared.
-/
namespace Aether

namespace AdapterCache

variable {digest : PolicyManifest → Digest} {s t : AdapterCache} {w u : Eviction} {a : Answer} {ev : Event}

/-! ## The start -/

theorem scanEntries_ok : ∀ {ds : List AdapterDirectory} {es : List CachedPolicy}, scanEntries digest ds = some es →
    es = ds.map (fun d => ⟨d.manifest, d.path, d.manifest.adapterSize⟩) ∧ ∀ d ∈ ds, d.path = path digest d.manifest
  | [], es, h => by
    rw [scanEntries, List.mapM_nil] at h
    cases h
    exact ⟨rfl, fun d hd => by cases hd⟩
  | d :: ds, es, h => by
    simp only [scanEntries, List.mapM_cons, Option.bind_eq_bind, Option.bind_eq_some_iff, Option.pure_def,
      Option.some.injEq] at h
    obtain ⟨e, he, es', hes, rfl⟩ := h
    obtain ⟨hmap, hall⟩ := scanEntries_ok hes
    split at he
    · rename_i hpath
      unfold verify at he
      split at he
      · obtain rfl := Option.some.inj he
        refine ⟨by rw [hmap, List.map_cons], fun x hx => ?_⟩
        rcases List.mem_cons.1 hx with rfl | hx
        · exact hpath.symm
        · exact hall x hx
      · cases he
    · cases he

/-- The pass at the start: nothing is in use yet, so whatever is cached is still before it. -/
structure Emptying (digest : PolicyManifest → Digest) (s : AdapterCache) (w : Eviction) : Prop where
  filed : Filed digest s
  index : ∀ d, d ∈ s.directories ↔ s.Indexed d
  evicting : Evicting s w 0
  required : w.required = 0
  covers : ∀ e ∈ s.cached, e ∈ w.victim.toList ++ w.rest
  pins : s.pins = []
  loaded : s.loaded = ∅
  holder : s.holder = none

theorem Emptying.not_inUse (h : Emptying digest s w) (p : OpaqueId) : ¬ s.InUse p := by
  rintro (hl | hr)
  · rw [h.loaded] at hl
    exact absurd hl (Finset.notMem_empty _)
  · rw [h.filed.references, h.pins] at hr
    exact hr rfl

theorem Emptying.next (h : Emptying digest s w) (hn : s.evictNext w = some (t, u)) : Emptying digest t u := by
  have hfree : ∀ e ∈ w.victim, ¬ s.Pinned e := fun e _ hp => h.filed.not_protected (h.not_inUse _) (Or.inr hp)
  obtain ⟨hf, hx, he, -, -, -, -⟩ := h.filed.evictNext h.index h.evicting hfree hn
  have hcovers := h.covers
  rcases evictNext_cases hn with ⟨e, hv, rfl, rfl⟩ | ⟨rfl, hv, e, rest, hr, ⟨huse, -⟩ | ⟨-, rfl⟩⟩
  · refine ⟨hf, hx, he, h.required, fun x hxc => ?_, h.pins, h.loaded, h.holder⟩
    obtain ⟨hmem, hne⟩ := mem_removeEntry.1 hxc
    have hx := hcovers x hmem
    rw [hv, Option.toList_some, List.singleton_append] at hx
    rcases List.mem_cons.1 hx with rfl | hx
    · exact absurd rfl hne
    · exact hx
  · exact absurd huse (h.not_inUse _)
  · refine ⟨hf, hx, he, h.required, fun x hxc => ?_, h.pins, h.loaded, h.holder⟩
    have hx := hcovers x hxc
    rw [hv, hr] at hx
    exact hx

/-- The steps a pass has left, at most. -/
def Eviction.steps (w : Eviction) : Nat := 2 * w.rest.length + w.victim.toList.length

theorem steps_evictNext (hn : s.evictNext w = some (t, u)) : u.steps < w.steps := by
  unfold Eviction.steps
  rcases evictNext_cases hn with ⟨e, hv, rfl, rfl⟩ | ⟨rfl, hv, e, rest, hr, ⟨-, rfl⟩ | ⟨-, rfl⟩⟩
  · simp only [hv, Option.toList_some, Option.toList_none, List.length_singleton, List.length_nil]
    omega
  · simp only [hv, hr, Option.toList_none, List.length_nil, List.length_cons]
    omega
  · simp only [hv, hr, Option.toList_some, Option.toList_none, List.length_nil, List.length_cons]
    omega

/-- A pass that is over has found room, or has removed everything. -/
theorem Emptying.bounded (h : Emptying digest s w) (hn : s.evictNext w = none) : s.totalBytes ≤ s.maxBytes := by
  rcases evictNext_none hn with hroom | ⟨hv, hr⟩
  · have htotal := h.evicting.total
    omega
  · have hnil : s.cached = [] := by
      rw [List.eq_nil_iff_forall_not_mem]
      intro e he
      have hmem := h.covers e he
      rw [hv, hr] at hmem
      cases hmem
    rw [totalBytes, hnil]
    exact Nat.zero_le _

theorem Emptying.sound (h : Emptying digest s w) (hb : s.totalBytes ≤ s.maxBytes) : Sound digest s :=
  Settled.sound ⟨h.filed, hb⟩ h.index h.holder

/-- **The pass at the start** ends within the bound. -/
theorem sound_drain : ∀ (n : Nat) {s : AdapterCache} {w : Eviction}, w.steps ≤ n → Emptying digest s w →
    Sound digest (s.drain n w)
  | 0, s, w, hn, h => by
    rw [drain]
    refine h.sound (h.bounded ?_)
    cases hnext : s.evictNext w with
    | none => rfl
    | some p => exact absurd (steps_evictNext (t := p.1) (u := p.2) hnext) (by omega)
  | n + 1, s, w, hn, h => by
    rw [drain]
    split
    · rename_i hnext
      exact h.sound (h.bounded hnext)
    · rename_i t u hnext
      have hlt := steps_evictNext hnext
      exact sound_drain n (by omega) (h.next hnext)

/-- **What a scan found** is filed, and lists every directory. -/
theorem filed_scanned {maxBytes : Nat} {ds : List AdapterDirectory} {es : List CachedPolicy} {incoming : List Incoming}
    (hd : (ds.map (·.path)).Nodup) (hes : scanEntries digest ds = some es) :
    Filed digest ⟨maxBytes, es, ds, incoming, fun _ => 0, ∅, fun _ => 0, [], [], none⟩ ∧
      ∀ d, d ∈ ds ↔ Indexed ⟨maxBytes, es, ds, incoming, fun _ => 0, ∅, fun _ => 0, [], [], none⟩ d := by
  obtain ⟨hmap, hpath⟩ := scanEntries_ok hes
  have hentry : ∀ e ∈ es, ∃ d ∈ ds, e = ⟨d.manifest, d.path, d.manifest.adapterSize⟩ := by
    intro e he
    rw [hmap] at he
    obtain ⟨d, hd, rfl⟩ := List.mem_map.1 he
    exact ⟨d, hd, rfl⟩
  refine ⟨⟨fun c hc => (by cases hc), ?_, fun e he => ?_, fun p => rfl, fun m hm => (by cases hm)⟩, fun d => ?_⟩
  · rw [hmap, List.map_map]
    exact hd
  · obtain ⟨d, hdm, rfl⟩ := hentry e he
    exact ⟨hpath d hdm, rfl⟩
  · constructor
    · intro hdm
      exact ⟨⟨d.manifest, d.path, d.manifest.adapterSize⟩, hmap ▸ List.mem_map.2 ⟨d, hdm, rfl⟩, rfl, rfl⟩
    · rintro ⟨e, he, hp, hm⟩
      obtain ⟨d', hd', rfl⟩ := hentry e he
      have heq : d' = d := by
        cases d
        cases d'
        rw [AdapterDirectory.mk.injEq]
        exact ⟨hp, hm⟩
      exact heq ▸ hd'

/-- **The pass over what a scan found** has all of it before it. -/
theorem emptying_scanned {maxBytes : Nat} {ds : List AdapterDirectory} {es : List CachedPolicy}
    {incoming : List Incoming} (hd : (ds.map (·.path)).Nodup) (hes : scanEntries digest ds = some es) :
    Emptying digest ⟨maxBytes, es, ds, incoming, fun _ => 0, ∅, fun _ => 0, [], [], none⟩
      (eviction ⟨maxBytes, es, ds, incoming, fun _ => 0, ∅, fun _ => 0, [], [], none⟩ 0 0) := by
  obtain ⟨hfiled, hindex⟩ := @filed_scanned digest maxBytes ds es incoming hd hes
  refine ⟨hfiled, hindex, evicting_eviction _ 0 0 hfiled.paths rfl, rfl, fun e he => ?_, rfl, rfl, rfl⟩
  exact (List.perm_insertionSort _ es).mem_iff.2 he

/-- The steps of a pass over all that is cached. -/
theorem steps_eviction (s : AdapterCache) (required : Int) (besides : Nat) :
    (s.eviction required besides).steps = 2 * s.cached.length := by
  rw [Eviction.steps, eviction, List.length_insertionSort]
  rfl

/-- **The retention of a start** keeps what the scan found, or as much of it as fits. -/
theorem sound_retainAll (h : Emptying digest s (s.eviction 0 0)) : Sound digest s.retainAll := by
  unfold retainAll
  split
  · rename_i hb
    exact h.sound hb
  · exact sound_drain _ (steps_eviction s 0 0).le h

/-- **A cache that starts is sound.** -/
theorem sound_start {maxBytes : Nat} {ds : List AdapterDirectory} {incoming : List Incoming}
    (hd : (ds.map (·.path)).Nodup) (h : start digest maxBytes ds incoming = some s) : Sound digest s := by
  rw [start, Option.map_eq_some_iff] at h
  obtain ⟨es, hes, rfl⟩ := h
  exact sound_retainAll (emptying_scanned hd hes)

/-! ## One event -/

/-- **Every event keeps the cache sound.** -/
theorem sound_step (h : Sound digest s) (hs : s.step digest ev = some (a, t)) : Sound digest t := by
  cases ev with
  | ensure m now =>
    obtain rfl := congrArg Prod.snd (Option.some.inj hs)
    exact sound_call h now
  | pin m now =>
    obtain rfl := congrArg Prod.snd (Option.some.inj hs)
    exact sound_call h now
  | unpin m now =>
    rw [step, Option.ite_none_right_eq_some] at hs
    obtain rfl := congrArg Prod.snd (Option.some.inj hs.2)
    exact sound_unpin h hs.1 now
  | markLoaded p now =>
    obtain rfl := congrArg Prod.snd (Option.some.inj hs)
    exact sound_markLoaded h p now
  | markUnloaded p =>
    obtain rfl := congrArg Prod.snd (Option.some.inj hs)
    exact sound_markUnloaded h p
  | lock r now =>
    rw [step, Option.ite_none_right_eq_some] at hs
    obtain ⟨⟨hh, hr⟩, hs⟩ := hs
    have hx := h.index_of fun c hc => by rw [hh] at hc; cases hc
    have hset : Settled digest { s with waiting := s.waiting.erase r } :=
      ⟨⟨fun c hc => h.waiting c (List.mem_of_mem_erase hc), h.paths, h.entries, h.references, h.pinned⟩, h.bounded⟩
    cases r with
    | ensure c =>
      obtain rfl := congrArg Prod.snd (Option.some.inj hs)
      exact sound_ensureLocked hset hx (h.waiting c hr) now
    | retention =>
      obtain rfl := congrArg Prod.snd (Option.some.inj hs)
      exact hset.suspends hx (o := .enforceRetention) trivial (fun c h => by cases h) (fun e he => by cases he)
  | proceed now =>
    rw [step, Option.bind_eq_some_iff] at hs
    obtain ⟨o, ho, hs⟩ := hs
    exact sound_proceed h ho hs
  | fetch incoming ok =>
    rw [step, Option.bind_eq_some_iff] at hs
    obtain ⟨o, ho, hs⟩ := hs
    exact sound_fetch h ho hs

theorem step_of_next (h : s.next digest ev = some t) : ∃ a, s.step digest ev = some (a, t) := by
  rw [next, Option.map_eq_some_iff] at h
  obtain ⟨⟨a, u⟩, hs, rfl⟩ := h
  exact ⟨a, hs⟩

theorem sound_run {evs : List Event} (h : Sound digest s) (hr : Machine.run (next digest) s evs = some t) :
    Sound digest t := by
  refine Machine.run_invariant (I := Sound digest) (fun s ev t h hn => ?_) h hr
  obtain ⟨a, hs⟩ := step_of_next hn
  exact sound_step h hs

/-! ## What an event leaves alone -/

/-- The bound, the pins and the marks are those of before. -/
structure SamePins (s t : AdapterCache) : Prop where
  pins : t.pins = s.pins
  references : t.references = s.references
  loaded : t.loaded = s.loaded

/-- What a holder's step does to the state: the entries it leaves cached, and whether its call is over. -/
structure Moves (s t : AdapterCache) (a : Answer) : Prop where
  maxBytes : t.maxBytes = s.maxBytes
  cached : (∀ x ∈ s.cached, x ∈ t.cached) ∨ ∃ e ∈ s.victim, t.cached = (s.removeEntry e.path).cached
  pins : (∀ m e, a ≠ .pinned m e) → SamePins s t
  ended : a ≠ .suspended → t.holder = none

theorem moves_suspends (s : AdapterCache) (o : Holder) : Moves s (s.suspends o).2 (s.suspends o).1 :=
  ⟨rfl, Or.inl fun _ h => h, fun _ => ⟨rfl, rfl, rfl⟩, fun h => absurd rfl h⟩

theorem moves_raises (s : AdapterCache) (e : Error) : Moves s (s.raises e).2 (s.raises e).1 :=
  ⟨rfl, Or.inl fun _ h => h, fun _ => ⟨rfl, rfl, rfl⟩, fun _ => rfl⟩

theorem moves_returns (s : AdapterCache) (c : Call) (e : CachedPolicy) (now : Time) :
    Moves s (s.returns c e now).2 (s.returns c e now).1 := by
  unfold returns
  simp only
  split
  · exact ⟨rfl, Or.inl fun _ h => h, fun h => absurd rfl (h c.manifest (some e)), fun _ => rfl⟩
  · exact ⟨rfl, Or.inl fun _ h => h, fun _ => ⟨rfl, rfl, rfl⟩, fun _ => rfl⟩

theorem moves_ensureLocked (digest : PolicyManifest → Digest) (s : AdapterCache) (c : Call) (now : Time) :
    Moves s (s.ensureLocked digest c now).2 (s.ensureLocked digest c now).1 := by
  unfold ensureLocked
  split
  · split
    · exact moves_returns s c _ now
    · exact moves_suspends s _
  · exact moves_suspends s _

/-- A pass goes on. -/
theorem moves_evictNext (hn : s.evictNext w = some (t, u)) (hv : s.victim = w.victim) (o : Holder) :
    Moves s (t.suspends o).2 (t.suspends o).1 := by
  rcases evictNext_cases hn with ⟨e, he, rfl, rfl⟩ | ⟨rfl, -⟩
  · exact ⟨rfl, Or.inr ⟨e, by rw [hv]; exact he, rfl⟩, fun _ => ⟨rfl, rfl, rfl⟩, fun h => absurd rfl h⟩
  · exact moves_suspends t o

theorem moves_proceed (h : Sound digest s) {o : Holder} (hh : s.holder = some o) {now : Time}
    (hp : s.proceed digest now o = some (a, t)) : Moves s t a := by
  cases o with
  | prunePartialFiles c =>
    obtain ⟨rfl, rfl⟩ := Prod.mk.inj (Option.some.inj hp)
    exact ⟨rfl, Or.inl fun _ h => h, fun _ => ⟨rfl, rfl, rfl⟩, fun h => absurd rfl h⟩
  | makeSpace c required =>
    obtain ⟨rfl, rfl⟩ := Prod.mk.inj (Option.some.inj hp)
    exact moves_suspends s _
  | evict c w =>
    rw [proceed] at hp
    split at hp
    · rename_i hn
      obtain ⟨rfl, rfl⟩ := Prod.mk.inj (Option.some.inj hp)
      exact moves_evictNext hn (by rw [victim, hh]) _
    · split at hp
      · obtain ⟨rfl, rfl⟩ := Prod.mk.inj (Option.some.inj hp)
        exact moves_suspends s _
      · obtain ⟨rfl, rfl⟩ := Prod.mk.inj (Option.some.inj hp)
        exact moves_raises s _
  | verify c =>
    rw [proceed, find_published h hh, Option.some.injEq] at hp
    have hmoves := moves_returns (s.put ⟨c.manifest, path digest c.manifest, c.manifest.adapterSize⟩) c
      ⟨c.manifest, path digest c.manifest, c.manifest.adapterSize⟩ now
    rw [hp] at hmoves
    refine ⟨hmoves.maxBytes, Or.inl fun x hx => ?_, fun hne => ?_, hmoves.ended⟩
    rotate_left
    · exact ⟨(hmoves.pins hne).pins, (hmoves.pins hne).references, (hmoves.pins hne).loaded⟩
    obtain ⟨-, hfresh, -⟩ := h.holds _ hh
    rcases hmoves.cached with hmem | ⟨e, he, -⟩
    · apply hmem
      rw [put_fresh hfresh]
      exact List.mem_append_left _ hx
    · have hnone : (s.put ⟨c.manifest, path digest c.manifest, c.manifest.adapterSize⟩).victim = none := by
        rw [victim, show (s.put _).holder = s.holder from rfl, hh]
      rw [hnone] at he
      cases he
  | enforceRetention =>
    rw [proceed] at hp
    split at hp
    · obtain ⟨rfl, rfl⟩ := Prod.mk.inj (Option.some.inj hp)
      exact ⟨rfl, Or.inl fun _ h => h, fun _ => ⟨rfl, rfl, rfl⟩, fun _ => rfl⟩
    · obtain ⟨rfl, rfl⟩ := Prod.mk.inj (Option.some.inj hp)
      exact moves_suspends s _
  | retain w =>
    rw [proceed] at hp
    split at hp
    · rename_i hn
      obtain ⟨rfl, rfl⟩ := Prod.mk.inj (Option.some.inj hp)
      exact moves_evictNext hn (by rw [victim, hh]) _
    · obtain ⟨rfl, rfl⟩ := Prod.mk.inj (Option.some.inj hp)
      exact ⟨rfl, Or.inl fun _ h => h, fun _ => ⟨rfl, rfl, rfl⟩, fun _ => rfl⟩
  | validateManifest c => cases hp
  | download c files => cases hp

theorem moves_fetch {o : Holder} {incoming : List Incoming} {ok : Bool}
    (hp : s.fetch digest incoming ok o = some (a, t)) : Moves s t a := by
  cases o with
  | validateManifest c =>
    rw [fetch] at hp
    split at hp
    · obtain ⟨rfl, rfl⟩ := Prod.mk.inj (Option.some.inj hp)
      exact moves_suspends s _
    · obtain ⟨rfl, rfl⟩ := Prod.mk.inj (Option.some.inj hp)
      exact moves_raises s _
  | download c files =>
    cases files with
    | cons f files =>
      rw [fetch] at hp
      split at hp
      · obtain ⟨rfl, rfl⟩ := Prod.mk.inj (Option.some.inj hp)
        exact ⟨rfl, Or.inl fun _ h => h, fun _ => ⟨rfl, rfl, rfl⟩, fun h => absurd rfl h⟩
      · obtain ⟨rfl, rfl⟩ := Prod.mk.inj (Option.some.inj hp)
        exact ⟨rfl, Or.inl fun _ h => h, fun _ => ⟨rfl, rfl, rfl⟩, fun _ => rfl⟩
    | nil =>
      rw [fetch] at hp
      split at hp
      · obtain ⟨rfl, rfl⟩ := Prod.mk.inj (Option.some.inj hp)
        have hpub : Moves s (s.publishDirectory digest c.manifest) .suspended := by
          unfold publishDirectory
          split <;> exact ⟨rfl, Or.inl fun _ h => h, fun _ => ⟨rfl, rfl, rfl⟩, fun h => absurd rfl h⟩
        have hpins : SamePins s (s.publishDirectory digest c.manifest) := hpub.pins fun m e h => by cases h
        exact ⟨hpub.maxBytes, hpub.cached, fun _ => ⟨hpins.pins, hpins.references, hpins.loaded⟩,
          fun h => absurd rfl h⟩
      · obtain ⟨rfl, rfl⟩ := Prod.mk.inj (Option.some.inj hp)
        exact moves_raises s _
  | prunePartialFiles c => cases hp
  | makeSpace c required => cases hp
  | evict c w => cases hp
  | verify c => cases hp
  | enforceRetention => cases hp
  | retain w => cases hp

theorem moves_call (s : AdapterCache) (c : Call) (now : Time) :
    (s.call c now).2.maxBytes = s.maxBytes ∧ (∀ x ∈ s.cached, x ∈ (s.call c now).2.cached) ∧
      ((∀ m e, (s.call c now).1 ≠ .pinned m e) → SamePins s (s.call c now).2) := by
  unfold call
  split
  · split
    · exact ⟨rfl, fun _ hx => hx, fun h => absurd rfl (h c.manifest none)⟩
    · exact ⟨rfl, fun _ hx => hx, fun _ => ⟨rfl, rfl, rfl⟩⟩
  · split <;> exact ⟨rfl, fun _ hx => hx, fun _ => ⟨rfl, rfl, rfl⟩⟩

theorem moves_lock {r : Request} {now : Time} (hs : s.step digest (.lock r now) = some (a, t)) : Moves s t a := by
  rw [step, Option.ite_none_right_eq_some] at hs
  obtain ⟨⟨hh, -⟩, hs⟩ := hs
  cases r with
  | ensure c =>
    have heq : ensureLocked digest { s with waiting := s.waiting.erase (.ensure c) } c now = (a, t) :=
      Option.some.inj hs
    have hmoves := moves_ensureLocked digest { s with waiting := s.waiting.erase (.ensure c) } c now
    rw [heq] at hmoves
    refine ⟨hmoves.maxBytes, hmoves.cached, fun hne => ?_, hmoves.ended⟩
    exact ⟨(hmoves.pins hne).pins, (hmoves.pins hne).references, (hmoves.pins hne).loaded⟩
  | retention =>
    obtain ⟨rfl, rfl⟩ := Prod.mk.inj (Option.some.inj hs)
    exact ⟨rfl, Or.inl fun _ h => h, fun _ => ⟨rfl, rfl, rfl⟩, fun h => absurd rfl h⟩

/-- **What an event leaves alone**, by its kind. -/
theorem moves_step (h : Sound digest s) (hs : s.step digest ev = some (a, t)) :
    t.maxBytes = s.maxBytes ∧
    ((∀ x ∈ s.cached, x ∈ t.cached) ∨ ∃ e ∈ s.victim, t.cached = (s.removeEntry e.path).cached) ∧
    (ev.ofCall → (∀ m e, a ≠ .pinned m e) → SamePins s t) := by
  cases ev with
  | ensure m now =>
    obtain ⟨rfl, rfl⟩ := Prod.mk.inj (Option.some.inj hs)
    obtain ⟨hm, hc, hp⟩ := moves_call s ⟨m, false⟩ now
    exact ⟨hm, Or.inl hc, fun _ => hp⟩
  | pin m now =>
    obtain ⟨rfl, rfl⟩ := Prod.mk.inj (Option.some.inj hs)
    obtain ⟨hm, hc, hp⟩ := moves_call s ⟨m, true⟩ now
    exact ⟨hm, Or.inl hc, fun _ => hp⟩
  | unpin m now =>
    rw [step, Option.ite_none_right_eq_some] at hs
    obtain rfl := congrArg Prod.snd (Option.some.inj hs.2)
    exact ⟨rfl, Or.inl fun _ hx => hx, fun h => by cases h⟩
  | markLoaded p now =>
    obtain rfl := congrArg Prod.snd (Option.some.inj hs)
    exact ⟨rfl, Or.inl fun _ hx => hx, fun h => by cases h⟩
  | markUnloaded p =>
    obtain rfl := congrArg Prod.snd (Option.some.inj hs)
    exact ⟨rfl, Or.inl fun _ hx => hx, fun h => by cases h⟩
  | lock r now =>
    have hmoves := moves_lock hs
    exact ⟨hmoves.maxBytes, hmoves.cached, fun _ => hmoves.pins⟩
  | proceed now =>
    rw [step, Option.bind_eq_some_iff] at hs
    obtain ⟨o, ho, hs⟩ := hs
    have hmoves := moves_proceed h ho hs
    exact ⟨hmoves.maxBytes, hmoves.cached, fun _ => hmoves.pins⟩
  | fetch incoming ok =>
    rw [step, Option.bind_eq_some_iff] at hs
    obtain ⟨o, ho, hs⟩ := hs
    have hmoves := moves_fetch hs
    exact ⟨hmoves.maxBytes, hmoves.cached, fun _ => hmoves.pins⟩

/-- What a pass is about to remove is cached. -/
theorem Sound.victim_mem (h : Sound digest s) {e : CachedPolicy} (he : e ∈ s.victim) : e ∈ s.cached := by
  unfold victim at he
  split at he
  · rename_i c w hh
    obtain ⟨-, hev⟩ := h.holds _ hh
    exact hev.mem e (List.mem_append_left _ (Option.mem_toList.2 he))
  · rename_i w hh
    have hev : Evicting s w 0 := h.holds _ hh
    exact hev.mem e (List.mem_append_left _ (Option.mem_toList.2 he))
  · cases he

/-- **A step evicts one entry at most**: the one a pass has found free. -/
theorem keeps_unless_found (h : Sound digest s) (hs : s.step digest ev = some (a, t)) {x : CachedPolicy}
    (hx : x ∈ s.cached) (hv : s.victim ≠ some x) : x ∈ t.cached := by
  obtain ⟨-, hall | ⟨e, he, hc⟩, -⟩ := moves_step h hs
  · exact hall x hx
  · rw [hc, mem_removeEntry]
    refine ⟨hx, fun hpath => hv ?_⟩
    have heq : e = x := List.inj_on_of_nodup_map h.paths (h.victim_mem he) hx hpath.symm
    rw [Option.mem_def] at he
    rw [he, heq]

/-- **What a pass finds free is not in use** when it is found. -/
theorem victim_evictNext (hn : s.evictNext w = some (t, u)) {x : CachedPolicy} (hx : u.victim = some x) :
    ¬ s.InUse x.manifest.policyId := by
  rcases evictNext_cases hn with ⟨e, -, -, rfl⟩ | ⟨-, hv, e, rest, -, ⟨-, rfl⟩ | ⟨hfree, rfl⟩⟩
  · cases hx
  · rw [hv] at hx
    cases hx
  · obtain rfl : e = x := Option.some.inj hx
    exact hfree

theorem victim_returns (s : AdapterCache) (c : Call) (e : CachedPolicy) (now : Time) :
    (s.returns c e now).2.victim = none := by
  unfold returns
  simp only
  split <;> rfl

theorem victim_ensureLocked (digest : PolicyManifest → Digest) (s : AdapterCache) (c : Call) (now : Time) :
    (s.ensureLocked digest c now).2.victim = none := by
  unfold ensureLocked
  split
  · split
    · exact victim_returns s c _ now
    · rfl
  · rfl

theorem victim_call (s : AdapterCache) (c : Call) (now : Time) : (s.call c now).2.victim = s.victim := by
  unfold call
  split
  · split <;> rfl
  · split <;> rfl

theorem found_proceed {o : Holder} {now : Time} (hp : s.proceed digest now o = some (a, t)) {x : CachedPolicy}
    (hx : t.victim = some x) : ¬ s.InUse x.manifest.policyId := by
  cases o with
  | prunePartialFiles c =>
    obtain ⟨rfl, rfl⟩ := Prod.mk.inj (Option.some.inj hp)
    cases hx
  | makeSpace c required =>
    obtain ⟨rfl, rfl⟩ := Prod.mk.inj (Option.some.inj hp)
    cases hx
  | evict c w =>
    rw [proceed] at hp
    split at hp
    · rename_i hn
      obtain ⟨rfl, rfl⟩ := Prod.mk.inj (Option.some.inj hp)
      exact victim_evictNext hn hx
    · split at hp <;> obtain ⟨rfl, rfl⟩ := Prod.mk.inj (Option.some.inj hp) <;> cases hx
  | verify c =>
    rw [proceed] at hp
    split at hp
    · rename_i e _
      obtain rfl := congrArg Prod.snd (Option.some.inj hp)
      rw [victim_returns] at hx
      cases hx
    · obtain ⟨rfl, rfl⟩ := Prod.mk.inj (Option.some.inj hp)
      cases hx
  | enforceRetention =>
    rw [proceed] at hp
    split at hp <;> obtain ⟨rfl, rfl⟩ := Prod.mk.inj (Option.some.inj hp) <;> cases hx
  | retain w =>
    rw [proceed] at hp
    split at hp
    · rename_i hn
      obtain ⟨rfl, rfl⟩ := Prod.mk.inj (Option.some.inj hp)
      exact victim_evictNext hn hx
    · obtain ⟨rfl, rfl⟩ := Prod.mk.inj (Option.some.inj hp)
      cases hx
  | validateManifest c => cases hp
  | download c files => cases hp

theorem victim_fetch {o : Holder} {incoming : List Incoming} {ok : Bool}
    (hp : s.fetch digest incoming ok o = some (a, t)) : t.victim = none := by
  unfold fetch at hp
  split at hp
  · split at hp <;> obtain rfl := congrArg Prod.snd (Option.some.inj hp) <;> rfl
  · split at hp <;> obtain rfl := congrArg Prod.snd (Option.some.inj hp) <;> rfl
  · split at hp <;> obtain rfl := congrArg Prod.snd (Option.some.inj hp) <;> rfl
  · cases hp

/-- **An entry a pass has newly found free was not in use** at that moment. -/
theorem found_step (hs : s.step digest ev = some (a, t)) {x : CachedPolicy} (hx : t.victim = some x)
    (hv : s.victim ≠ some x) : ¬ s.InUse x.manifest.policyId := by
  cases ev with
  | ensure m now =>
    obtain rfl := congrArg Prod.snd (Option.some.inj hs)
    rw [victim_call] at hx
    exact absurd hx hv
  | pin m now =>
    obtain rfl := congrArg Prod.snd (Option.some.inj hs)
    rw [victim_call] at hx
    exact absurd hx hv
  | unpin m now =>
    rw [step, Option.ite_none_right_eq_some] at hs
    obtain rfl := congrArg Prod.snd (Option.some.inj hs.2)
    exact absurd hx hv
  | markLoaded p now =>
    obtain rfl := congrArg Prod.snd (Option.some.inj hs)
    exact absurd hx hv
  | markUnloaded p =>
    obtain rfl := congrArg Prod.snd (Option.some.inj hs)
    exact absurd hx hv
  | lock r now =>
    rw [step, Option.ite_none_right_eq_some] at hs
    cases r with
    | ensure c =>
      obtain rfl := congrArg Prod.snd (Option.some.inj hs.2)
      rw [victim_ensureLocked] at hx
      cases hx
    | retention =>
      obtain rfl := congrArg Prod.snd (Option.some.inj hs.2)
      cases hx
  | proceed now =>
    rw [step, Option.bind_eq_some_iff] at hs
    obtain ⟨o, -, hs⟩ := hs
    exact found_proceed hs hx
  | fetch incoming ok =>
    rw [step, Option.bind_eq_some_iff] at hs
    obtain ⟨o, -, hs⟩ := hs
    rw [victim_fetch hs] at hx
    cases hx

/-- An entry in use that no pass has found free is found free by none. -/
theorem Sound.victim_ne (h : Sound digest s) (hs : s.step digest ev = some (a, t)) {x : CachedPolicy}
    (hp : Protected s x) (hv : s.victim ≠ some x) : t.victim ≠ some x :=
  fun hx => h.not_protected (found_step hs hx hv) hp

theorem pinned_returns {c : Call} {e : CachedPolicy} {now : Time} {m : WorkerPolicy} {cached : Option CachedPolicy}
    (hs : s.returns c e now = (.pinned m cached, t)) :
    m = c.manifest ∧ cached = some e ∧ t.pins = m :: s.pins ∧ t.loaded = s.loaded := by
  unfold returns at hs
  simp only at hs
  split at hs
  · obtain ⟨ha, rfl⟩ := Prod.mk.inj hs
    obtain ⟨rfl, rfl⟩ := Answer.pinned.inj ha
    exact ⟨rfl, rfl, rfl, rfl⟩
  · cases (Prod.mk.inj hs).1

theorem pinned_proceed (h : Sound digest s) {o : Holder} (hh : s.holder = some o) {now : Time} {m : WorkerPolicy}
    {cached : Option CachedPolicy} (hp : s.proceed digest now o = some (.pinned m cached, t)) :
    t.pins = m :: s.pins ∧ t.loaded = s.loaded ∧ (cached.isSome ↔ m.adapter.isSome) := by
  cases o with
  | verify c =>
    rw [proceed, find_published h hh, Option.some.injEq] at hp
    obtain ⟨rfl, rfl, hpins, hloaded⟩ := pinned_returns hp
    exact ⟨hpins, hloaded, iff_of_true rfl (h.holds _ hh).1⟩
  | evict c w =>
    rw [proceed] at hp
    split at hp
    · cases hp
    · split at hp <;> cases hp
  | enforceRetention =>
    rw [proceed] at hp
    split at hp <;> cases hp
  | retain w =>
    rw [proceed] at hp
    split at hp <;> cases hp
  | prunePartialFiles c => cases hp
  | makeSpace c required => cases hp
  | validateManifest c => cases hp
  | download c files => cases hp

theorem pinned_fetch {o : Holder} {incoming : List Incoming} {ok : Bool} {m : WorkerPolicy}
    {cached : Option CachedPolicy} : s.fetch digest incoming ok o ≠ some (.pinned m cached, t) := by
  intro hp
  unfold fetch at hp
  split at hp
  · split at hp <;> cases hp
  · split at hp <;> cases hp
  · split at hp <;> cases hp
  · cases hp

theorem pinned_call {c : Call} {now : Time} {m : WorkerPolicy} {cached : Option CachedPolicy}
    (hs : s.call c now = (.pinned m cached, t)) :
    t.pins = m :: s.pins ∧ t.loaded = s.loaded ∧ (cached.isSome ↔ m.adapter.isSome) := by
  unfold call at hs
  split at hs
  · rename_i hbase
    split at hs
    · obtain ⟨ha, rfl⟩ := Prod.mk.inj hs
      obtain ⟨rfl, rfl⟩ := Answer.pinned.inj ha
      refine ⟨rfl, rfl, ?_⟩
      rw [hbase]
      exact Iff.rfl
    · cases (Prod.mk.inj hs).1
  · split at hs <;> cases (Prod.mk.inj hs).1

/-- **What a `pin` answers**, once it is open. -/
theorem pinned_step (h : Sound digest s) {m : WorkerPolicy} {cached : Option CachedPolicy}
    (hs : s.step digest ev = some (.pinned m cached, t)) :
    t.pins = m :: s.pins ∧ t.loaded = s.loaded ∧ (cached.isSome ↔ m.adapter.isSome) := by
  cases ev with
  | ensure m now => exact pinned_call (Option.some.inj hs)
  | pin m now => exact pinned_call (Option.some.inj hs)
  | unpin m now =>
    rw [step, Option.ite_none_right_eq_some] at hs
    cases hs.2
  | markLoaded p now => cases hs
  | markUnloaded p => cases hs
  | lock r now =>
    rw [step, Option.ite_none_right_eq_some] at hs
    obtain ⟨⟨-, hr⟩, hs⟩ := hs
    cases r with
    | ensure c =>
      have heq : ensureLocked digest { s with waiting := s.waiting.erase (.ensure c) } c now = (.pinned m cached, t) :=
        Option.some.inj hs
      unfold ensureLocked at heq
      split at heq
      · split at heq
        · obtain ⟨rfl, rfl, hpins, hloaded⟩ := pinned_returns heq
          exact ⟨hpins, hloaded, iff_of_true rfl (h.waiting c hr)⟩
        · cases (Prod.mk.inj heq).1
      · cases (Prod.mk.inj heq).1
    | retention => cases hs
  | proceed now =>
    rw [step, Option.bind_eq_some_iff] at hs
    obtain ⟨o, ho, hs⟩ := hs
    exact pinned_proceed h ho hs
  | fetch incoming ok =>
    rw [step, Option.bind_eq_some_iff] at hs
    obtain ⟨o, -, hs⟩ := hs
    exact absurd hs pinned_fetch

/-! ## Whole runs -/

theorem drain_alone : ∀ (n : Nat) (s : AdapterCache) (w : Eviction),
    (s.drain n w).maxBytes = s.maxBytes ∧ SamePins s (s.drain n w)
  | 0, _, _ => ⟨rfl, rfl, rfl, rfl⟩
  | n + 1, s, w => by
    rw [drain]
    split
    · exact ⟨rfl, rfl, rfl, rfl⟩
    · rename_i t u hn
      obtain ⟨hm, hp⟩ := drain_alone n t u
      rcases evictNext_cases hn with ⟨e, -, rfl, -⟩ | ⟨rfl, -⟩
      · exact ⟨hm, hp.pins, hp.references, hp.loaded⟩
      · exact ⟨hm, hp⟩

/-- A cache that starts has its bound, no pin and no mark. -/
theorem start_idle {maxBytes : Nat} {ds : List AdapterDirectory} {incoming : List Incoming}
    (h : start digest maxBytes ds incoming = some s) : s.maxBytes = maxBytes ∧ s.pins = [] ∧ s.loaded = ∅ := by
  rw [start, Option.map_eq_some_iff] at h
  obtain ⟨es, -, rfl⟩ := h
  unfold retainAll
  split
  · exact ⟨rfl, rfl, rfl⟩
  · obtain ⟨hm, hp⟩ := drain_alone (2 * es.length)
      ⟨maxBytes, es, ds, incoming, fun _ => 0, ∅, fun _ => 0, [], [], none⟩
      (eviction ⟨maxBytes, es, ds, incoming, fun _ => 0, ∅, fun _ => 0, [], [], none⟩ 0 0)
    exact ⟨hm, hp.pins, hp.loaded⟩

/-- Only the holder's steps end a call that has waited for the lock, or a pin's exit. -/
def Event.ofHolder : Event → Bool
  | .lock _ _ | .proceed _ | .fetch _ _ => true
  | _ => false

/-- What the cache promises in a state its runs reach.  An entry in use is kept, unless a pass had found it free before
it was marked loaded: `mark_loaded` then comes too late.  A pinned entry is never one. -/
structure Safe (digest : PolicyManifest → Digest) (maxBytes : Nat) (s : AdapterCache) : Prop where
  bounded : s.totalBytes ≤ maxBytes
  sizes : ∀ e ∈ s.cached, e.sizeBytes = e.manifest.adapterSize
  distinct : (s.cached.map (·.path)).Nodup
  listed : ∀ d, d ∈ s.directories ↔ s.Indexed d ∨ Publishing digest s d
  completed : ∀ ev a t, s.step digest ev = some (a, t) → ev.ofHolder → a ≠ .suspended →
    ∀ d, d ∈ t.directories ↔ t.Indexed d
  counted : ∀ p, s.references p = s.pins.countP (fun m => decide (m.policyId = p))
  pinned : ∀ m ∈ s.pins, m.adapter.isSome → ∃ e ∈ s.cached, e.path = path digest m
  unpinned : ∀ x, s.victim = some x → ¬ s.Pinned x
  found : ∀ ev a t, s.step digest ev = some (a, t) → ∀ x, t.victim = some x → s.victim ≠ some x → ¬ Protected s x
  kept : ∀ ev a t, s.step digest ev = some (a, t) → ∀ x ∈ s.cached,
    s.Pinned x ∨ x.manifest.policyId ∈ s.loaded ∧ s.victim ≠ some x →
    x ∈ t.cached ∧ ⟨x.path, x.manifest⟩ ∈ t.directories
  keptAlong : ∀ evs t x, Machine.run (next digest) s evs = some t →
    Machine.Meets (next digest) (fun u _ => Protected u x) s evs → s.victim ≠ some x → x ∈ s.cached → x ∈ t.cached
  untouched : ∀ ev a t, s.step digest ev = some (a, t) → ev.ofCall → (∀ m e, a ≠ .pinned m e) → SamePins s t

theorem holder_completed (h : Sound digest s) (hs : s.step digest ev = some (a, t)) (hev : ev.ofHolder)
    (ha : a ≠ .suspended) : t.holder = none := by
  cases ev with
  | lock r now => exact (moves_lock hs).ended ha
  | proceed now =>
    rw [step, Option.bind_eq_some_iff] at hs
    obtain ⟨o, ho, hs⟩ := hs
    exact (moves_proceed h ho hs).ended ha
  | fetch incoming ok =>
    rw [step, Option.bind_eq_some_iff] at hs
    obtain ⟨o, ho, hs⟩ := hs
    exact (moves_fetch hs).ended ha
  | ensure m now => cases hev
  | pin m now => cases hev
  | unpin m now => cases hev
  | markLoaded p now => cases hev
  | markUnloaded p => cases hev

/-- **An entry that stays in use stays cached**, if no pass had found it free before. -/
theorem Sound.keptAlong (h : Sound digest s) {x : CachedPolicy} {evs : List Event}
    (hr : Machine.run (next digest) s evs = some t)
    (hm : Machine.Meets (next digest) (fun u _ => Protected u x) s evs) (hv : s.victim ≠ some x) (hx : x ∈ s.cached) :
    x ∈ t.cached := by
  have hall : Sound digest t ∧ t.victim ≠ some x ∧ x ∈ t.cached := by
    refine Machine.run_keeps (I := fun u => Sound digest u ∧ u.victim ≠ some x ∧ x ∈ u.cached)
      (fun u ev v hu hp hn => ?_) evs s ⟨h, hv, hx⟩ hm t hr
    obtain ⟨hs, hv, hx⟩ := hu
    obtain ⟨a, hstep⟩ := step_of_next hn
    exact ⟨sound_step hs hstep, hs.victim_ne hstep hp hv, keeps_unless_found hs hstep hx hv⟩
  exact hall.2.2

theorem Sound.safe {maxBytes : Nat} (h : Sound digest s) (hm : s.maxBytes = maxBytes) : Safe digest maxBytes s := by
  refine ⟨hm ▸ h.bounded, fun e he => (h.entries e he).2, h.paths, h.index, fun ev a t hs hev ha => ?_, h.references,
    h.pinned, h.free, fun ev a t hs x hx hv => h.not_protected (found_step hs hx hv), fun ev a t hs x hx hp => ?_,
    fun evs t x hr hmeets hv hx => h.keptAlong hr hmeets hv hx, fun ev a t hs => (moves_step h hs).2.2⟩
  · have hnone := holder_completed h hs hev ha
    exact (sound_step h hs).index_of fun c hc => by rw [hnone] at hc; cases hc
  · have hv : s.victim ≠ some x := by
      rcases hp with hp | ⟨-, hv⟩
      · exact fun hv => h.free x hv hp
      · exact hv
    have hkept := keeps_unless_found h hs hx hv
    exact ⟨hkept, ((sound_step h hs).index _).2 (Or.inl ⟨x, hkept, rfl, rfl⟩)⟩

namespace Sample

def policy (version size : Nat) (h : version ≠ 0) : WorkerPolicy :=
  ⟨⟨"run", version, "base", some ⟨"adapter"⟩, 0, "policy-v" ++ Numeral.zfill 8 version ++ "-" ++ "0f"⟩,
    [⟨"adapter_config.json", size, "sha256:c"⟩, ⟨"adapter_model.safetensors", size, "sha256:m"⟩], ⟨"0f", rfl⟩,
    ⟨fun h0 => absurd h0 h, fun h0 => nomatch h0⟩⟩

def first : WorkerPolicy := policy 1 2 (by decide)
def second : WorkerPolicy := policy 2 2 (by decide)
def third : WorkerPolicy := policy 3 2 (by decide)

def directory (m : WorkerPolicy) : AdapterDirectory := ⟨path (·.policyId) m, m⟩

/-- Two adapters of four bytes fill the cache; a third of four bytes is pinned, and a pass finds the one used less
recently free. -/
def found : List Event :=
  [.ensure first 1, .lock (.ensure ⟨first, false⟩) 2, .pin third 3, .lock (.ensure ⟨third, true⟩) 4, .proceed 5,
    .proceed 5, .proceed 5]

/-- Both adapters are marked loaded now, and the third takes the place of the one found free. -/
def events : List Event :=
  found ++ [.markLoaded first.policyId 6, .markLoaded second.policyId 6, .proceed 7, .proceed 7, .fetch [] true,
    .fetch [⟨"c", true, 2⟩] true, .fetch [] true, .fetch [] true, .proceed 8]

/-- The cache before an event, with what the event leads to. -/
def marked : Option (AdapterCache × AdapterCache) :=
  ((start (·.policyId) 9 [directory first, directory second] []).bind fun s =>
    Machine.run (next (·.policyId)) s (found ++ [.markLoaded second.policyId 6])).bind
      fun s => (s.next (·.policyId) (.proceed 7)).map fun t => (s, t)

end Sample

end AdapterCache

end Aether
