import AetherRl.AdapterCache
import Mathlib.Tactic
/-!
# AdapterCacheSound — the cache keeps what is in use and stays within its bound

Between suspension points the index is what the directories are, but for the one just published, and the bytes a call
has made room for are free until it has filled them.  An entry a pass is about to remove is not pinned: no policy can
be pinned while the pass holds the capacity lock.  A mark can be set on it meanwhile, and does not save it.
-/
namespace Aether

namespace AdapterCache

variable (digest : PolicyManifest → Digest)

/-- An open `pin` is on the entry. -/
def Pinned (s : AdapterCache) (e : CachedPolicy) : Prop :=
  ∃ m ∈ s.pins, m.adapter.isSome ∧ m.policyId = e.manifest.policyId

/-- An entry in use: its policy is marked loaded, or pinned. -/
def Protected (s : AdapterCache) (e : CachedPolicy) : Prop := e.manifest.policyId ∈ s.loaded ∨ s.Pinned e

/-- The index lists the directory. -/
def Indexed (s : AdapterCache) (d : AdapterDirectory) : Prop := ∃ e ∈ s.cached, e.path = d.path ∧ e.manifest = d.manifest

/-- The directory was published by the call that holds the lock, which has yet to list it. -/
def Publishing (s : AdapterCache) (d : AdapterDirectory) : Prop :=
  ∃ c, s.holder = some (.verify c) ∧ d = ⟨path digest c.manifest, c.manifest⟩

/-- A call whose adapter no directory holds. -/
structure New (s : AdapterCache) (c : Call) : Prop where
  adapter : c.manifest.adapter.isSome
  fresh : ∀ d ∈ s.directories, d.path ≠ path digest c.manifest

/-- There is room for the adapter of the call. -/
def Room (s : AdapterCache) (c : Call) : Prop := s.totalBytes + c.manifest.adapterSize ≤ s.maxBytes

/-- A pass over the entries, which counts their bytes and `besides`. -/
structure Evicting (s : AdapterCache) (w : Eviction) (besides : Nat) : Prop where
  mem : ∀ e ∈ w.victim.toList ++ w.rest, e ∈ s.cached
  nodup : ((w.victim.toList ++ w.rest).map (·.path)).Nodup
  total : w.total + w.required = s.totalBytes + besides

def HolderSound (s : AdapterCache) : Holder → Prop
  | .prunePartialFiles c => New digest s c
  | .makeSpace c required => New digest s c ∧ s.incomingSize + required = c.manifest.adapterSize
  | .evict c w => New digest s c ∧ Evicting s w c.manifest.adapterSize
  | .validateManifest c => New digest s c ∧ s.Room c
  | .download c _ => New digest s c ∧ s.Room c
  | .verify c => c.manifest.adapter.isSome ∧ (∀ e ∈ s.cached, e.path ≠ path digest c.manifest) ∧ s.Room c
  | .enforceRetention => True
  | .retain w => Evicting s w 0

/-- The entries are filed under their paths, and the pins are counted and have their entries. -/
structure Filed (s : AdapterCache) : Prop where
  waiting : ∀ c, Request.ensure c ∈ s.waiting → c.manifest.adapter.isSome
  paths : (s.cached.map (·.path)).Nodup
  entries : ∀ e ∈ s.cached, e.path = path digest e.manifest ∧ e.sizeBytes = e.manifest.adapterSize
  references : ∀ p, s.references p = s.pins.countP (fun m => decide (m.policyId = p))
  pinned : ∀ m ∈ s.pins, m.adapter.isSome → ∃ e ∈ s.cached, e.path = path digest m

/-- What holds whoever has the lock. -/
structure Settled (s : AdapterCache) : Prop extends Filed digest s where
  bounded : s.totalBytes ≤ s.maxBytes

structure Sound (s : AdapterCache) : Prop extends Settled digest s where
  index : ∀ d, d ∈ s.directories ↔ s.Indexed d ∨ Publishing digest s d
  holds : ∀ h, s.holder = some h → HolderSound digest s h
  free : ∀ e ∈ s.victim, ¬ s.Pinned e

variable {digest : PolicyManifest → Digest} {s t : AdapterCache} {w u : Eviction} {c : Call} {k : Nat}

/-! ## A pass -/

theorem evictNext_cases (h : s.evictNext w = some (t, u)) :
    (∃ e, w.victim = some e ∧ t = s.removeEntry e.path ∧
      u = { w with victim := none, total := w.total - e.sizeBytes }) ∨
    (t = s ∧ w.victim = none ∧ ∃ e rest, w.rest = e :: rest ∧
      (s.InUse e.manifest.policyId ∧ u = { w with rest := rest } ∨
        (¬ s.InUse e.manifest.policyId ∧ u = { w with rest := rest, victim := some e }))) := by
  unfold evictNext at h
  cases hv : w.victim with
  | some e =>
    rw [hv] at h
    simp only [Option.some.injEq, Prod.mk.injEq] at h
    exact Or.inl ⟨e, rfl, h.1.symm, h.2.symm⟩
  | none =>
    rw [hv] at h
    simp only at h
    split at h
    · cases h
    · cases hr : w.rest with
      | nil =>
        rw [hr] at h
        cases h
      | cons e rest =>
        rw [hr] at h
        simp only at h
        split at h
        · rename_i huse
          simp only [Option.some.injEq, Prod.mk.injEq] at h
          exact Or.inr ⟨h.1.symm, rfl, e, rest, rfl, Or.inl ⟨huse, h.2.symm⟩⟩
        · rename_i hfree
          simp only [Option.some.injEq, Prod.mk.injEq] at h
          exact Or.inr ⟨h.1.symm, rfl, e, rest, rfl, Or.inr ⟨hfree, h.2.symm⟩⟩

/-- **The loop ends** with room, or with no entry left to look at. -/
theorem evictNext_none (h : s.evictNext w = none) :
    w.total + w.required ≤ s.maxBytes ∨ w.victim = none ∧ w.rest = [] := by
  unfold evictNext at h
  cases hv : w.victim with
  | some e =>
    rw [hv] at h
    cases h
  | none =>
    rw [hv] at h
    simp only at h
    split at h
    · rename_i hroom
      exact Or.inl hroom
    · cases hr : w.rest with
      | nil => exact Or.inr ⟨rfl, rfl⟩
      | cons e rest =>
        rw [hr] at h
        simp only at h
        split at h <;> cases h

theorem sum_without (l : List CachedPolicy) {e : CachedPolicy} (hn : (l.map (·.path)).Nodup) (he : e ∈ l) :
    ((l.filter (·.path ≠ e.path)).map (·.sizeBytes)).sum + e.sizeBytes = (l.map (·.sizeBytes)).sum := by
  induction l with
  | nil => cases he
  | cons x l ih =>
    rw [List.map_cons, List.nodup_cons] at hn
    rcases List.mem_cons.1 he with rfl | hmem
    · have hall : l.filter (·.path ≠ e.path) = l := by
        rw [List.filter_eq_self]
        intro y hy
        rw [decide_eq_true_eq]
        exact fun hp => hn.1 (List.mem_map.2 ⟨y, hy, hp⟩)
      rw [List.filter_cons_of_neg (by simp), hall, List.map_cons, List.sum_cons, Nat.add_comm]
    · have hx : x.path ≠ e.path := fun hp => hn.1 (List.mem_map.2 ⟨e, hmem, hp.symm⟩)
      rw [List.filter_cons_of_pos (by simpa using hx), List.map_cons, List.sum_cons, List.map_cons, List.sum_cons,
        Nat.add_assoc, ih hn.2 hmem]

/-- **Removing an entry** frees its bytes. -/
theorem totalBytes_removeEntry {e : CachedPolicy} (hn : (s.cached.map (·.path)).Nodup) (he : e ∈ s.cached) :
    (s.removeEntry e.path).totalBytes + e.sizeBytes = s.totalBytes :=
  sum_without s.cached hn he

theorem mem_removeEntry {p : CachePath} {e : CachedPolicy} :
    e ∈ (s.removeEntry p).cached ↔ e ∈ s.cached ∧ e.path ≠ p := by
  rw [removeEntry, List.mem_filter, decide_eq_true_eq]

theorem mem_directories_removeEntry {p : CachePath} {d : AdapterDirectory} :
    d ∈ (s.removeEntry p).directories ↔ d ∈ s.directories ∧ d.path ≠ p := by
  rw [removeEntry, List.mem_filter, decide_eq_true_eq]

theorem indexed_removeEntry {p : CachePath} {d : AdapterDirectory} :
    (s.removeEntry p).Indexed d ↔ s.Indexed d ∧ d.path ≠ p := by
  constructor
  · rintro ⟨e, he, hp, hm⟩
    rw [mem_removeEntry] at he
    exact ⟨⟨e, he.1, hp, hm⟩, hp ▸ he.2⟩
  · rintro ⟨⟨e, he, hp, hm⟩, hd⟩
    exact ⟨e, mem_removeEntry.2 ⟨he, hp ▸ hd⟩, hp, hm⟩

/-- **A step of the loop**: it still has before it what is cached, and still counts what there is. -/
theorem Evicting.next (h : Evicting s w k) (hn : (s.cached.map (·.path)).Nodup) (he : s.evictNext w = some (t, u)) :
    Evicting t u k := by
  rcases evictNext_cases he with ⟨e, hv, rfl, rfl⟩ | ⟨rfl, hv, e, rest, hr, ⟨-, rfl⟩ | ⟨-, rfl⟩⟩
  · have hmem := h.mem
    have hnodup := h.nodup
    rw [hv, Option.toList_some, List.singleton_append] at hmem hnodup
    rw [List.map_cons, List.nodup_cons] at hnodup
    refine ⟨fun x hx => ?_, hnodup.2, ?_⟩
    · have hx : x ∈ w.rest := hx
      exact mem_removeEntry.2 ⟨hmem x (List.mem_cons_of_mem _ hx),
        fun hp => hnodup.1 (List.mem_map.2 ⟨x, hx, hp⟩)⟩
    · have htotal := h.total
      have hbytes := totalBytes_removeEntry hn (hmem e List.mem_cons_self)
      simp only
      omega
  · have hmem := h.mem
    have hnodup := h.nodup
    rw [hv, hr, Option.toList_none, List.nil_append] at hmem hnodup
    rw [List.map_cons, List.nodup_cons] at hnodup
    refine ⟨fun x hx => ?_, ?_, h.total⟩
    · rw [hv] at hx
      exact hmem x (List.mem_cons_of_mem _ hx)
    · rw [hv]
      exact hnodup.2
  · have hmem := h.mem
    have hnodup := h.nodup
    rw [hv, hr, Option.toList_none, List.nil_append] at hmem hnodup
    exact ⟨hmem, hnodup, h.total⟩

theorem evicting_eviction (s : AdapterCache) (required : Int) (besides : Nat)
    (hn : (s.cached.map (·.path)).Nodup) {k : Nat} (hk : besides + required = k) :
    Evicting s (s.eviction required besides) k := by
  have hperm : (s.cached.insertionSort s.UsedBefore).Perm s.cached := List.perm_insertionSort _ _
  refine ⟨fun e he => hperm.mem_iff.1 he, (hperm.map _).nodup_iff.2 hn, ?_⟩
  simp only [eviction]
  omega

/-! ## Entries in use -/

/-- **An entry a pass finds free is not in use.** -/
theorem Filed.not_protected (h : Filed digest s) {e : CachedPolicy} (hfree : ¬ s.InUse e.manifest.policyId) :
    ¬ Protected s e := by
  rintro (hl | ⟨m, hm, -, hid⟩)
  · exact hfree (Or.inl hl)
  · refine hfree (Or.inr ?_)
    rw [h.references, ← Nat.pos_iff_ne_zero, List.countP_pos_iff]
    exact ⟨m, hm, decide_eq_true hid⟩

theorem Filed.removeEntry (h : Filed digest s) {e : CachedPolicy} (he : e ∈ s.cached) (hfree : ¬ s.Pinned e) :
    Filed digest (s.removeEntry e.path) := by
  refine ⟨h.waiting, ?_, fun x hx => h.entries x (mem_removeEntry.1 hx).1, h.references, fun m hm ha => ?_⟩
  · exact (List.filter_sublist.map _).nodup h.paths
  · obtain ⟨x, hx, hp⟩ := h.pinned m hm ha
    refine ⟨x, mem_removeEntry.2 ⟨hx, fun hxe => hfree ⟨m, hm, ha, ?_⟩⟩, hp⟩
    rw [hxe, (h.entries e he).1] at hp
    exact (congrArg CachePath.name hp).symm

theorem index_removeEntry (h : ∀ d, d ∈ s.directories ↔ s.Indexed d) (p : CachePath) (d : AdapterDirectory) :
    d ∈ (s.removeEntry p).directories ↔ (s.removeEntry p).Indexed d := by
  rw [mem_directories_removeEntry, indexed_removeEntry, h]

/-! ## The holder -/

theorem Evicting.congr (h : Evicting s w k) (hc : t.cached = s.cached) : Evicting t w k := by
  refine ⟨hc ▸ h.mem, h.nodup, ?_⟩
  rw [totalBytes, hc]
  exact h.total

theorem New.congr (h : New digest s c) (hd : t.directories = s.directories) : New digest t c :=
  ⟨h.adapter, hd ▸ h.fresh⟩

theorem Room.congr (h : s.Room c) (hc : t.cached = s.cached) (hm : t.maxBytes = s.maxBytes) : t.Room c := by
  rw [Room, totalBytes, hc, hm]
  exact h

/-- What the holder relies on is what only the holder changes. -/
theorem HolderSound.congr {h : Holder} (hs : HolderSound digest s h) (hc : t.cached = s.cached)
    (hd : t.directories = s.directories) (hi : t.incoming = s.incoming) (hm : t.maxBytes = s.maxBytes) :
    HolderSound digest t h := by
  cases h with
  | prunePartialFiles c => exact New.congr hs hd
  | makeSpace c required => exact ⟨hs.1.congr hd, by rw [incomingSize, hi]; exact hs.2⟩
  | evict c w => exact ⟨hs.1.congr hd, hs.2.congr hc⟩
  | validateManifest c => exact ⟨hs.1.congr hd, hs.2.congr hc hm⟩
  | download c files => exact ⟨hs.1.congr hd, hs.2.congr hc hm⟩
  | verify c => exact ⟨hs.1, hc ▸ hs.2.1, hs.2.2.congr hc hm⟩
  | enforceRetention => trivial
  | retain w => exact Evicting.congr hs hc

theorem Settled.sound (h : Settled digest s) (hx : ∀ d, d ∈ s.directories ↔ s.Indexed d) (hn : s.holder = none) :
    Sound digest s := by
  refine ⟨h, fun d => ?_, fun o ho => ?_, fun e he => ?_⟩
  · rw [hx, Publishing, hn]
    simp
  · rw [hn] at ho
    cases ho
  · rw [victim, hn] at he
    cases he

/-- The lock's holder goes on, with nothing published. -/
theorem Settled.suspends (h : Settled digest s) (hx : ∀ d, d ∈ s.directories ↔ s.Indexed d) {o : Holder}
    (ho : HolderSound digest s o) (hv : ∀ c, o ≠ .verify c)
    (hf : ∀ e ∈ (s.suspends o).2.victim, ¬ s.Pinned e) : Sound digest (s.suspends o).2 := by
  refine ⟨⟨⟨h.waiting, h.paths, h.entries, h.references, h.pinned⟩, h.bounded⟩, fun d => ?_, fun o' ho' => ?_, hf⟩
  · rw [show (d ∈ (s.suspends o).2.directories ↔ (s.suspends o).2.Indexed d) from hx d]
    refine ⟨Or.inl, fun hd => hd.resolve_right fun ⟨c, hc, _⟩ => ?_⟩
    exact hv c (Option.some.inj hc)
  · obtain rfl : o = o' := Option.some.inj ho'
    exact ho.congr rfl rfl rfl rfl

theorem Sound.index_of (h : Sound digest s) (hn : ∀ c, s.holder ≠ some (.verify c)) (d : AdapterDirectory) :
    d ∈ s.directories ↔ s.Indexed d := by
  rw [h.index]
  exact or_iff_left fun ⟨c, hc, _⟩ => hn c hc

/-! ## Steps -/

theorem settled_addPin (h : Settled digest s) {m : WorkerPolicy} (now : Time)
    (hm : m.adapter.isSome → ∃ e ∈ s.cached, e.path = path digest m) : Settled digest (s.addPin m now) := by
  refine ⟨⟨h.waiting, h.paths, h.entries, fun p => ?_, fun x hx ha => ?_⟩, h.bounded⟩
  · change Function.update s.references m.policyId (s.references m.policyId + 1) p = List.countP _ (m :: s.pins)
    rw [List.countP_cons, ← h.references]
    by_cases hp : m.policyId = p
    · subst hp
      rw [Function.update_self, decide_eq_true rfl, if_pos rfl]
    · rw [Function.update_of_ne (fun h => hp h.symm), decide_eq_false hp, if_neg Bool.false_ne_true, Nat.add_zero]
  · rcases List.mem_cons.1 hx with rfl | hx
    · exact hm ha
    · exact h.pinned x hx ha

/-- **A call returns** an entry that is cached. -/
theorem sound_returns (h : Settled digest s) (hx : ∀ d, d ∈ s.directories ↔ s.Indexed d) {e : CachedPolicy} (now : Time)
    (he : e ∈ s.cached) (hp : e.path = path digest c.manifest) : Sound digest (s.returns c e now).2 := by
  have hidle : Settled digest
      { s with holder := none, lastUsed := Function.update s.lastUsed c.manifest.policyId now } :=
    ⟨⟨h.waiting, h.paths, h.entries, h.references, h.pinned⟩, h.bounded⟩
  unfold returns
  simp only
  split
  · exact (settled_addPin hidle now fun _ => ⟨e, he, hp⟩).sound hx rfl
  · exact hidle.sound hx rfl

theorem sound_raises (h : Settled digest s) (hx : ∀ d, d ∈ s.directories ↔ s.Indexed d) (err : Error) :
    Sound digest (s.raises err).2 :=
  Settled.sound ⟨⟨h.waiting, h.paths, h.entries, h.references, h.pinned⟩, h.bounded⟩ hx rfl

/-- What leaves the entries, the directories and the holder alone leaves the index and the holder sound. -/
theorem Sound.congr (h : Sound digest s) (ht : Settled digest t) (hc : t.cached = s.cached)
    (hd : t.directories = s.directories) (hi : t.incoming = s.incoming) (hm : t.maxBytes = s.maxBytes)
    (hh : t.holder = s.holder) (hf : ∀ e ∈ s.victim, ¬ t.Pinned e) : Sound digest t := by
  refine ⟨ht, fun d => ?_, fun o ho => (h.holds o (hh ▸ ho)).congr hc hd hi hm, fun e he => hf e ?_⟩
  · rw [hd, h.index, Indexed, Indexed, hc, Publishing, Publishing, hh]
  · rw [victim, hh] at he
    exact he

theorem sound_call (h : Sound digest s) (now : Time) : Sound digest (s.call c now).2 := by
  have hs := h.toSettled
  unfold call
  split
  · rename_i hbase
    split
    · have hpin : Settled digest (s.addPin c.manifest now) := by
        refine settled_addPin hs now fun ha => ?_
        rw [hbase] at ha
        cases ha
      refine h.congr hpin rfl rfl rfl rfl rfl fun e he hp => h.free e he ?_
      obtain ⟨m, hm, ha, hp⟩ := hp
      rcases List.mem_cons.1 hm with rfl | hm
      · rw [hbase] at ha
        cases ha
      · exact ⟨m, hm, ha, hp⟩
    · exact h
  · rename_i hadapter
    split
    · exact h
    · have hwait : Settled digest { s with waiting := .ensure c :: s.waiting } := by
        refine ⟨⟨fun x hx => ?_, hs.paths, hs.entries, hs.references, hs.pinned⟩, hs.bounded⟩
        rcases List.mem_cons.1 hx with hx | hx
        · obtain rfl : x = c := Request.ensure.inj hx
          exact Option.isSome_iff_ne_none.2 hadapter
        · exact hs.waiting x hx
      exact h.congr hwait rfl rfl rfl rfl rfl h.free

theorem sound_unpin (h : Sound digest s) {m : WorkerPolicy} (hm : m ∈ s.pins) (now : Time) :
    Sound digest (s.unpin m now) := by
  have hs := h.toSettled
  have hunpin : Settled digest (s.unpin m now) := by
    refine ⟨⟨fun x hx => ?_, hs.paths, hs.entries, fun p => ?_,
      fun x hx ha => hs.pinned x (List.mem_of_mem_erase hx) ha⟩, hs.bounded⟩
    · rcases List.mem_cons.1 hx with hx | hx
      · cases hx
      · exact hs.waiting x hx
    · change Function.update s.references m.policyId (s.references m.policyId - 1) p = List.countP _ (s.pins.erase m)
      simp only [List.countP_erase, hm, true_and, decide_eq_true_eq]
      rw [← hs.references]
      by_cases hp : m.policyId = p
      · subst hp
        rw [Function.update_self, if_pos rfl]
      · rw [Function.update_of_ne (fun h => hp h.symm), if_neg hp, Nat.sub_zero]
  refine h.congr hunpin rfl rfl rfl rfl rfl fun e he hp => h.free e he ?_
  obtain ⟨x, hx, ha, hp⟩ := hp
  exact ⟨x, List.mem_of_mem_erase hx, ha, hp⟩

theorem sound_markLoaded (h : Sound digest s) (p : OpaqueId) (now : Time) : Sound digest (s.markLoaded p now) := by
  have hs := h.toSettled
  have hmark : Settled digest (s.markLoaded p now) :=
    ⟨⟨hs.waiting, hs.paths, hs.entries, hs.references, hs.pinned⟩, hs.bounded⟩
  exact h.congr hmark rfl rfl rfl rfl rfl h.free

theorem sound_markUnloaded (h : Sound digest s) (p : OpaqueId) : Sound digest (s.markUnloaded p) := by
  have hs := h.toSettled
  have hmark : Settled digest (s.markUnloaded p) :=
    ⟨⟨hs.waiting, hs.paths, hs.entries, hs.references, hs.pinned⟩, hs.bounded⟩
  exact h.congr hmark rfl rfl rfl rfl rfl h.free

/-- **The lock is taken**: an adapter on disk is listed, so that the call returns its entry. -/
theorem sound_ensureLocked (h : Settled digest s) (hx : ∀ d, d ∈ s.directories ↔ s.Indexed d)
    (ha : c.manifest.adapter.isSome) (now : Time) : Sound digest (s.ensureLocked digest c now).2 := by
  unfold ensureLocked
  split
  · rename_i hexists
    obtain ⟨d, hd, hp⟩ := hexists
    obtain ⟨e, he, hed, -⟩ := (hx d).1 hd
    split
    · rename_i found hfound
      have hpath := List.find?_some hfound
      exact sound_returns h hx now (List.mem_of_find?_eq_some hfound) (of_decide_eq_true hpath)
    · rename_i hnone
      have hne := List.find?_eq_none.1 hnone e he
      exact absurd (decide_eq_true (hed.trans hp)) hne
  · rename_i hnew
    refine h.suspends hx (o := .prunePartialFiles c) ?_ (fun c h => by cases h) (fun e he => by cases he)
    exact ⟨ha, fun d hd hp => hnew ⟨d, hd, hp⟩⟩

/-! ## The holder's steps -/

/-- **A step of a pass** removes no pinned entry, and what it finds free is not pinned. -/
theorem Filed.evictNext (h : Filed digest s) (hx : ∀ d, d ∈ s.directories ↔ s.Indexed d) (he : Evicting s w k)
    (hf : ∀ e ∈ w.victim, ¬ s.Pinned e) (hn : s.evictNext w = some (t, u)) :
    Filed digest t ∧ (∀ d, d ∈ t.directories ↔ t.Indexed d) ∧ Evicting t u k ∧
      (∀ e ∈ u.victim, ¬ t.Pinned e) ∧ t.maxBytes = s.maxBytes ∧ t.totalBytes ≤ s.totalBytes ∧
      ∀ d ∈ t.directories, d ∈ s.directories := by
  have hnext := he.next h.paths hn
  rcases evictNext_cases hn with ⟨e, hv, rfl, rfl⟩ | ⟨rfl, hv, e, rest, hr, hu⟩
  · have hmem : e ∈ s.cached := he.mem e (by rw [hv]; exact List.mem_cons_self)
    have hbytes := totalBytes_removeEntry h.paths hmem
    refine ⟨h.removeEntry hmem (hf e hv), index_removeEntry hx e.path, hnext, fun x hx => (by cases hx), rfl, by omega, ?_⟩
    intro d hd
    exact (mem_directories_removeEntry.1 hd).1
  · refine ⟨h, hx, hnext, fun x hxu => ?_, rfl, le_rfl, fun d hd => hd⟩
    rcases hu with ⟨-, rfl⟩ | ⟨hfree, rfl⟩
    · rw [hv] at hxu
      cases hxu
    · obtain rfl : e = x := Option.some.inj hxu
      exact fun hp => h.not_protected hfree (Or.inr hp)

theorem sizes_prunePartialFiles (m : WorkerPolicy) (incoming : List Incoming) :
    sizes ((prunePartialFiles m incoming).filter (·.regular)) = sizes (prunePartialFiles m incoming) := by
  congr 1
  rw [List.filter_eq_self]
  intro f hf
  rw [prunePartialFiles, List.mem_filter, Bool.and_eq_true] at hf
  exact hf.2.1

/-- **A published directory is listed** as what it holds. -/
theorem find_published (h : Sound digest s) (hh : s.holder = some (.verify c)) :
    (s.directories.find? (fun d => decide (d.path = path digest c.manifest))).bind (verify digest c.manifest) =
      some ⟨c.manifest, path digest c.manifest, c.manifest.adapterSize⟩ := by
  obtain ⟨ha, hfresh, -⟩ := h.holds _ hh
  have hmem : (⟨path digest c.manifest, c.manifest⟩ : AdapterDirectory) ∈ s.directories :=
    (h.index _).2 (Or.inr ⟨c, hh, rfl⟩)
  cases hfind : s.directories.find? (fun d => decide (d.path = path digest c.manifest)) with
  | none => exact absurd (decide_eq_true rfl) (List.find?_eq_none.1 hfind _ hmem)
  | some d =>
    have hpath : d.path = path digest c.manifest := by
      have hd := List.find?_some hfind
      exact of_decide_eq_true hd
    rcases (h.index d).1 (List.mem_of_find?_eq_some hfind) with ⟨e, he, hp, -⟩ | ⟨c', hc', hd⟩
    · exact absurd (hp.trans hpath) (hfresh e he)
    · rw [hh, Option.some.injEq, Holder.verify.injEq] at hc'
      subst hc'
      rw [hd, Option.bind_some, verify, if_pos ⟨ha, rfl⟩]

theorem put_fresh {e : CachedPolicy} (hf : ∀ x ∈ s.cached, x.path ≠ e.path) : (s.put e).cached = s.cached ++ [e] := by
  have hall : s.cached.filter (fun x => decide (x.path ≠ e.path)) = s.cached := by
    rw [List.filter_eq_self]
    exact fun x hx => decide_eq_true (hf x hx)
  rw [put, hall]

theorem settled_put (h : Settled digest s) {e : CachedPolicy} (hf : ∀ x ∈ s.cached, x.path ≠ e.path)
    (he : e.path = path digest e.manifest ∧ e.sizeBytes = e.manifest.adapterSize)
    (hroom : s.totalBytes + e.sizeBytes ≤ s.maxBytes) : Settled digest (s.put e) := by
  have hput := put_fresh hf
  refine ⟨⟨h.waiting, ?_, fun x hx => ?_, h.references, fun m hm ha => ?_⟩, ?_⟩
  · rw [hput, List.map_append, List.nodup_append]
    refine ⟨h.paths, List.nodup_singleton _, fun p hp q hq => ?_⟩
    obtain ⟨x, hx, rfl⟩ := List.mem_map.1 hp
    obtain rfl : q = e.path := List.mem_singleton.1 hq
    exact hf x hx
  · rw [hput, List.mem_append, List.mem_singleton] at hx
    rcases hx with hx | rfl
    · exact h.entries x hx
    · exact he
  · obtain ⟨x, hx, hp⟩ := h.pinned m hm ha
    exact ⟨x, by rw [hput]; exact List.mem_append_left _ hx, hp⟩
  · rw [totalBytes, hput, List.map_append, List.sum_append]
    exact hroom

/-- **A call that has published its adapter** lists and returns it. -/
theorem sound_verify (h : Sound digest s) (hh : s.holder = some (.verify c)) (now : Time) {e : CachedPolicy}
    (he : e = ⟨c.manifest, path digest c.manifest, c.manifest.adapterSize⟩) :
    Sound digest ((s.put e).returns c e now).2 := by
  obtain ⟨-, hfresh, hroom⟩ := h.holds _ hh
  have hpath : e.path = path digest c.manifest := congrArg CachedPolicy.path he
  have hmanifest : e.manifest = c.manifest := congrArg CachedPolicy.manifest he
  have hsize : e.sizeBytes = c.manifest.adapterSize := congrArg CachedPolicy.sizeBytes he
  have hf : ∀ x ∈ s.cached, x.path ≠ e.path := fun x hx => hpath ▸ hfresh x hx
  have hput := put_fresh hf
  have hsettled : Settled digest (s.put e) :=
    settled_put h.toSettled hf ⟨by rw [hpath, hmanifest], by rw [hsize, hmanifest]⟩ (by rw [hsize]; exact hroom)
  refine sound_returns hsettled (fun d => ?_) now ?_ hpath
  · change d ∈ s.directories ↔ _
    rw [h.index, Indexed, Indexed, hput]
    constructor
    · rintro (⟨x, hx, hxd⟩ | ⟨c', hc', rfl⟩)
      · exact ⟨x, List.mem_append_left _ hx, hxd⟩
      · rw [hh, Option.some.injEq, Holder.verify.injEq] at hc'
        subst hc'
        exact ⟨e, List.mem_append_right _ (List.mem_singleton_self _), hpath, hmanifest⟩
    · rintro ⟨x, hx, hp, hm⟩
      rcases List.mem_append.1 hx with hx | hx
      · exact Or.inl ⟨x, hx, hp, hm⟩
      · rw [List.mem_singleton.1 hx] at hp hm
        exact Or.inr ⟨c, hh, by rw [← hpath, ← hmanifest, hp, hm]⟩
  · rw [hput]
    exact List.mem_append_right _ (List.mem_singleton_self _)

/-- **A directory is published** where none stood. -/
theorem sound_publish (h : Settled digest s) (hx : ∀ d, d ∈ s.directories ↔ s.Indexed d) (hnew : New digest s c)
    (hroom : s.Room c) : Sound digest ((s.publishDirectory digest c.manifest).suspends (.verify c)).2 := by
  have hpub : s.publishDirectory digest c.manifest =
      { s with directories := ⟨path digest c.manifest, c.manifest⟩ :: s.directories } := by
    rw [publishDirectory, if_neg fun ⟨d, hd, hp⟩ => hnew.fresh d hd hp]
  rw [hpub]
  refine ⟨⟨⟨h.waiting, h.paths, h.entries, h.references, h.pinned⟩, h.bounded⟩, fun d => ?_, fun o ho => ?_,
    fun e he => by cases he⟩
  · constructor
    · intro hd
      rcases List.mem_cons.1 hd with rfl | hd
      · exact Or.inr ⟨c, rfl, rfl⟩
      · exact Or.inl ((hx d).1 hd)
    · rintro (hd | ⟨c', hc', rfl⟩)
      · exact List.mem_cons_of_mem _ ((hx d).2 hd)
      · obtain rfl : c = c' := Holder.verify.inj (Option.some.inj hc')
        exact List.mem_cons_self
  · obtain rfl : Holder.verify c = o := Option.some.inj ho
    refine ⟨hnew.adapter, fun e he hp => ?_, hroom⟩
    exact hnew.fresh ⟨e.path, e.manifest⟩ ((hx _).2 ⟨e, he, rfl, rfl⟩) hp

/-- **Every step of the holder is sound.** -/
theorem sound_proceed (h : Sound digest s) {o : Holder} (hh : s.holder = some o) {now : Time} {a : Answer}
    (hp : s.proceed digest now o = some (a, t)) : Sound digest t := by
  have hs := h.toSettled
  have ho := h.holds o hh
  have hx (hv : ∀ c, o ≠ .verify c) : ∀ d, d ∈ s.directories ↔ s.Indexed d :=
    h.index_of fun c hc => hv c (Option.some.inj (hh.symm.trans hc))
  cases o with
  | prunePartialFiles c =>
    rw [proceed, Option.some.injEq] at hp
    obtain rfl := congrArg Prod.snd hp
    have hkept : Settled digest { s with incoming := prunePartialFiles c.manifest s.incoming } :=
      ⟨⟨hs.waiting, hs.paths, hs.entries, hs.references, hs.pinned⟩, hs.bounded⟩
    refine hkept.suspends (hx fun c h => by cases h) ⟨New.congr ho rfl, ?_⟩ (fun c h => by cases h)
      (fun e he => by cases he)
    have hsizes := sizes_prunePartialFiles c.manifest s.incoming
    rw [incomingSize, hsizes]
    omega
  | makeSpace c required =>
    rw [proceed, Option.some.injEq] at hp
    obtain rfl := congrArg Prod.snd hp
    exact hs.suspends (hx fun c h => by cases h) ⟨ho.1, evicting_eviction s _ _ hs.paths ho.2⟩ (fun c h => by cases h)
      (fun e he => by cases he)
  | evict c w =>
    have hfree : ∀ e ∈ w.victim, ¬ s.Pinned e := fun e he => h.free e (by rw [victim, hh]; exact he)
    rw [proceed] at hp
    split at hp
    · rename_i v u hn
      rw [Option.some.injEq] at hp
      obtain rfl := congrArg Prod.snd hp
      obtain ⟨hv, hxv, hev, hfv, hmax, hle, hdirs⟩ := hs.evictNext (hx fun c h => by cases h) ho.2 hfree hn
      have hset : Settled digest v := ⟨hv, hmax ▸ hle.trans hs.bounded⟩
      exact hset.suspends hxv ⟨⟨ho.1.adapter, fun d hd => ho.1.fresh d (hdirs d hd)⟩, hev⟩ (fun c h => by cases h) hfv
    · split at hp
      · rename_i hroom
        rw [Option.some.injEq] at hp
        obtain rfl := congrArg Prod.snd hp
        have htotal := ho.2.total
        refine hs.suspends (hx fun c h => by cases h) ⟨ho.1, ?_⟩ (fun c h => by cases h) (fun e he => by cases he)
        rw [Room]
        omega
      · rw [Option.some.injEq] at hp
        obtain rfl := congrArg Prod.snd hp
        exact sound_raises hs (hx fun c h => by cases h) _
  | verify c =>
    rw [proceed, find_published h hh, Option.some.injEq] at hp
    obtain rfl := congrArg Prod.snd hp
    exact sound_verify h hh now rfl
  | enforceRetention =>
    rw [proceed] at hp
    split at hp
    · rw [Option.some.injEq] at hp
      obtain rfl := congrArg Prod.snd hp
      exact Settled.sound ⟨⟨hs.waiting, hs.paths, hs.entries, hs.references, hs.pinned⟩, hs.bounded⟩
        (hx fun c h => by cases h) rfl
    · rw [Option.some.injEq] at hp
      obtain rfl := congrArg Prod.snd hp
      exact hs.suspends (hx fun c h => by cases h) (evicting_eviction s _ _ hs.paths rfl) (fun c h => by cases h)
        (fun e he => by cases he)
  | retain w =>
    have hfree : ∀ e ∈ w.victim, ¬ s.Pinned e := fun e he => h.free e (by rw [victim, hh]; exact he)
    rw [proceed] at hp
    split at hp
    · rename_i v u hn
      rw [Option.some.injEq] at hp
      obtain rfl := congrArg Prod.snd hp
      obtain ⟨hv, hxv, hev, hfv, hmax, hle, -⟩ := hs.evictNext (hx fun c h => by cases h) ho hfree hn
      have hset : Settled digest v := ⟨hv, hmax ▸ hle.trans hs.bounded⟩
      exact hset.suspends hxv hev (fun c h => by cases h) hfv
    · rw [Option.some.injEq] at hp
      obtain rfl := congrArg Prod.snd hp
      exact Settled.sound ⟨⟨hs.waiting, hs.paths, hs.entries, hs.references, hs.pinned⟩, hs.bounded⟩
        (hx fun c h => by cases h) rfl
  | validateManifest c => cases hp
  | download c files => cases hp

theorem sound_fetch (h : Sound digest s) {o : Holder} (hh : s.holder = some o) {incoming : List Incoming} {ok : Bool}
    {a : Answer} (hp : s.fetch digest incoming ok o = some (a, t)) : Sound digest t := by
  have hs := h.toSettled
  have ho := h.holds o hh
  have hx (hv : ∀ c, o ≠ .verify c) : ∀ d, d ∈ s.directories ↔ s.Indexed d :=
    h.index_of fun c hc => hv c (Option.some.inj (hh.symm.trans hc))
  have hleft : Settled digest { s with incoming := incoming } :=
    ⟨⟨hs.waiting, hs.paths, hs.entries, hs.references, hs.pinned⟩, hs.bounded⟩
  cases o with
  | validateManifest c =>
    rw [fetch] at hp
    split at hp
    · rw [Option.some.injEq] at hp
      obtain rfl := congrArg Prod.snd hp
      exact hs.suspends (hx fun c h => by cases h) ho (fun c h => by cases h) (fun e he => by cases he)
    · rw [Option.some.injEq] at hp
      obtain rfl := congrArg Prod.snd hp
      exact sound_raises hs (hx fun c h => by cases h) _
  | download c files =>
    cases files with
    | cons f files =>
      rw [fetch] at hp
      split at hp
      · rw [Option.some.injEq] at hp
        obtain rfl := congrArg Prod.snd hp
        exact hleft.suspends (hx fun c h => by cases h) ⟨ho.1.congr rfl, ho.2.congr rfl rfl⟩ (fun c h => by cases h)
          (fun e he => by cases he)
      · rw [Option.some.injEq] at hp
        obtain rfl := congrArg Prod.snd hp
        exact sound_raises hleft (hx fun c h => by cases h) _
    | nil =>
      rw [fetch] at hp
      split at hp
      · rw [Option.some.injEq] at hp
        obtain rfl := congrArg Prod.snd hp
        exact sound_publish hs (hx fun c h => by cases h) ho.1 ho.2
      · rw [Option.some.injEq] at hp
        obtain rfl := congrArg Prod.snd hp
        exact sound_raises hs (hx fun c h => by cases h) _
  | prunePartialFiles c => cases hp
  | makeSpace c required => cases hp
  | evict c w => cases hp
  | verify c => cases hp
  | enforceRetention => cases hp
  | retain w => cases hp

end AdapterCache

end Aether
