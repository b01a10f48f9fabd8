import AetherRl.AdapterCacheRuns
import AetherRl.RepoResult
import Mathlib.Tactic
/-!
# AdapterDisk — the cache's directories when the worker dies

A policy directory comes to stand under `sha256/` whole, by a rename of a directory whose files were written and synced
in `incoming`.  It goes file by file: `shutil.rmtree` unlinks each file and then removes the directory, in `_make_space`
and in `enforce_retention`, the retention of a starting cache included.  A worker may die between any two of these
steps, and `AdapterCache.__init__` then finds the directories as they were left.  An empty digest directory holds no
policy, and is nothing to it.
-/
namespace Aether

namespace AdapterCache

/-! ## What stands on the disk -/

def adapterFileNames : List String := ["adapter_config.json", "adapter_model.safetensors"]

/-- `POLICY_FILE_NAMES`. -/
def policyFileNames : Finset String := {"adapter_config.json", "adapter_model.safetensors", "manifest.json"}

/-- A directory under `sha256/<digest>`, with the names of the files still in it. -/
structure PolicyDirectory extends AdapterDirectory where
  files : Finset String
deriving DecidableEq

structure Disk where
  policies : List PolicyDirectory
  incoming : List Incoming
deriving DecidableEq

/-- `re.fullmatch(r"[0-9a-f]{64}\.(adapter_config\.json|adapter_model\.safetensors)\.part", name)`. -/
def isPartName (name : String) : Bool :=
  decide ((name.toList.take 64).length = 64) &&
    (name.toList.take 64).all (fun c => ('0' ≤ c ∧ c ≤ '9') ∨ ('a' ≤ c ∧ c ≤ 'f')) &&
    decide (name.toList.drop 64 ∈ adapterFileNames.map fun a => ("." ++ a ++ ".part").toList)

/-- `_clean_incoming`: what stays in `incoming`. -/
def cleanIncoming (incoming : List Incoming) : List Incoming :=
  incoming.filter fun f => f.regular && isPartName f.name

/-- The directory `_scan_entries` reads, if every file it needs is there. -/
def readDirectory (p : PolicyDirectory) : Option AdapterDirectory :=
  if p.files = policyFileNames then some p.toAdapterDirectory else none

variable (digest : PolicyManifest → Digest)

/-- `AdapterCache.__init__` up to its retention, or the error it raises. -/
def scanned (maxBytes : Nat) (disk : Disk) : Option AdapterCache :=
  (disk.policies.mapM readDirectory).bind fun directories =>
    (scanEntries digest directories).map fun entries =>
      ⟨maxBytes, entries, directories, cleanIncoming disk.incoming, fun _ => 0, ∅, fun _ => 0, [], [], none⟩

/-- `AdapterCache(state, client, max_bytes=...)` over what an earlier run left. -/
def construct (maxBytes : Nat) (disk : Disk) : Option AdapterCache := (scanned digest maxBytes disk).map retainAll

/-! ## A worker that dies and starts -/

/-- The worker is down, its cache is in the retention of its start, or it is up.  `left` are the files left of the
directory that is being removed, once its removal has begun. -/
inductive Node
  | down (disk : Disk)
  | starting (s : AdapterCache) (w : Eviction) (left : Option (Finset String))
  | up (s : AdapterCache) (left : Option (Finset String))

namespace Node

inductive Event
  | cache (e : AdapterCache.Event)
  | retain
  | unlink (name : String)
  | crash (incoming : List Incoming)
  | restart (maxBytes : Nat)

/-- The files left of the directory that is being removed. -/
def left : Node → Option (Finset String)
  | .down _ => none
  | .starting _ _ left => left
  | .up _ left => left

/-- The entry whose directory is removed next. -/
def victim : Node → Option CachedPolicy
  | .down _ => none
  | .starting _ w _ => w.victim
  | .up s _ => s.victim

end Node

/-- The directories as they stand while `victim`'s has these files left. -/
def standing (directories : List AdapterDirectory) (victim : Option CachedPolicy) (left : Option (Finset String)) :
    List PolicyDirectory :=
  directories.map fun d =>
    ⟨d, if victim.any (fun e => decide (e.path = d.path)) then left.getD policyFileNames else policyFileNames⟩

/-- `shutil.rmtree` unlinks one more file of the victim's directory. -/
def unlink (victim : Option CachedPolicy) (left : Option (Finset String)) (name : String) :
    Option (Option (Finset String)) :=
  if victim.isSome ∧ name ∈ left.getD policyFileNames then some (some ((left.getD policyFileNames).erase name)) else none

/-- The holder is about to remove the directory of the entry it found free. -/
def Removes (s : AdapterCache) : Event → Prop
  | .proceed _ => s.victim.isSome
  | _ => False

instance (s : AdapterCache) : DecidablePred s.Removes := fun e => by cases e <;> unfold Removes <;> infer_instance

/-- A directory is removed once it is empty.  A crash leaves the directories as they stand, and in `incoming` what the
worker had got to. -/
def Node.step : Node → Node.Event → Option Node
  | .up s left, .cache e =>
    if s.Removes e then if left = some ∅ then (s.next digest e).map (.up · none) else none
    else (s.next digest e).map (.up · left)
  | .up s left, .unlink name => (unlink s.victim left name).map (.up s)
  | .up s left, .crash incoming => some (.down ⟨standing s.directories s.victim left, incoming⟩)
  | .starting s w left, .retain =>
    if w.victim.isSome ∧ left ≠ some ∅ then none
    else match s.evictNext w with
      | some (s, w) => some (.starting s w none)
      | none => some (.up s none)
  | .starting s w left, .unlink name => (unlink w.victim left name).map (.starting s w)
  | .starting s w left, .crash incoming => some (.down ⟨standing s.directories w.victim left, incoming⟩)
  | .down disk, .restart maxBytes =>
    (scanned digest maxBytes disk).map fun s =>
      if s.totalBytes ≤ s.maxBytes then .up s none else .starting s (s.eviction 0 0) none
  | _, _ => none

/-! ## Recovery -/

/-- **What a cache that starts over a disk holds.** -/
structure Restored (digest : PolicyManifest → Digest) (maxBytes : Nat) (disk : Disk) (s : AdapterCache) : Prop where
  sound : Sound digest s
  index : ∀ d, d ∈ s.directories ↔ s.Indexed d
  complete : ∀ d ∈ s.directories, d.path = path digest d.manifest ∧ d.manifest.adapter.isSome ∧
    ⟨d, policyFileNames⟩ ∈ disk.policies
  all : (disk.policies.map (·.manifest.adapterSize)).sum ≤ maxBytes →
    ∀ p ∈ disk.policies, s.Indexed p.toAdapterDirectory
  partials : ∀ f, f ∈ s.incoming ↔ f ∈ disk.incoming ∧ f.regular = true ∧ isPartName f.name = true

/-- Whatever its bound, a cache can be constructed over the disk. -/
def Recovers (disk : Disk) : Prop := ∀ maxBytes, ∃ s, construct digest maxBytes disk = some s ∧
  Restored digest maxBytes disk s

/-- The entry an answer hands to its caller. -/
def Answer.served : Answer → Option CachedPolicy
  | .ensured cached => cached
  | .pinned _ cached => cached
  | _ => none

/-- Whatever an event has the cache hand out is complete on the disk. -/
def Serves (s : AdapterCache) (left : Option (Finset String)) : Prop :=
  ∀ ev a t e, s.step digest ev = some (a, t) → a.served = some e →
    e ∈ t.cached ∧ ⟨⟨e.path, e.manifest⟩, policyFileNames⟩ ∈ standing t.directories t.victim left

/-- What is asked of the worker: down, that its cache can start again; up, that it serves complete policies only. -/
def Node.Recoverable : Node → Prop
  | .down disk => Recovers digest disk
  | .starting _ _ _ => True
  | .up s left => Serves digest s left

/-- No crash falls between the first unlink of a policy's directory and the end of its removal. -/
def Node.Whole (n : Node) : Node.Event → Prop
  | .crash _ => n.left = none
  | _ => True

instance (n : Node) : DecidablePred n.Whole := fun ev => by cases ev <;> unfold Node.Whole <;> infer_instance

variable {digest : PolicyManifest → Digest} {s t : AdapterCache} {w u : Eviction} {a : Answer} {ev : Event}
  {victim : Option CachedPolicy} {left : Option (Finset String)} {maxBytes : Nat} {disk : Disk}

/-! ## Partial files -/

/-- **A file a download resumes** has a name that a start keeps. -/
theorem isPartName_partName {f : AdapterFile} (hn : f.name ∈ adapterFileNames)
    (hd : Repo.digestMatches f.digest = true) : isPartName (partName f) = true := by
  rw [Repo.digestMatches, Bool.and_eq_true, digestShape, Bool.and_eq_true, decide_eq_true_eq, decide_eq_true_eq] at hd
  obtain ⟨⟨hlength, hshape⟩, hhex⟩ := hd
  have hlist : (f.digest.toList.drop 7).length = 64 := by
    rw [List.length_drop, String.length_toList, hlength]
  have hprefix : "sha256:".toList <+: f.digest.toList := hshape ▸ List.take_prefix 7 _
  have hname : (partName f).toList = f.digest.toList.drop 7 ++ ("." ++ f.name ++ ".part").toList := by
    rw [partName, removePrefix, if_pos hprefix]
    simp
  have htake : (partName f).toList.take 64 = f.digest.toList.drop 7 := by
    rw [hname, List.take_append_of_le_length hlist.ge, List.take_of_length_le hlist.le]
  have hdrop : (partName f).toList.drop 64 = ("." ++ f.name ++ ".part").toList := by
    rw [hname, List.drop_append_of_le_length hlist.ge, List.drop_eq_nil_of_le hlist.le, List.nil_append]
  rw [isPartName, htake, hdrop, decide_eq_true hlist, hhex, Bool.and_self, Bool.true_and, decide_eq_true_eq]
  exact List.mem_map.2 ⟨f.name, hn, rfl⟩

theorem mem_cleanIncoming {f : Incoming} {incoming : List Incoming} :
    f ∈ cleanIncoming incoming ↔ f ∈ incoming ∧ f.regular = true ∧ isPartName f.name = true := by
  rw [cleanIncoming, List.mem_filter, Bool.and_eq_true]

/-! ## What a start reads -/

/-- **A scan reads complete directories, and nothing else.** -/
theorem mapM_readDirectory : ∀ (ps : List PolicyDirectory) (ds : List AdapterDirectory),
    ps.mapM readDirectory = some ds ↔ ds = ps.map (·.toAdapterDirectory) ∧ ∀ p ∈ ps, p.files = policyFileNames
  | [], ds => by
    simp [List.mapM_nil, eq_comm]
  | p :: ps, ds => by
    rw [List.mapM_cons]
    simp only [Option.bind_eq_bind, Option.bind_eq_some_iff, Option.pure_def, Option.some.injEq, readDirectory,
      Option.ite_none_right_eq_some, mapM_readDirectory ps, List.forall_mem_cons, List.map_cons]
    constructor
    · rintro ⟨d, ⟨hp, rfl⟩, ds', ⟨rfl, hps⟩, rfl⟩
      exact ⟨rfl, hp, hps⟩
    · rintro ⟨rfl, hp, hps⟩
      exact ⟨_, ⟨hp, rfl⟩, _, ⟨rfl, hps⟩, rfl⟩

theorem scanEntries_of : ∀ {ds : List AdapterDirectory},
    (∀ d ∈ ds, d.path = path digest d.manifest ∧ d.manifest.adapter.isSome) →
      scanEntries digest ds = some (ds.map fun d => ⟨d.manifest, d.path, d.manifest.adapterSize⟩)
  | [], _ => rfl
  | d :: ds, h => by
    obtain ⟨⟨hp, ha⟩, htail⟩ := List.forall_mem_cons.1 h
    have ih := scanEntries_of htail
    rw [scanEntries] at ih ⊢
    rw [List.mapM_cons, ih, if_pos hp.symm, verify, if_pos ⟨ha, rfl⟩]
    rfl

/-- The retention of a start leaves `incoming` and the lock alone, and brings no directory. -/
theorem drain_keeps : ∀ (n : Nat) (s : AdapterCache) (w : Eviction),
    (s.drain n w).directories.Sublist s.directories ∧ (s.drain n w).incoming = s.incoming ∧
      (s.drain n w).holder = s.holder
  | 0, _, _ => ⟨List.Sublist.refl _, rfl, rfl⟩
  | n + 1, s, w => by
    rw [drain]
    split
    · exact ⟨List.Sublist.refl _, rfl, rfl⟩
    · rename_i t u hn
      obtain ⟨hd, hi, hh⟩ := drain_keeps n t u
      rcases evictNext_cases hn with ⟨e, -, rfl, -⟩ | ⟨rfl, -⟩
      · exact ⟨hd.trans List.filter_sublist, hi, hh⟩
      · exact ⟨hd, hi, hh⟩

theorem retainAll_keeps (s : AdapterCache) : s.retainAll.directories.Sublist s.directories ∧
    s.retainAll.incoming = s.incoming ∧ s.retainAll.holder = s.holder := by
  unfold retainAll
  split
  · exact ⟨List.Sublist.refl _, rfl, rfl⟩
  · exact drain_keeps _ s _

/-- Each directory stands alone under its manifest's path, and holds an adapter. -/
structure Stored (digest : PolicyManifest → Digest) (directories : List AdapterDirectory) : Prop where
  paths : (directories.map (·.path)).Nodup
  adapters : ∀ d ∈ directories, d.path = path digest d.manifest ∧ d.manifest.adapter.isSome

theorem Stored.sublist {ds ds' : List AdapterDirectory} (h : Stored digest ds) (hs : ds'.Sublist ds) :
    Stored digest ds' :=
  ⟨(hs.map _).nodup h.paths, fun d hd => h.adapters d (hs.subset hd)⟩

/-- **Where every directory is complete, the scan finds them all.** -/
theorem scanned_of (hst : Stored digest (disk.policies.map (·.toAdapterDirectory)))
    (hc : ∀ p ∈ disk.policies, p.files = policyFileNames) :
    scanned digest maxBytes disk = some ⟨maxBytes,
      disk.policies.map fun p => ⟨p.manifest, p.path, p.manifest.adapterSize⟩,
      disk.policies.map (·.toAdapterDirectory), cleanIncoming disk.incoming, fun _ => 0, ∅, fun _ => 0, [], [], none⟩ := by
  rw [scanned, (mapM_readDirectory _ _).2 ⟨rfl, hc⟩, Option.bind_some, scanEntries_of hst.adapters, Option.map_some,
    List.map_map]
  rfl

/-- **A directory that lacks a file prevents the start.** -/
theorem complete_of_scanned (h : scanned digest maxBytes disk = some s) :
    ∀ p ∈ disk.policies, p.files = policyFileNames := by
  rw [scanned, Option.bind_eq_some_iff] at h
  obtain ⟨ds, hds, -⟩ := h
  exact ((mapM_readDirectory _ _).1 hds).2

/-- What the scan found, before the retention of the start. -/
structure Scanned (digest : PolicyManifest → Digest) (maxBytes : Nat) (disk : Disk) (s : AdapterCache) : Prop where
  emptying : Emptying digest s (s.eviction 0 0)
  directories : s.directories = disk.policies.map (·.toAdapterDirectory)
  incoming : s.incoming = cleanIncoming disk.incoming
  maxBytes : s.maxBytes = maxBytes
  totalBytes : s.totalBytes = (disk.policies.map (·.manifest.adapterSize)).sum

theorem scanned_ok (hst : Stored digest (disk.policies.map (·.toAdapterDirectory)))
    (h : scanned digest maxBytes disk = some s) : Scanned digest maxBytes disk s := by
  rw [scanned, Option.bind_eq_some_iff] at h
  obtain ⟨ds, hds, h⟩ := h
  obtain ⟨rfl, -⟩ := (mapM_readDirectory _ _).1 hds
  rw [Option.map_eq_some_iff] at h
  obtain ⟨es, hes, rfl⟩ := h
  refine ⟨emptying_scanned hst.paths hes, rfl, rfl, rfl, ?_⟩
  rw [totalBytes, (scanEntries_ok hes).1, List.map_map, List.map_map]
  rfl

/-- **A cache starts over complete directories.** -/
theorem recovers_of_complete (hst : Stored digest (disk.policies.map (·.toAdapterDirectory)))
    (hc : ∀ p ∈ disk.policies, p.files = policyFileNames) : Recovers digest disk := by
  intro maxBytes
  obtain ⟨s, hs⟩ : ∃ s, scanned digest maxBytes disk = some s := ⟨_, scanned_of hst hc⟩
  have h := scanned_ok hst hs
  obtain ⟨hsub, hincoming, hholder⟩ := retainAll_keeps s
  rw [h.emptying.holder] at hholder
  have hsound := sound_retainAll h.emptying
  have hindex := hsound.index_of fun c hc => by
    rw [hholder] at hc
    cases hc
  refine ⟨s.retainAll, by rw [construct, hs, Option.map_some], hsound, hindex, fun d hd => ?_, fun hfits p hp => ?_,
    fun f => ?_⟩
  · have hd := hsub.subset hd
    rw [h.directories] at hd
    obtain ⟨p, hp, rfl⟩ := List.mem_map.1 hd
    obtain ⟨hpath, hadapter⟩ := hst.adapters _ (List.mem_map.2 ⟨p, hp, rfl⟩)
    exact ⟨hpath, hadapter, hc p hp ▸ hp⟩
  · have hall : s.retainAll = s := by
      rw [retainAll, if_pos (by rw [h.totalBytes, h.maxBytes]; exact hfits)]
    rw [← hindex, hall, h.directories]
    exact List.mem_map.2 ⟨p, hp, rfl⟩
  · rw [hincoming, h.incoming, mem_cleanIncoming]

/-- **A download goes on with the partial files an earlier run left.** -/
theorem Restored.resumes {f : AdapterFile} {i : Incoming} (h : Restored digest maxBytes disk s)
    (hn : f.name ∈ adapterFileNames) (hd : Repo.digestMatches f.digest = true) (hi : i ∈ disk.incoming)
    (hr : i.regular = true) (hname : i.name = partName f) : i ∈ s.incoming :=
  (h.partials i).2 ⟨hi, hr, hname ▸ isPartName_partName hn hd⟩

/-! ## What an event does to the directories -/

theorem directories_returns (s : AdapterCache) (c : Call) (e : CachedPolicy) (now : Time) :
    (s.returns c e now).2.directories = s.directories := by
  unfold returns
  dsimp only
  split <;> rfl

theorem directories_evictNext (hn : s.evictNext w = some (t, u)) : t.directories.Sublist s.directories := by
  rcases evictNext_cases hn with ⟨e, -, rfl, -⟩ | ⟨rfl, -⟩
  · exact List.filter_sublist
  · exact List.Sublist.refl _

theorem directories_proceed {o : Holder} {now : Time} (hp : s.proceed digest now o = some (a, t)) :
    t.directories.Sublist s.directories := by
  cases o with
  | evict c w =>
    rw [proceed] at hp
    split at hp
    · rename_i hn
      have hsub := directories_evictNext hn
      obtain rfl := congrArg Prod.snd (Option.some.inj hp)
      exact hsub
    · split at hp
      · obtain ⟨rfl, rfl⟩ := Prod.mk.inj (Option.some.inj hp)
        exact List.Sublist.refl _
      · obtain ⟨rfl, rfl⟩ := Prod.mk.inj (Option.some.inj hp)
        exact List.Sublist.refl _
  | retain w =>
    rw [proceed] at hp
    split at hp
    · rename_i hn
      have hsub := directories_evictNext hn
      obtain rfl := congrArg Prod.snd (Option.some.inj hp)
      exact hsub
    · obtain ⟨rfl, rfl⟩ := Prod.mk.inj (Option.some.inj hp)
      exact List.Sublist.refl _
  | verify c =>
    rw [proceed] at hp
    split at hp
    · rename_i e _
      obtain rfl := congrArg Prod.snd (Option.some.inj hp)
      rw [directories_returns]
      exact List.Sublist.refl _
    · obtain ⟨rfl, rfl⟩ := Prod.mk.inj (Option.some.inj hp)
      exact List.Sublist.refl _
  | enforceRetention =>
    rw [proceed] at hp
    split at hp
    · obtain ⟨rfl, rfl⟩ := Prod.mk.inj (Option.some.inj hp)
      exact List.Sublist.refl _
    · obtain ⟨rfl, rfl⟩ := Prod.mk.inj (Option.some.inj hp)
      exact List.Sublist.refl _
  | prunePartialFiles c =>
    obtain ⟨rfl, rfl⟩ := Prod.mk.inj (Option.some.inj hp)
    exact List.Sublist.refl _
  | makeSpace c required =>
    obtain ⟨rfl, rfl⟩ := Prod.mk.inj (Option.some.inj hp)
    exact List.Sublist.refl _
  | validateManifest c => cases hp
  | download c files => cases hp

/-- **What comes from outside publishes a new adapter**, or leaves the directories alone. -/
theorem directories_fetch (h : Sound digest s) {o : Holder} (hh : s.holder = some o) {incoming : List Incoming}
    {ok : Bool} (hp : s.fetch digest incoming ok o = some (a, t)) :
    t.directories = s.directories ∨
      ∃ c, New digest s c ∧ t.directories = ⟨path digest c.manifest, c.manifest⟩ :: s.directories := by
  unfold fetch at hp
  split at hp
  · split at hp <;> (obtain ⟨rfl, rfl⟩ := Prod.mk.inj (Option.some.inj hp); exact Or.inl rfl)
  · split at hp <;> (obtain ⟨rfl, rfl⟩ := Prod.mk.inj (Option.some.inj hp); exact Or.inl rfl)
  · rename_i c
    split at hp
    · obtain ⟨rfl, rfl⟩ := Prod.mk.inj (Option.some.inj hp)
      obtain ⟨hnew, -⟩ := h.holds _ hh
      refine Or.inr ⟨c, hnew, ?_⟩
      change (s.publishDirectory digest c.manifest).directories = _
      rw [publishDirectory, if_neg]
      rintro ⟨d, hd, hp⟩
      exact hnew.fresh d hd hp
    · obtain ⟨rfl, rfl⟩ := Prod.mk.inj (Option.some.inj hp)
      exact Or.inl rfl
  · cases hp

/-- An event of no holder leaves the lock and the directories alone. -/
theorem keeps_others (hs : s.step digest ev = some (a, t)) (hev : ev.ofHolder = false) :
    t.holder = s.holder ∧ t.directories = s.directories := by
  have hcall (c : Call) (now : Time) : (s.call c now).2.holder = s.holder ∧
      (s.call c now).2.directories = s.directories := by
    unfold call
    split
    · split <;> exact ⟨rfl, rfl⟩
    · split <;> exact ⟨rfl, rfl⟩
  cases ev with
  | ensure m now =>
    obtain rfl := congrArg Prod.snd (Option.some.inj hs)
    exact hcall ⟨m, false⟩ now
  | pin m now =>
    obtain rfl := congrArg Prod.snd (Option.some.inj hs)
    exact hcall ⟨m, true⟩ now
  | unpin m now =>
    rw [step, Option.ite_none_right_eq_some] at hs
    obtain rfl := congrArg Prod.snd (Option.some.inj hs.2)
    exact ⟨rfl, rfl⟩
  | markLoaded p now =>
    obtain rfl := congrArg Prod.snd (Option.some.inj hs)
    exact ⟨rfl, rfl⟩
  | markUnloaded p =>
    obtain rfl := congrArg Prod.snd (Option.some.inj hs)
    exact ⟨rfl, rfl⟩
  | lock r now => cases hev
  | proceed now => cases hev
  | fetch incoming ok => cases hev

/-- **An event removes directories, or publishes a new one.** -/
theorem directories_step (h : Sound digest s) (hs : s.step digest ev = some (a, t)) :
    t.directories.Sublist s.directories ∨
      ∃ c, New digest s c ∧ t.directories = ⟨path digest c.manifest, c.manifest⟩ :: s.directories := by
  cases hev : ev.ofHolder with
  | false => exact Or.inl ((keeps_others hs hev).2 ▸ List.Sublist.refl _)
  | true =>
    cases ev with
    | lock r now =>
      rw [step, Option.ite_none_right_eq_some] at hs
      obtain ⟨-, hs⟩ := hs
      cases r with
      | ensure c =>
        obtain rfl := congrArg Prod.snd (Option.some.inj hs)
        left
        unfold ensureLocked
        split
        · split
          · rw [directories_returns]
          · exact List.Sublist.refl _
        · exact List.Sublist.refl _
      | retention =>
        obtain rfl := congrArg Prod.snd (Option.some.inj hs)
        exact Or.inl (List.Sublist.refl _)
    | proceed now =>
      rw [step, Option.bind_eq_some_iff] at hs
      obtain ⟨o, -, hs⟩ := hs
      exact Or.inl (directories_proceed hs)
    | fetch incoming ok =>
      rw [step, Option.bind_eq_some_iff] at hs
      obtain ⟨o, ho, hs⟩ := hs
      rcases directories_fetch h ho hs with hkeep | hnew
      · exact Or.inl (hkeep ▸ List.Sublist.refl _)
      · exact Or.inr hnew
    | ensure m now => cases hev
    | pin m now => cases hev
    | unpin m now => cases hev
    | markLoaded p now => cases hev
    | markUnloaded p => cases hev

theorem stored_step (h : Sound digest s) (hst : Stored digest s.directories) (hs : s.step digest ev = some (a, t)) :
    Stored digest t.directories := by
  rcases directories_step h hs with hsub | ⟨c, hnew, hcons⟩
  · exact hst.sublist hsub
  · rw [hcons]
    refine ⟨List.nodup_cons.2 ⟨fun hmem => ?_, hst.paths⟩, fun d hd => ?_⟩
    · obtain ⟨d, hd, hp⟩ := List.mem_map.1 hmem
      exact hnew.fresh d hd hp
    · rcases List.mem_cons.1 hd with rfl | hd
      · exact ⟨rfl, hnew.adapter⟩
      · exact hst.adapters d hd

/-- **While a directory is being removed**, no other event touches its entry. -/
theorem victim_step (hs : s.step digest ev = some (a, t)) (hv : s.victim.isSome) (hr : ¬ s.Removes ev) :
    t.victim = s.victim := by
  cases hev : ev.ofHolder with
  | false => rw [victim, victim, (keeps_others hs hev).1]
  | true =>
    cases ev with
    | lock r now =>
      rw [step, Option.ite_none_right_eq_some] at hs
      rw [victim, hs.1.1] at hv
      cases hv
    | proceed now => exact absurd hv hr
    | fetch incoming ok =>
      rw [step, Option.bind_eq_some_iff] at hs
      obtain ⟨o, ho, hs⟩ := hs
      rw [victim, ho] at hv
      cases o with
      | evict c w => cases hs
      | retain w => cases hs
      | prunePartialFiles c => cases hs
      | makeSpace c required => cases hs
      | verify c => cases hs
      | enforceRetention => cases hs
      | validateManifest c => cases hv
      | download c files => cases hv
    | ensure m now => cases hev
    | pin m now => cases hev
    | unpin m now => cases hev
    | markLoaded p now => cases hev
    | markUnloaded p => cases hev

/-! ## What is served -/

theorem served_returns (s : AdapterCache) (c : Call) (e : CachedPolicy) (now : Time) :
    (s.returns c e now).1.served = some e ∧ (s.returns c e now).2.cached = s.cached := by
  unfold returns
  dsimp only
  split <;> exact ⟨rfl, rfl⟩

theorem served_proceed (h : Sound digest s) {o : Holder} (hh : s.holder = some o) {now : Time}
    (hp : s.proceed digest now o = some (a, t)) {e : CachedPolicy} (he : a.served = some e) :
    e ∈ t.cached ∧ s.victim = none := by
  cases o with
  | verify c =>
    rw [proceed, find_published h hh, Option.some.injEq] at hp
    obtain ⟨hserved, hcached⟩ := served_returns
      (s.put ⟨c.manifest, path digest c.manifest, c.manifest.adapterSize⟩) c
      ⟨c.manifest, path digest c.manifest, c.manifest.adapterSize⟩ now
    rw [hp] at hserved hcached
    obtain ⟨-, hfresh, -⟩ := h.holds _ hh
    obtain rfl := Option.some.inj (hserved.symm.trans he)
    rw [hcached, put_fresh hfresh]
    exact ⟨List.mem_append_right _ (List.mem_singleton_self _), by rw [victim, hh]⟩
  | evict c w =>
    rw [proceed] at hp
    split at hp
    · obtain ⟨rfl, rfl⟩ := Prod.mk.inj (Option.some.inj hp)
      cases he
    · split at hp <;> (obtain ⟨rfl, rfl⟩ := Prod.mk.inj (Option.some.inj hp); cases he)
  | retain w =>
    rw [proceed] at hp
    split at hp <;> (obtain ⟨rfl, rfl⟩ := Prod.mk.inj (Option.some.inj hp); cases he)
  | enforceRetention =>
    rw [proceed] at hp
    split at hp <;> (obtain ⟨rfl, rfl⟩ := Prod.mk.inj (Option.some.inj hp); cases he)
  | prunePartialFiles c =>
    obtain ⟨rfl, rfl⟩ := Prod.mk.inj (Option.some.inj hp)
    cases he
  | makeSpace c required =>
    obtain ⟨rfl, rfl⟩ := Prod.mk.inj (Option.some.inj hp)
    cases he
  | validateManifest c => cases hp
  | download c files => cases hp

theorem served_fetch {o : Holder} {incoming : List Incoming} {ok : Bool}
    (hp : s.fetch digest incoming ok o = some (a, t)) : a.served = none := by
  unfold fetch at hp
  split at hp
  · split at hp <;> (obtain ⟨rfl, rfl⟩ := Prod.mk.inj (Option.some.inj hp); rfl)
  · split at hp <;> (obtain ⟨rfl, rfl⟩ := Prod.mk.inj (Option.some.inj hp); rfl)
  · split at hp <;> (obtain ⟨rfl, rfl⟩ := Prod.mk.inj (Option.some.inj hp); rfl)
  · cases hp

theorem served_call (s : AdapterCache) (c : Call) (now : Time) : (s.call c now).1.served = none := by
  unfold call
  split
  · split <;> rfl
  · split <;> rfl

/-- **An entry is served from the index**, while no directory is being removed. -/
theorem served_step (h : Sound digest s) (hs : s.step digest ev = some (a, t)) {e : CachedPolicy}
    (he : a.served = some e) : e ∈ t.cached ∧ s.victim = none := by
  cases ev with
  | ensure m now =>
    obtain rfl := congrArg Prod.fst (Option.some.inj hs)
    rw [served_call] at he
    cases he
  | pin m now =>
    obtain rfl := congrArg Prod.fst (Option.some.inj hs)
    rw [served_call] at he
    cases he
  | unpin m now =>
    rw [step, Option.ite_none_right_eq_some] at hs
    obtain rfl := congrArg Prod.fst (Option.some.inj hs.2)
    cases he
  | markLoaded p now =>
    obtain rfl := congrArg Prod.fst (Option.some.inj hs)
    cases he
  | markUnloaded p =>
    obtain rfl := congrArg Prod.fst (Option.some.inj hs)
    cases he
  | lock r now =>
    rw [step, Option.ite_none_right_eq_some] at hs
    obtain ⟨⟨hh, -⟩, hs⟩ := hs
    cases r with
    | ensure c =>
      have heq : ensureLocked digest { s with waiting := s.waiting.erase (.ensure c) } c now = (a, t) :=
        Option.some.inj hs
      unfold ensureLocked at heq
      split at heq
      · split at heq
        · rename_i found hfound
          obtain ⟨hserved, hcached⟩ := served_returns
            { s with waiting := s.waiting.erase (.ensure c) } c found now
          rw [heq] at hserved hcached
          obtain rfl := Option.some.inj (hserved.symm.trans he)
          rw [hcached]
          exact ⟨List.mem_of_find?_eq_some hfound, by rw [victim, hh]⟩
        · obtain rfl := (Prod.mk.inj heq).1
          cases he
      · obtain rfl := (Prod.mk.inj heq).1
        cases he
    | retention =>
      obtain rfl := congrArg Prod.fst (Option.some.inj hs)
      cases he
  | proceed now =>
    rw [step, Option.bind_eq_some_iff] at hs
    obtain ⟨o, ho, hs⟩ := hs
    exact served_proceed h ho hs he
  | fetch incoming ok =>
    rw [step, Option.bind_eq_some_iff] at hs
    obtain ⟨o, -, hs⟩ := hs
    rw [served_fetch hs] at he
    cases he

/-- A removal that has begun is of the victim's directory, which lacks a file. -/
def Tearing (victim : Option CachedPolicy) (left : Option (Finset String)) : Prop :=
  ∀ l ∈ left, victim.isSome ∧ l ⊂ policyFileNames

theorem tearing_none (victim : Option CachedPolicy) : Tearing victim none := fun _ h => by cases h

theorem standing_whole (ds : List AdapterDirectory) (victim : Option CachedPolicy) :
    standing ds victim none = ds.map fun d => ⟨d, policyFileNames⟩ := by
  unfold standing
  congr 1
  funext d
  rw [Option.getD_none, ite_self]

/-- **A policy whose directory is being removed is not served.** -/
theorem serves_of (h : Sound digest s) (ht : Tearing s.victim left) : Serves digest s left := by
  intro ev a t e hs he
  obtain ⟨hcached, hvictim⟩ := served_step h hs he
  obtain rfl : left = none := by
    cases left with
    | none => rfl
    | some l =>
      have hsome := (ht l rfl).1
      rw [hvictim] at hsome
      cases hsome
  refine ⟨hcached, ?_⟩
  rw [standing_whole]
  exact List.mem_map.2 ⟨_, ((sound_step h hs).index ⟨e.path, e.manifest⟩).2 (Or.inl ⟨e, hcached, rfl, rfl⟩), rfl⟩

/-! ## Crashes -/

theorem Tearing.unlink (h : Tearing victim left) {name : String} {left' : Option (Finset String)}
    (hu : AdapterCache.unlink victim left name = some left') : Tearing victim left' := by
  rw [AdapterCache.unlink, Option.ite_none_right_eq_some] at hu
  obtain ⟨⟨hv, hname⟩, hu⟩ := hu
  obtain rfl := Option.some.inj hu
  intro l hl
  obtain rfl := Option.some.inj hl
  refine ⟨hv, (Finset.erase_ssubset hname).trans_subset ?_⟩
  cases hleft : left with
  | none => exact subset_rfl
  | some l => exact (h l hleft).2.subset

theorem map_standing (ds : List AdapterDirectory) (victim : Option CachedPolicy) (left : Option (Finset String)) :
    (standing ds victim left).map (·.toAdapterDirectory) = ds := by
  rw [standing, List.map_map]
  exact List.map_id ds

/-- **What a crash leaves can be started from** exactly when no directory is half removed. -/
theorem recovers_standing_iff {ds : List AdapterDirectory} {incoming : List Incoming} (hst : Stored digest ds)
    (ht : Tearing victim left) (hd : ∀ e ∈ victim, ∃ d ∈ ds, d.path = e.path) :
    Recovers digest ⟨standing ds victim left, incoming⟩ ↔ left = none := by
  constructor
  · intro hrecovers
    by_contra hleft
    obtain ⟨l, rfl⟩ := Option.ne_none_iff_exists'.1 hleft
    obtain ⟨hsome, hl⟩ := ht l rfl
    obtain ⟨e, rfl⟩ := Option.isSome_iff_exists.1 hsome
    obtain ⟨d, hds, hp⟩ := hd e rfl
    obtain ⟨s, hs, -⟩ := hrecovers 0
    rw [construct, Option.map_eq_some_iff] at hs
    obtain ⟨s, hs, -⟩ := hs
    have hfiles := complete_of_scanned hs _ (List.mem_map.2 ⟨d, hds, rfl⟩)
    dsimp only at hfiles
    rw [Option.any_some, decide_eq_true hp.symm, if_pos rfl, Option.getD_some] at hfiles
    exact hl.ne hfiles
  · rintro rfl
    apply recovers_of_complete
    · rw [map_standing]
      exact hst
    · intro p hp
      rw [standing_whole] at hp
      obtain ⟨d, -, rfl⟩ := List.mem_map.1 hp
      rfl

/-- What holds of the worker whatever happens: a directory that is being removed is one of the cache's, and the
directories lie where they belong. -/
def Node.Consistent (digest : PolicyManifest → Digest) : Node → Prop
  | .down disk => Stored digest (disk.policies.map (·.toAdapterDirectory))
  | .starting s w left => Emptying digest s w ∧ Stored digest s.directories ∧ Tearing w.victim left
  | .up s left => Sound digest s ∧ Stored digest s.directories ∧ Tearing s.victim left

theorem Emptying.stands (h : Emptying digest s w) : ∀ e ∈ w.victim, ∃ d ∈ s.directories, d.path = e.path := by
  intro e he
  have hmem := h.evicting.mem e (List.mem_append_left _ (Option.mem_toList.2 he))
  exact ⟨⟨e.path, e.manifest⟩, (h.index _).2 ⟨e, hmem, rfl, rfl⟩, rfl⟩

theorem Sound.stands (h : Sound digest s) : ∀ e ∈ s.victim, ∃ d ∈ s.directories, d.path = e.path := by
  intro e he
  exact ⟨⟨e.path, e.manifest⟩, (h.index _).2 (Or.inl ⟨e, h.victim_mem he, rfl, rfl⟩), rfl⟩

/-- **Every event keeps the worker consistent.** -/
theorem consistent_step {n m : Node} {ev : Node.Event} (h : n.Consistent digest) (hs : n.step digest ev = some m) :
    m.Consistent digest := by
  cases n with
  | down disk =>
    cases ev with
    | restart maxBytes =>
      rw [Node.step, Option.map_eq_some_iff] at hs
      obtain ⟨s, hs, rfl⟩ := hs
      have hscan := scanned_ok h hs
      have hst : Stored digest s.directories := hscan.directories ▸ h
      split
      · rename_i hb
        exact ⟨hscan.emptying.sound hb, hst, tearing_none _⟩
      · exact ⟨hscan.emptying, hst, tearing_none _⟩
    | cache e => cases hs
    | retain => cases hs
    | unlink name => cases hs
    | crash incoming => cases hs
  | starting s w left =>
    obtain ⟨hemptying, hst, htear⟩ := h
    cases ev with
    | retain =>
      rw [Node.step, Option.ite_none_left_eq_some] at hs
      obtain ⟨-, hs⟩ := hs
      split at hs
      · rename_i hn
        obtain rfl := Option.some.inj hs
        exact ⟨hemptying.next hn, hst.sublist (directories_evictNext hn), tearing_none _⟩
      · rename_i hn
        obtain rfl := Option.some.inj hs
        exact ⟨hemptying.sound (hemptying.bounded hn), hst, tearing_none _⟩
    | unlink name =>
      rw [Node.step, Option.map_eq_some_iff] at hs
      obtain ⟨left', hu, rfl⟩ := hs
      exact ⟨hemptying, hst, htear.unlink hu⟩
    | crash incoming =>
      obtain rfl := Option.some.inj hs
      change Stored digest ((standing s.directories w.victim left).map (·.toAdapterDirectory))
      rw [map_standing]
      exact hst
    | cache e => cases hs
    | restart maxBytes => cases hs
  | up s left =>
    obtain ⟨hsound, hst, htear⟩ := h
    cases ev with
    | cache e =>
      rw [Node.step] at hs
      split at hs
      · rw [Option.ite_none_right_eq_some, Option.map_eq_some_iff] at hs
        obtain ⟨-, t, hn, rfl⟩ := hs
        obtain ⟨a, hs⟩ := step_of_next hn
        exact ⟨sound_step hsound hs, stored_step hsound hst hs, tearing_none _⟩
      · rename_i hremoves
        rw [Option.map_eq_some_iff] at hs
        obtain ⟨t, hn, rfl⟩ := hs
        obtain ⟨a, hs⟩ := step_of_next hn
        refine ⟨sound_step hsound hs, stored_step hsound hst hs, fun l hl => ?_⟩
        obtain ⟨hv, hfiles⟩ := htear l hl
        exact ⟨victim_step hs hv hremoves ▸ hv, hfiles⟩
    | unlink name =>
      rw [Node.step, Option.map_eq_some_iff] at hs
      obtain ⟨left', hu, rfl⟩ := hs
      exact ⟨hsound, hst, htear.unlink hu⟩
    | crash incoming =>
      obtain rfl := Option.some.inj hs
      change Stored digest ((standing s.directories s.victim left).map (·.toAdapterDirectory))
      rw [map_standing]
      exact hst
    | retain => cases hs
    | restart maxBytes => cases hs

/-- A worker goes down by a crash alone. -/
theorem crash_of_down {n : Node} {ev : Node.Event} (hs : n.step digest ev = some (.down disk)) :
    ∃ incoming, ev = .crash incoming := by
  cases ev with
  | crash incoming => exact ⟨incoming, rfl⟩
  | cache e =>
    cases n with
    | up s left =>
      rw [Node.step] at hs
      split at hs
      · rw [Option.ite_none_right_eq_some, Option.map_eq_some_iff] at hs
        obtain ⟨-, t, -, hs⟩ := hs
        cases hs
      · rw [Option.map_eq_some_iff] at hs
        obtain ⟨t, -, hs⟩ := hs
        cases hs
    | down disk => cases hs
    | starting s w left => cases hs
  | retain =>
    cases n with
    | starting s w left =>
      rw [Node.step, Option.ite_none_left_eq_some] at hs
      obtain ⟨-, hs⟩ := hs
      split at hs <;> cases hs
    | down disk => cases hs
    | up s left => cases hs
  | unlink name =>
    cases n with
    | down disk => cases hs
    | starting s w left =>
      rw [Node.step, Option.map_eq_some_iff] at hs
      obtain ⟨left', -, hs⟩ := hs
      cases hs
    | up s left =>
      rw [Node.step, Option.map_eq_some_iff] at hs
      obtain ⟨left', -, hs⟩ := hs
      cases hs
  | restart maxBytes =>
    cases n with
    | down disk =>
      rw [Node.step, Option.map_eq_some_iff] at hs
      obtain ⟨s, -, hs⟩ := hs
      split at hs <;> cases hs
    | starting s w left => cases hs
    | up s left => cases hs

/-- **A step leads to a worker that can recover** exactly when it is no crash in the middle of a removal. -/
theorem whole_iff {n m : Node} {ev : Node.Event} (h : n.Consistent digest) (hs : n.step digest ev = some m) :
    n.Whole ev ↔ m.Recoverable digest := by
  by_cases hcrash : ∃ incoming, ev = .crash incoming
  · obtain ⟨incoming, rfl⟩ := hcrash
    cases n with
    | down disk => cases hs
    | starting s w left =>
      obtain ⟨hemptying, hst, htear⟩ := h
      obtain rfl := Option.some.inj hs
      exact (recovers_standing_iff hst htear hemptying.stands).symm
    | up s left =>
      obtain ⟨hsound, hst, htear⟩ := h
      obtain rfl := Option.some.inj hs
      exact (recovers_standing_iff hst htear hsound.stands).symm
  · have hwhole : n.Whole ev := by
      cases ev with
      | crash incoming => exact absurd ⟨incoming, rfl⟩ hcrash
      | _ => trivial
    refine iff_of_true hwhole ?_
    have hm := consistent_step h hs
    cases m with
    | down disk => exact absurd (crash_of_down hs) hcrash
    | starting s w left => trivial
    | up s left => exact serves_of hm.1 hm.2.2

/-! ## A start, step by step -/

/-- The events that remove the directory of an entry found free. -/
def removal : List Node.Event :=
  [.unlink "adapter_config.json", .unlink "adapter_model.safetensors", .unlink "manifest.json", .retain]

theorem run_removal {e : CachedPolicy} (hv : w.victim = some e) (hn : s.evictNext w = some (t, u)) :
    Machine.run (Node.step digest) (.starting s w none) removal = some (.starting t u none) := by
  have hfiles : ((policyFileNames.erase "adapter_config.json").erase "adapter_model.safetensors").erase
      "manifest.json" = ∅ := by decide
  have h₁ : unlink w.victim none "adapter_config.json" = some (some (policyFileNames.erase "adapter_config.json")) := by
    rw [unlink, if_pos ⟨by rw [hv]; rfl, by decide⟩, Option.getD_none]
  have h₂ : unlink w.victim (some (policyFileNames.erase "adapter_config.json")) "adapter_model.safetensors" =
      some (some ((policyFileNames.erase "adapter_config.json").erase "adapter_model.safetensors")) := by
    rw [unlink, if_pos ⟨by rw [hv]; rfl, by decide⟩, Option.getD_some]
  have h₃ : unlink w.victim (some ((policyFileNames.erase "adapter_config.json").erase "adapter_model.safetensors"))
      "manifest.json" = some (some ∅) := by
    rw [unlink, if_pos ⟨by rw [hv]; rfl, by decide⟩, Option.getD_some, hfiles]
  simp only [removal, Machine.run, Node.step, h₁, h₂, h₃, hn, Option.map_some, Option.bind_some, ne_eq,
    not_true_eq_false, and_false, if_false]

theorem run_retain (hv : w.victim = none) (hn : s.evictNext w = some (t, u)) :
    Machine.run (Node.step digest) (.starting s w none) [.retain] = some (.starting t u none) := by
  simp only [Machine.run, Node.step, hv, hn, Option.isSome_none, Bool.false_eq_true, false_and, if_false,
    Option.bind_some]

theorem run_drain : ∀ (n : Nat) (s : AdapterCache) (w : Eviction), w.steps ≤ n →
    ∃ evs, (∀ ev ∈ evs, ∀ incoming, ev ≠ .crash incoming) ∧
      Machine.run (Node.step digest) (.starting s w none) evs = some (.up (s.drain n w) none)
  | n, s, w, hw => by
    cases hn : s.evictNext w with
    | none =>
      have hv : w.victim = none := by
        cases hv : w.victim with
        | none => rfl
        | some e =>
          rw [evictNext, hv] at hn
          cases hn
      have hdrain : s.drain n w = s := by
        cases n with
        | zero => rfl
        | succ n => rw [drain, hn]
      refine ⟨[.retain], fun ev hev incoming h => ?_, ?_⟩
      · rw [List.mem_singleton.1 hev] at h
        cases h
      · simp only [Machine.run, Node.step, hv, hn, hdrain, Option.isSome_none, Bool.false_eq_true, false_and, if_false,
          Option.bind_some]
    | some p =>
      obtain ⟨t, u⟩ := p
      have hlt := steps_evictNext hn
      cases n with
      | zero => omega
      | succ n =>
        obtain ⟨evs, hcrash, hrun⟩ := run_drain n t u (by omega)
        have hdrain : s.drain (n + 1) w = t.drain n u := by rw [drain, hn]
        rw [hdrain]
        cases hv : w.victim with
        | none =>
          refine ⟨[.retain] ++ evs, fun ev hev => ?_, ?_⟩
          · rcases List.mem_append.1 hev with hev | hev
            · rw [List.mem_singleton.1 hev]
              exact fun incoming h => by cases h
            · exact hcrash ev hev
          · rw [Machine.run_append, run_retain hv hn, Option.bind_some, hrun]
        | some e =>
          refine ⟨removal ++ evs, fun ev hev => ?_, ?_⟩
          · rcases List.mem_append.1 hev with hev | hev
            · simp only [removal, List.mem_cons, List.not_mem_nil, or_false] at hev
              rcases hev with rfl | rfl | rfl | rfl <;> exact fun incoming h => by cases h
            · exact hcrash ev hev
          · rw [Machine.run_append, run_removal hv hn, Option.bind_some, hrun]

/-- **The constructor is the start of the worker**, with nothing in between. -/
theorem run_construct (h : construct digest maxBytes disk = some t) :
    ∃ evs, (∀ ev ∈ evs, ∀ incoming, ev ≠ .crash incoming) ∧
      Machine.run (Node.step digest) (.down disk) (.restart maxBytes :: evs) = some (.up t none) := by
  rw [construct, Option.map_eq_some_iff] at h
  obtain ⟨s, hs, rfl⟩ := h
  unfold retainAll
  split
  · rename_i hb
    refine ⟨[], fun ev hev => (by cases hev), ?_⟩
    simp only [Machine.run, Node.step, hs, Option.map_some, if_pos hb, Option.bind_some]
  · rename_i hb
    obtain ⟨evs, hcrash, hrun⟩ := @run_drain digest (2 * s.cached.length) s (s.eviction 0 0)
      (steps_eviction s 0 0).le
    refine ⟨evs, hcrash, ?_⟩
    rw [Machine.run, Node.step, hs, Option.map_some, if_neg hb, Option.bind_some, hrun]

/-! ## Whole runs -/

/-- **A cache recovers from the crashes of a run exactly when none of them falls in the middle of a removal.** -/
theorem crash_recovers_iff (digest : PolicyManifest → Digest) (evs : List Node.Event) (n : Node)
    (hr : Machine.run (Node.step digest) (.down ⟨[], []⟩) evs = some n) :
    Machine.Meets (Node.step digest) Node.Whole (.down ⟨[], []⟩) evs ↔
      ∀ es, es <+: evs → ∀ m, Machine.run (Node.step digest) (.down ⟨[], []⟩) es = some m → m.Recoverable digest := by
  have hst : Stored digest [] := ⟨List.nodup_nil, fun d hd => by cases hd⟩
  exact Machine.meets_iff (fun _ _ _ => consistent_step) (fun _ _ _ h _ => whole_iff h) evs (.down ⟨[], []⟩) hst
    (recovers_of_complete hst fun p hp => by cases hp) n hr

namespace Sample

/-- A download, its verification and publication. -/
def publishes (now : Time) : List Node.Event :=
  [.cache (.fetch [] true), .cache (.fetch [⟨"c", true, 2⟩] true), .cache (.fetch [] true), .cache (.fetch [] true),
    .cache (.proceed now)]

/-- A call takes the lock, prunes and makes space. -/
def makesSpace (m : WorkerPolicy) (now : Time) : List Node.Event :=
  [.cache (.ensure m now), .cache (.lock (.ensure ⟨m, false⟩) now), .cache (.proceed now), .cache (.proceed now),
    .cache (.proceed now)]

/-- The first adapter has to go for the second, and one of its files is gone. -/
def evicting : List Node.Event :=
  .restart 5 :: makesSpace first 1 ++ publishes 1 ++ makesSpace second 2 ++ [.unlink "manifest.json"]

/-- It goes, the second one comes, and the worker dies and starts. -/
def restarted : List Node.Event :=
  evicting ++ [.unlink "adapter_config.json", .unlink "adapter_model.safetensors", .cache (.proceed 2),
    .cache (.proceed 2)] ++ publishes 2 ++ [.crash [⟨"c", true, 2⟩], .restart 5]

/-- The index of a worker that is up. -/
def versions : Node → Option (List Nat)
  | .up s none => some (s.cached.map (·.manifest.policyVersion))
  | _ => none

end Sample

/-- A run in which a worker restarts after an eviction, and recovers wherever it stands. -/
theorem crash_recovers_restarted : ∃ n, Machine.run (Node.step (·.policyId)) (.down ⟨[], []⟩) Sample.restarted = some n ∧
    Sample.versions n = some [2] ∧
      ∀ es, es <+: Sample.restarted →
        ∀ m, Machine.run (Node.step (·.policyId)) (.down ⟨[], []⟩) es = some m → m.Recoverable (·.policyId) := by
  have hrun : (Machine.run (Node.step (·.policyId)) (.down ⟨[], []⟩) Sample.restarted).bind Sample.versions =
      some [2] := by decide +kernel
  have hwhole : Machine.Meets (Node.step (·.policyId)) Node.Whole (.down ⟨[], []⟩) Sample.restarted := by
    decide +kernel
  rw [Option.bind_eq_some_iff] at hrun
  obtain ⟨n, hr, hversions⟩ := hrun
  exact ⟨n, hr, hversions, (crash_recovers_iff (·.policyId) Sample.restarted n hr).1 hwhole⟩

/-- **A worker that dies between two files of a policy it evicts does not start again.** -/
theorem not_every_crash_recovers : ¬ ∀ (digest : PolicyManifest → Digest) (evs : List Node.Event) (n : Node),
    Machine.run (Node.step digest) (.down ⟨[], []⟩) evs = some n → n.Recoverable digest := by
  intro h
  have hrun : (Machine.run (Node.step (·.policyId)) (.down ⟨[], []⟩) (Sample.evicting ++ [.crash []])).bind
      (fun n => match n with
        | .down disk => some (construct (·.policyId) 5 disk).isSome
        | _ => none) = some false := by decide +kernel
  rw [Option.bind_eq_some_iff] at hrun
  obtain ⟨n, hr, hdown⟩ := hrun
  have hn := h _ _ n hr
  cases n with
  | down disk =>
    obtain ⟨s, hs, -⟩ := hn 5
    change some (construct (·.policyId) 5 disk).isSome = some false at hdown
    rw [hs] at hdown
    cases hdown
  | starting s w left => cases hdown
  | up s left => cases hdown

end AdapterCache

end Aether
