import AetherRl.Machine
import AetherRl.RepoPolicies
import Mathlib.Data.Finset.Basic
import Mathlib.Data.List.Sort
import Mathlib.Logic.Function.Basic
/-!
# AdapterCache — the worker's cache of policy adapters

`AdapterCache` of `policy_cache.py`, one step for each stretch between two suspension points, and for each entry that
a `to_thread` pass looks at or removes, since the event loop goes on meanwhile.  Whatever `_ensure_locked` and the
retention of a closing `pin` do, they do as the holder of the capacity lock; a call's digest lock only orders it after
other calls of its manifest, so any waiting call may be next.  The outside decides what a transfer leaves in
`incoming`, whether it succeeded, and the clock.
-/
namespace Aether

structure AdapterFile where
  name : String
  sizeBytes : Nat
  digest : Digest
deriving DecidableEq

/-- A manifest with the files its adapter lists, and what its validator says of its id and of its adapter. -/
structure WorkerPolicy extends PolicyManifest where
  files : List AdapterFile
  id : ∃ identity : String, policyId = "policy-v" ++ Numeral.zfill 8 policyVersion ++ "-" ++ identity
  trained : policyVersion = 0 ↔ adapter = none
deriving DecidableEq

/-- A manifest the worker has validated. -/
def WorkerPolicy.ofValid {c : Codec} {m : PolicyManifest} (h : m.Valid c) (files : List AdapterFile) : WorkerPolicy :=
  ⟨m, files, ⟨_, h.id⟩, h.adapter⟩

/-- **The id of a policy says whether it has an adapter.** -/
theorem WorkerPolicy.adapter_of_id {m m' : WorkerPolicy} (h : m.policyId = m'.policyId) :
    m.adapter = none ↔ m'.adapter = none := by
  obtain ⟨i, hi⟩ := m.id
  obtain ⟨i', hi'⟩ := m'.id
  have hid := hi.symm.trans (h.trans hi')
  rw [String.append_assoc, String.append_assoc, String.append_assoc, String.append_assoc, String.append_right_inj] at hid
  rw [← String.append_assoc, ← String.append_assoc] at hid
  have hv := Numeral.prefix_inj (c := '-') rfl hid
  rw [← m.trained, ← m'.trained, hv]

def WorkerPolicy.adapterSize (m : WorkerPolicy) : Nat := (m.files.map (·.sizeBytes)).sum

/-- `sha256/<digest>/<name>` under the cache's root. -/
structure CachePath where
  digest : Digest
  name : OpaqueId
deriving DecidableEq

structure CachedPolicy where
  manifest : WorkerPolicy
  path : CachePath
  sizeBytes : Nat
deriving DecidableEq

/-- A complete adapter directory: the manifest in it, and the files the manifest lists. -/
structure AdapterDirectory where
  path : CachePath
  manifest : WorkerPolicy
deriving DecidableEq

/-- What stands in `incoming`: a regular file of a size, or anything else. -/
structure Incoming where
  name : String
  regular : Bool
  size : Nat
deriving DecidableEq

def partName (a : AdapterFile) : String := removePrefix "sha256:" a.digest ++ "." ++ a.name ++ ".part"

namespace AdapterCache

inductive Error
  | adapterCache (message : String)
  | corruption (message : String)
  | transfer
deriving DecidableEq

/-- An `ensure` call, or the one a `pin` makes. -/
structure Call where
  manifest : WorkerPolicy
  pinning : Bool
deriving DecidableEq

/-- Who waits for the capacity lock. -/
inductive Request
  | ensure (c : Call)
  | retention
deriving DecidableEq

/-- The loop of `_make_space` and `enforce_retention`: the entries ahead, the bytes counted, and the entry that was
found free and is removed next. -/
structure Eviction where
  required : Int
  rest : List CachedPolicy
  total : Int
  victim : Option CachedPolicy
deriving DecidableEq

/-- Where the holder of the capacity lock stands. -/
inductive Holder
  | prunePartialFiles (c : Call)
  | makeSpace (c : Call) (required : Int)
  | evict (c : Call) (w : Eviction)
  | validateManifest (c : Call)
  | download (c : Call) (files : List AdapterFile)
  | verify (c : Call)
  | enforceRetention
  | retain (w : Eviction)
deriving DecidableEq

inductive Answer
  | suspended
  | ensured (cached : Option CachedPolicy)
  | pinned (m : WorkerPolicy) (cached : Option CachedPolicy)
  | done
  | raised (e : Error)
deriving DecidableEq

end AdapterCache

/-- `pins` are the open `pin` contexts. -/
structure AdapterCache where
  maxBytes : Nat
  cached : List CachedPolicy
  directories : List AdapterDirectory
  incoming : List Incoming
  references : OpaqueId → Nat
  loaded : Finset OpaqueId
  lastUsed : OpaqueId → Time
  pins : List WorkerPolicy
  waiting : List AdapterCache.Request
  holder : Option AdapterCache.Holder

namespace AdapterCache

/-- `policy_id in self._loaded or self._references.get(policy_id, 0)`. -/
def InUse (s : AdapterCache) (policyId : OpaqueId) : Prop := policyId ∈ s.loaded ∨ s.references policyId ≠ 0

instance (s : AdapterCache) (p : OpaqueId) : Decidable (s.InUse p) := by unfold InUse; infer_instance

def totalBytes (s : AdapterCache) : Nat := (s.cached.map (·.sizeBytes)).sum

def sizes (files : List Incoming) : Nat := (files.map (·.size)).sum

/-- `_incoming_size`. -/
def incomingSize (s : AdapterCache) : Nat := sizes (s.incoming.filter (·.regular))

/-- `_remove_entry` of a cached directory. -/
def removeEntry (s : AdapterCache) (path : CachePath) : AdapterCache :=
  { s with cached := s.cached.filter (·.path ≠ path), directories := s.directories.filter (·.path ≠ path) }

/-- `self._cached[cached.path] = cached`. -/
def put (s : AdapterCache) (cached : CachedPolicy) : AdapterCache :=
  { s with cached := s.cached.filter (fun e => e.path ≠ cached.path) ++ [cached] }

/-! ## Eviction -/

/-- `(self._last_used.get(policy_id, 0), path.name)` of one entry is at most the other's. -/
def UsedBefore (s : AdapterCache) (a b : CachedPolicy) : Prop :=
  s.lastUsed a.manifest.policyId < s.lastUsed b.manifest.policyId ∨
    s.lastUsed a.manifest.policyId = s.lastUsed b.manifest.policyId ∧ a.path.name ≤ b.path.name

instance (s : AdapterCache) : DecidableRel s.UsedBefore := fun _ _ => by unfold UsedBefore; infer_instance

/-- The loop's start, with the bytes counted besides the entries'. -/
def eviction (s : AdapterCache) (required : Int) (besides : Nat) : Eviction :=
  ⟨required, s.cached.insertionSort s.UsedBefore, s.totalBytes + besides, none⟩

/-- The next step of the loop, until it has room or no entry left.  `enforce_retention`, which enters the loop over
the bound, tests the bound after a removal; to test it before the next entry comes to the same. -/
def evictNext (s : AdapterCache) (w : Eviction) : Option (AdapterCache × Eviction) :=
  match w.victim with
  | some e => some (s.removeEntry e.path, { w with victim := none, total := w.total - e.sizeBytes })
  | none =>
    if w.total + w.required ≤ s.maxBytes then none
    else match w.rest with
      | [] => none
      | e :: rest =>
        if s.InUse e.manifest.policyId then some (s, { w with rest := rest })
        else some (s, { w with rest := rest, victim := some e })

/-- The loop with nothing in between. -/
def drain : Nat → AdapterCache → Eviction → AdapterCache
  | 0, s, _ => s
  | n + 1, s, w =>
    match s.evictNext w with
    | none => s
    | some (s, w) => drain n s w

/-- `enforce_retention` before the event loop runs. -/
def retainAll (s : AdapterCache) : AdapterCache :=
  if s.totalBytes ≤ s.maxBytes then s else s.drain (2 * s.cached.length) (s.eviction 0 0)

/-! ## `ensure` and `pin` -/

/-- `expected` of `_prune_partial_files`. -/
def expectedSize (m : WorkerPolicy) (name : String) : Option Nat :=
  (m.files.reverse.find? (fun a => decide (partName a = name))).map (·.sizeBytes)

/-- `_prune_partial_files`: what stays in `incoming`. -/
def prunePartialFiles (m : WorkerPolicy) (incoming : List Incoming) : List Incoming :=
  incoming.filter fun f => f.regular && (expectedSize m f.name).any fun size => decide (f.size ≤ size)

variable (digest : PolicyManifest → Digest)

/-- `_path`. -/
def path (m : WorkerPolicy) : CachePath := ⟨digest m.toPolicyManifest, m.policyId⟩

/-- `_verify` of a complete directory. -/
def verify (m : WorkerPolicy) (d : AdapterDirectory) : Option CachedPolicy :=
  if d.manifest.adapter.isSome ∧ digest d.manifest.toPolicyManifest = digest m.toPolicyManifest then
    some ⟨d.manifest, d.path, d.manifest.adapterSize⟩
  else none

/-- `_publish_directory`. -/
def publishDirectory (s : AdapterCache) (m : WorkerPolicy) : AdapterCache :=
  if ∃ d ∈ s.directories, d.path = path digest m then s
  else { s with directories := ⟨path digest m, m⟩ :: s.directories }

/-- What `pin` does once `ensure` has returned. -/
def addPin (s : AdapterCache) (m : WorkerPolicy) (now : Time) : AdapterCache :=
  { s with
    pins := m :: s.pins
    references := Function.update s.references m.policyId (s.references m.policyId + 1)
    lastUsed := Function.update s.lastUsed m.policyId now }

def raises (s : AdapterCache) (e : Error) : Answer × AdapterCache := (.raised e, { s with holder := none })

def suspends (s : AdapterCache) (h : Holder) : Answer × AdapterCache := (.suspended, { s with holder := some h })

/-- `_ensure_locked` returns, and with it `ensure`. -/
def returns (s : AdapterCache) (c : Call) (cached : CachedPolicy) (now : Time) : Answer × AdapterCache :=
  let s := { s with holder := none, lastUsed := Function.update s.lastUsed c.manifest.policyId now }
  if c.pinning then (.pinned c.manifest (some cached), s.addPin c.manifest now) else (.ensured (some cached), s)

/-- `ensure`, alone or in a `pin`, up to the capacity lock. -/
def call (s : AdapterCache) (c : Call) (now : Time) : Answer × AdapterCache :=
  if c.manifest.adapter = none then
    if c.pinning then (.pinned c.manifest none, s.addPin c.manifest now) else (.ensured none, s)
  else if s.maxBytes < c.manifest.adapterSize then
    (.raised (.adapterCache "policy adapter exceeds adapter_cache_max_bytes"), s)
  else (.suspended, { s with waiting := .ensure c :: s.waiting })

/-- `_ensure_locked` up to its first suspension. -/
def ensureLocked (s : AdapterCache) (c : Call) (now : Time) : Answer × AdapterCache :=
  if ∃ d ∈ s.directories, d.path = path digest c.manifest then
    match s.cached.find? (fun e => decide (e.path = path digest c.manifest)) with
    | some cached => s.returns c cached now
    | none => s.suspends (.verify c)
  else s.suspends (.prunePartialFiles c)

/-- The holder goes on with what only the cache decides. -/
def proceed (s : AdapterCache) (now : Time) : Holder → Option (Answer × AdapterCache)
  | .prunePartialFiles c =>
    let kept : List Incoming := prunePartialFiles c.manifest s.incoming
    some ({ s with incoming := kept }.suspends
      (.makeSpace c (c.manifest.adapterSize - sizes kept)))
  | .makeSpace c required => some (s.suspends (.evict c (s.eviction required s.incomingSize)))
  | .evict c w =>
    match s.evictNext w with
    | some (s, w) => some (s.suspends (.evict c w))
    | none =>
      if w.total + w.required ≤ s.maxBytes then some (s.suspends (.validateManifest c))
      else some (s.raises (.adapterCache "adapter cache has no evictable capacity for the assigned policy"))
  | .verify c =>
    match (s.directories.find? (fun d => decide (d.path = path digest c.manifest))).bind (verify digest c.manifest) with
    | some cached =>
      some ((s.put cached).returns c cached now)
    | none => some (s.raises (.corruption ("cached policy " ++ c.manifest.policyId ++ " is corrupt")))
  | .enforceRetention =>
    if s.totalBytes ≤ s.maxBytes then some (.done, { s with holder := none })
    else some (s.suspends (.retain (s.eviction 0 0)))
  | .retain w =>
    match s.evictNext w with
    | some (s, w) => some (s.suspends (.retain w))
    | none => some (.done, { s with holder := none })
  | .validateManifest _ => none
  | .download _ _ => none

/-- The holder goes on with what came from outside: the manifest's check, a file's download, and at the end the check
of the whole directory, which is then published. -/
def fetch (s : AdapterCache) (incoming : List Incoming) (succeeded : Bool) : Holder → Option (Answer × AdapterCache)
  | .validateManifest c =>
    if succeeded then some (s.suspends (.download c c.manifest.files)) else some (s.raises .transfer)
  | .download c (_ :: files) =>
    if succeeded then some ({ s with incoming := incoming }.suspends (.download c files))
    else some ({ s with incoming := incoming }.raises .transfer)
  | .download c [] =>
    if succeeded then some ((s.publishDirectory digest c.manifest).suspends (.verify c))
    else some (s.raises .transfer)
  | _ => none

/-- A `pin` ends, up to the capacity lock. -/
def unpin (s : AdapterCache) (m : WorkerPolicy) (now : Time) : AdapterCache :=
  { s with
    pins := s.pins.erase m
    references := Function.update s.references m.policyId (s.references m.policyId - 1)
    lastUsed := Function.update s.lastUsed m.policyId now
    waiting := .retention :: s.waiting }

/-- `mark_loaded`. -/
def markLoaded (s : AdapterCache) (policyId : OpaqueId) (now : Time) : AdapterCache :=
  { s with loaded := insert policyId s.loaded, lastUsed := Function.update s.lastUsed policyId now }

/-- `mark_unloaded`. -/
def markUnloaded (s : AdapterCache) (policyId : OpaqueId) : AdapterCache :=
  { s with loaded := s.loaded.erase policyId }

/-! ## Events -/

inductive Event
  | ensure (m : WorkerPolicy) (now : Time)
  | pin (m : WorkerPolicy) (now : Time)
  | unpin (m : WorkerPolicy) (now : Time)
  | markLoaded (policyId : OpaqueId) (now : Time)
  | markUnloaded (policyId : OpaqueId)
  | lock (r : Request) (now : Time)
  | proceed (now : Time)
  | fetch (incoming : List Incoming) (succeeded : Bool)

/-- An event of a call or of the capacity lock: no pin ends, and no mark is set or cleared. -/
def Event.ofCall : Event → Bool
  | .unpin _ _ | .markLoaded _ _ | .markUnloaded _ => false
  | _ => true

/-- The entry a pass has found free and not removed yet. -/
def victim (s : AdapterCache) : Option CachedPolicy :=
  match s.holder with
  | some (.evict _ w) => w.victim
  | some (.retain w) => w.victim
  | _ => none

/-- `mark_loaded` and `mark_unloaded` take no lock: they may fall between the test of an entry and its removal. -/
def step (s : AdapterCache) : Event → Option (Answer × AdapterCache)
  | .ensure m now => some (s.call ⟨m, false⟩ now)
  | .pin m now => some (s.call ⟨m, true⟩ now)
  | .unpin m now => if m ∈ s.pins then some (.suspended, s.unpin m now) else none
  | .markLoaded p now => some (.done, s.markLoaded p now)
  | .markUnloaded p => some (.done, s.markUnloaded p)
  | .lock r now =>
    if s.holder = none ∧ r ∈ s.waiting then
      let s := { s with waiting := s.waiting.erase r }
      match r with
      | .ensure c => some (s.ensureLocked digest c now)
      | .retention => some (s.suspends .enforceRetention)
    else none
  | .proceed now => s.holder.bind (s.proceed digest now)
  | .fetch incoming succeeded => s.holder.bind (s.fetch digest incoming succeeded)

/-- The state after an event. -/
def next (s : AdapterCache) (e : Event) : Option AdapterCache := (s.step digest e).map Prod.snd

/-- `_scan_entries`: every directory found is complete and stands under its manifest's path, or the cache refuses to
start. -/
def scanEntries (directories : List AdapterDirectory) : Option (List CachedPolicy) :=
  directories.mapM fun d => if path digest d.manifest = d.path then verify digest d.manifest d else none

/-- `AdapterCache(state, client, max_bytes=...)` over the directories and partial files of an earlier run. -/
def start (maxBytes : Nat) (directories : List AdapterDirectory) (incoming : List Incoming) : Option AdapterCache :=
  (scanEntries digest directories).map fun entries =>
    retainAll ⟨maxBytes, entries, directories, incoming, fun _ => 0, ∅, fun _ => 0, [], [], none⟩

end AdapterCache

end Aether
