import AetherRl.AdapterCache
/-!
# PolicyRuntime — the adapters loaded in the worker's inference server

`WorkerPolicyRuntime.acquire` of `policy_runtime.py`, over the adapter cache whose pins it holds.  An acquisition is in
its cache `pin`, waits for the condition's lock, waits on the condition, holds the lock, runs its body, or waits for the
lock to leave; the lock is held across the server's calls only.  A server call has an effect and returns later.  A
waiter of the condition may go on whenever the lock is free.
-/
namespace Aether

/-- An `acquire` whose `pin` is open. -/
structure Acquisition where
  manifest : WorkerPolicy
  cached : Option CachedPolicy
deriving DecidableEq

/-- `served_model_name` of a manifest with an adapter, which its validator makes the id. -/
def WorkerPolicy.servedModelName (m : WorkerPolicy) : String := m.policyId

namespace WorkerPolicyRuntime

/-- What `_enforce_loaded_retention` is followed by. -/
inductive After
  | enter (m : WorkerPolicy)
  | leave (m : WorkerPolicy)
deriving DecidableEq

/-- The holder of the condition's lock waits for the server, which has done what it was asked or not yet. -/
inductive Holder
  | load (a : Acquisition) (served : Bool)
  | makeRoom (a : Acquisition) (policyId : OpaqueId) (served : Bool)
  | retain (trained : List OpaqueId) (policyId : OpaqueId) (served : Bool) (after : After)
deriving DecidableEq

end WorkerPolicyRuntime

/-- `loaded` is the dict `_loaded`, and `server` the adapters of the inference server with their paths. -/
structure WorkerPolicyRuntime where
  maxLoadedPolicies : Nat
  cache : AdapterCache
  loaded : List (OpaqueId × Option CachedPolicy)
  references : OpaqueId → Nat
  lastUsed : OpaqueId → Time
  server : OpaqueId → Option CachePath
  pinned : List Acquisition
  suspended : List Acquisition
  entered : List WorkerPolicy
  exiting : List WorkerPolicy
  holder : Option WorkerPolicyRuntime.Holder

namespace WorkerPolicyRuntime

/-- `[policy_id for policy_id, cached in self._loaded.items() if cached is not None]`. -/
def trained (r : WorkerPolicyRuntime) : List OpaqueId := (r.loaded.filter (·.2.isSome)).map (·.1)

/-- Those of the policies that nothing refers to. -/
def candidates (r : WorkerPolicyRuntime) (ids : List OpaqueId) : List OpaqueId :=
  ids.filter fun p => decide (r.references p = 0)

def UsedBefore (r : WorkerPolicyRuntime) (p q : OpaqueId) : Prop :=
  r.lastUsed p < r.lastUsed q ∨ r.lastUsed p = r.lastUsed q ∧ p ≤ q

instance (r : WorkerPolicyRuntime) : DecidableRel r.UsedBefore := fun _ _ => by unfold UsedBefore; infer_instance

/-- `min(candidates, key=lambda item: (self._last_used.get(item, 0), item))`. -/
def leastRecent (r : WorkerPolicyRuntime) (ids : List OpaqueId) : Option OpaqueId :=
  (ids.insertionSort r.UsedBefore).head?

/-- `_wait_for_load_capacity` up to its next suspension, and the load that follows it. -/
def waitForLoadCapacity (r : WorkerPolicyRuntime) (a : Acquisition) : WorkerPolicyRuntime :=
  if r.maxLoadedPolicies ≤ r.trained.length then
    match r.leastRecent (r.candidates r.trained) with
    | none => { r with holder := none, suspended := a :: r.suspended }
    | some p => { r with holder := some (.makeRoom a p false) }
  else { r with holder := some (.load a false) }

/-- The lock is released: the body is entered, or the `pin` is closed. -/
def finish (r : WorkerPolicyRuntime) (now : Time) : After → WorkerPolicyRuntime
  | .enter m => { r with holder := none, entered := m :: r.entered }
  | .leave m => { r with holder := none, cache := r.cache.unpin m now }

/-- `_enforce_loaded_retention` up to its next suspension, or to its end and on. -/
def enforceLoadedRetention (r : WorkerPolicyRuntime) (trained : List OpaqueId) (after : After) (now : Time) :
    WorkerPolicyRuntime :=
  if r.maxLoadedPolicies < trained.length then
    match r.leastRecent (r.candidates trained) with
    | none => r.finish now after
    | some p => { r with holder := some (.retain trained p false after) }
  else r.finish now after

/-- `self._loaded[policy_id] = cached`. -/
def setLoaded (r : WorkerPolicyRuntime) (a : Acquisition) : WorkerPolicyRuntime :=
  { r with loaded := r.loaded.filter (fun x => x.1 ≠ a.manifest.policyId) ++ [(a.manifest.policyId, a.cached)] }

/-- The policy is marked and referred to, and the body entered. -/
def hold (r : WorkerPolicyRuntime) (a : Acquisition) (now : Time) : WorkerPolicyRuntime :=
  let p := a.manifest.policyId
  let r := { r.setLoaded a with
    references := Function.update r.references p (r.references p + 1)
    lastUsed := Function.update r.lastUsed p now }
  r.enforceLoadedRetention r.trained (.enter a.manifest) now

/-- `acquire` with the lock taken. -/
def acquire (r : WorkerPolicyRuntime) (a : Acquisition) (now : Time) : WorkerPolicyRuntime :=
  if a.cached.isSome ∧ a.manifest.policyId ∉ r.loaded.map (·.1) then r.waitForLoadCapacity a else r.hold a now

/-- The body has ended and the lock is taken. -/
def release (r : WorkerPolicyRuntime) (m : WorkerPolicy) (now : Time) : WorkerPolicyRuntime :=
  let r := { r with
    references := Function.update r.references m.policyId (r.references m.policyId - 1)
    lastUsed := Function.update r.lastUsed m.policyId now }
  r.enforceLoadedRetention r.trained (.leave m) now

/-- `mark_unloaded` and `self._loaded.pop`, when `unload` has returned. -/
def drop (r : WorkerPolicyRuntime) (p : OpaqueId) : WorkerPolicyRuntime :=
  { r with cache := r.cache.markUnloaded p, loaded := r.loaded.filter fun x => x.1 ≠ p }

/-- The server does what it was asked.  `load` of a name it has raises where the name has another path, and the
acquisition is over. -/
def serve (r : WorkerPolicyRuntime) (now : Time) : Holder → Option WorkerPolicyRuntime
  | .load a false =>
    match r.server a.manifest.servedModelName with
    | none => some { r with
        server := Function.update r.server a.manifest.servedModelName (a.cached.map (·.path))
        holder := some (.load a true) }
    | some path =>
      if some path = a.cached.map (·.path) then some { r with holder := some (.load a true) }
      else some (r.finish now (.leave a.manifest))
  | .makeRoom a p false =>
    some { r with server := Function.update r.server p none, holder := some (.makeRoom a p true) }
  | .retain trained p false after =>
    some { r with server := Function.update r.server p none, holder := some (.retain trained p true after) }
  | _ => none

/-- The server's answer arrives. -/
def proceed (r : WorkerPolicyRuntime) (now : Time) : Holder → Option WorkerPolicyRuntime
  | .load a true => some ({ r with cache := r.cache.markLoaded a.manifest.policyId now }.hold a now)
  | .makeRoom a p true => some ((r.drop p).waitForLoadCapacity a)
  | .retain trained p true after => some ((r.drop p).enforceLoadedRetention (trained.erase p) after now)
  | _ => none

/-! ## Events -/

/-- `cache e` is a step of the cache on its own, of the pin of an `acquire` that starts, or of a prefetch. -/
inductive Event
  | cache (e : AdapterCache.Event)
  | lock (a : Acquisition) (now : Time)
  | wake (a : Acquisition)
  | exit (m : WorkerPolicy)
  | release (m : WorkerPolicy) (now : Time)
  | serve (now : Time)
  | proceed (now : Time)

/-- An acquisition whose `pin` has returned goes on to the lock. -/
def pinReturns (r : WorkerPolicyRuntime) : AdapterCache.Answer × AdapterCache → WorkerPolicyRuntime
  | (.pinned m cached, cache) => { r with cache := cache, pinned := ⟨m, cached⟩ :: r.pinned }
  | (_, cache) => { r with cache := cache }

variable (digest : PolicyManifest → Digest)

def step (r : WorkerPolicyRuntime) : Event → Option WorkerPolicyRuntime
  | .cache e => if e.ofCall then (r.cache.step digest e).map r.pinReturns else none
  | .lock a now =>
    if r.holder = none ∧ a ∈ r.pinned then some ({ r with pinned := r.pinned.erase a }.acquire a now) else none
  | .wake a =>
    if r.holder = none ∧ a ∈ r.suspended then
      some ({ r with suspended := r.suspended.erase a }.waitForLoadCapacity a)
    else none
  | .exit m => if m ∈ r.entered then some { r with entered := r.entered.erase m, exiting := m :: r.exiting } else none
  | .release m now =>
    if r.holder = none ∧ m ∈ r.exiting then some ({ r with exiting := r.exiting.erase m }.release m now) else none
  | .serve now => r.holder.bind (r.serve now)
  | .proceed now => r.holder.bind (r.proceed now)

/-- `WorkerPolicyRuntime(config, state, coordinator)` over a cache that has just started, and a server without
adapters. -/
def start (maxLoadedPolicies : Nat) (cache : AdapterCache) : WorkerPolicyRuntime :=
  ⟨maxLoadedPolicies, cache, [], fun _ => 0, fun _ => 0, fun _ => none, [], [], [], [], none⟩

/-- The acquisitions that hold a reference: the body is entered next, runs, or has ended and waits for the lock. -/
def live (r : WorkerPolicyRuntime) : List WorkerPolicy :=
  (match r.holder with
    | some (.retain _ _ _ (.enter m)) => [m]
    | _ => []) ++ r.entered ++ r.exiting

end WorkerPolicyRuntime

end Aether
