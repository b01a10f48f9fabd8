import AetherRl.HandoffRuns
import AetherRl.PolicyRepublish
/-!
# PublicationRuns — the handoff, with the directory its policies are published into

`_publish_available_policies` as it calls `publish_lora_policy`: in a thread, for the version after the active one, with
the adapter it has loaded and the time it is.  The directory outlives both processes, a call does not; a coordinator
whose loop has failed may have one running still.
-/
namespace Aether
namespace Publication

open Handoff (Config Training)

/-- What a coordinator publishes with; `stateDict` is what `load_file` reads of an adapter. -/
structure Publisher (δ : Type) where
  base : Training
  lib : Publish.Libraries δ
  runId : String
  baseModel : Publish.BaseModelIdentity
  rank : Int
  alpha : Publish.Number
  dropout : Publish.Number
  stateDict : base.Adapter → Publish.StateDict δ

/-- A call of `publish_lora_policy`: the one of its number, of a version's adapter, at a time. -/
structure Call (α : Type) where
  number : Nat
  version : Nat
  adapter : α
  createdAt : ℚ
deriving DecidableEq

variable {δ : Type}

namespace Publisher

variable (q : Publisher δ)

def args (version : Nat) (adapter : q.base.Adapter) (createdAt : ℚ) : Publish.Args δ :=
  ⟨q.runId, version, q.baseModel, q.stateDict adapter, q.rank, q.alpha, q.dropout, .float (.finite createdAt)⟩

def callArgs (k : Call q.base.Adapter) : Publish.Args δ := q.args k.version k.adapter k.createdAt

/-- The training, with the digests of the policies its adapters are published as; that a call raises is seen of it. -/
abbrev training : Training :=
  { q.base with
    policy := fun version adapter => (Publish.policyDigest q.lib (q.args version adapter 0)).toOption.getD ""
    publishes := fun _ _ => true }

end Publisher

/-- The handoff, what stands in `policies`, the call that is under way or was not answered yet, and how many calls there
were. -/
structure State (q : Publisher δ) where
  handoff : Handoff.State q.training
  policies : Publish.State (Call q.base.Adapter)
  call : Option (Call q.base.Adapter)
  calls : Nat

inductive Event (q : Publisher δ)
  | handoff (e : Handoff.Event q.training)
  /-- `publish_lora_policy` is called -/
  | call (createdAt : ℚ)
  | operation (o : Publish.Operation)
  /-- it has returned, and `_distribute_policy` does -/
  | answer
  /-- it has raised, or `_distribute_policy` does -/
  | raise
  /-- both processes end, and the call with the file it was writing -/
  | halt (torn : Option Bytes)

/-- The names `mkdtemp` draws. -/
def Event.name? {q : Publisher δ} : Event q → Option String
  | .operation o => o.name?
  | _ => none

/-- `mkdtemp` draws no name twice. -/
def FreshNames {q : Publisher δ} (events : List (Event q)) : Prop := (events.filterMap Event.name?).Nodup

section
variable {p : Training} (s : Handoff.State p)

/-- The version and the adapter a coordinator is about to publish. -/
def publishing? : Option (Nat × p.Adapter) :=
  match s.coordinator.phase with
  | .starting (.publish version stateDict) | .publishing (.publish version stateDict) => some (version, stateDict)
  | _ => none

/-- `publish_lora_policy` and `_distribute_policy` have returned. -/
def published (version : Nat) (policy : Digest) : Handoff.State p :=
  { s with published := if s.published.contains (version, policy) then s.published
                        else s.published ++ [(version, policy)] }.coordinatorGoes
    (match s.coordinator.phase with
      | .starting _ => .starting (.activate version policy)
      | _ => .publishing (.activate version policy))

/-- Both processes are down. -/
def halted : Handoff.State p := { s.coordinatorGoes .down with trainer := none }

/-- One of the two has raised: out of `start`, or out of the service loop. -/
def raised : Handoff.State p :=
  match s.coordinator.phase with
  | .starting _ => halted s
  | _ => s.coordinatorGoes .failed

/-- What happens by the calls, and not beside them. -/
def waits : Handoff.Event p → Bool
  | .coordinator _ _ => (publishing? s).isSome
  | .halt => true
  | _ => false

end

variable {q : Publisher δ} [DecidableEq q.base.Adapter]

/-- One event, if it can happen. -/
def next (c : Config) (s : State q) : Event q → Option (State q)
  | .handoff e =>
    if waits s.handoff e then none else (s.handoff.next c e).map fun h => { s with handoff := h }
  | .call createdAt =>
    match publishing? s.handoff, s.call with
    | some (version, adapter), none =>
      some { s with call := some ⟨s.calls, version, adapter, createdAt⟩, calls := s.calls + 1 }
    | _, _ => none
  | .operation o =>
    s.call.bind fun k => (Publish.next q.lib q.callArgs s.policies (o.event k)).map fun d => { s with policies := d }
  | .answer =>
    s.call.bind fun k =>
      match s.policies.phase k, publishing? s.handoff with
      | .ended _ _ (.returned manifest), some (version, _) =>
        (Publish.policyManifestDigest q.lib manifest).toOption.map fun digest =>
          { s with call := none, handoff := published s.handoff version digest }
      | _, _ => none
  | .raise =>
    s.call.bind fun k =>
      match s.policies.phase k, publishing? s.handoff with
      | .ended _ _ _, some _ => some { s with call := none, handoff := raised s.handoff }
      | _, _ => none
  | .halt torn =>
    some { s with
      handoff := halted s.handoff
      policies := (s.call.bind fun k => Publish.next q.lib q.callArgs s.policies (.kill k torn)).getD s.policies
      call := none }

/-- Nothing has happened; the run's directory is there, with its database. -/
def start (q : Publisher δ) : State q := ⟨Handoff.State.start q.training, Publish.start _ .directory, none, 0⟩

/-- The state the events lead to. -/
def reached (c : Config) (events : List (Event q)) : State q := Machine.drive (next c) (start q) events

end Publication
end Aether
