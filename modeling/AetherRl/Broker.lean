import AetherRl.Machine
import AetherRl.Protocol
import Mathlib.Logic.Function.Basic
/-!
# Broker — the inference broker between environments and workers

`InferenceBroker` of `inference.py`, one step for each stretch of its methods between two suspension points.  A lease's
`_LeaseExchange` is an object that calls still suspended on it keep after the lease is closed, so `_leases` holds its
place among the objects made.  A suspended `exchange` goes on when the queue is not empty, or times out; `request` goes on
when its waiter is done, or is cancelled.  The ids `uuid4` draws are the environment's: each is new.
-/
namespace Aether

structure InferenceRequest where
  requestId : OpaqueId
  method : String
  path : String
  headers : JsonText
  body : Bytes
deriving DecidableEq

structure InferenceReply where
  requestId : OpaqueId
  statusCode : Nat
  headers : JsonText
  body : Bytes
deriving DecidableEq

/-- The future a `request` call awaits. -/
inductive Waiter
  | pending
  | replied (reply : InferenceReply)
  | closed
  | cancelled
deriving DecidableEq

namespace Broker

inductive Error
  | runtime (message : String)
  | permission (message : String)
  | value (message : String)
  | leaseClosed (message : String)
  | cancelled
deriving DecidableEq

structure LeaseExchange where
  workerId : OpaqueId
  workerSessionId : OpaqueId
  requests : List InferenceRequest
  replies : OpaqueId → Option InferenceReply
  waiters : OpaqueId → Option Waiter
  activeRequest : Option InferenceRequest
  closed : Bool

/-- `_LeaseExchange(worker_id, worker_session_id)`. -/
def LeaseExchange.new (workerId workerSessionId : OpaqueId) : LeaseExchange :=
  ⟨workerId, workerSessionId, [], fun _ => none, fun _ => none, none, false⟩

/-- `waiter.set_exception(...)` unless it is done. -/
def closeWaiter : Waiter → Waiter
  | .pending => .closed
  | w => w

def LeaseExchange.close (x : LeaseExchange) : LeaseExchange :=
  { x with closed := true, waiters := fun i => (x.waiters i).map closeWaiter }

/-- The waiter and the queue entry of a new request. -/
def LeaseExchange.put (q : InferenceRequest) (x : LeaseExchange) : LeaseExchange :=
  { x with waiters := Function.update x.waiters q.requestId (some .pending), requests := x.requests ++ [q] }

/-- A reply is checked, stored, and given to its waiter unless that is done. -/
def LeaseExchange.accept (bodyLimitBytes : Nat) (reply : InferenceReply) (x : LeaseExchange) :
    Except Error LeaseExchange :=
  if bodyLimitBytes < reply.body.length then .error (.value "inference reply body is too large")
  else if ∃ previous ∈ x.replies reply.requestId, previous ≠ reply then
    .error (.value "inference request already has a different reply")
  else .ok { x with
    replies := Function.update x.replies reply.requestId (some reply)
    waiters := if x.waiters reply.requestId = some .pending then
      Function.update x.waiters reply.requestId (some (.replied reply)) else x.waiters
    activeRequest := if x.activeRequest.any (fun q => decide (q.requestId = reply.requestId)) then none
      else x.activeRequest }

/-- `if reply is not None`. -/
def LeaseExchange.acceptAny (bodyLimitBytes : Nat) (reply : Option InferenceReply) (x : LeaseExchange) :
    Except Error LeaseExchange :=
  match reply with
  | none => .ok x
  | some reply => x.accept bodyLimitBytes reply

/-- The head of the queue becomes the active request. -/
def LeaseExchange.take (q : InferenceRequest) (rest : List InferenceRequest) (x : LeaseExchange) : LeaseExchange :=
  { x with requests := rest, activeRequest := some q }

end Broker

structure InferenceBroker where
  bodyLimitBytes : Nat
  leases : OpaqueId → Option Nat
  exchanges : List Broker.LeaseExchange
  suspended : List Nat
  drawn : List OpaqueId

namespace InferenceBroker

open Broker

/-- `InferenceBroker(body_limit_bytes=...)`. -/
def new (bodyLimitBytes : Nat) : InferenceBroker := ⟨bodyLimitBytes, fun _ => none, [], [], []⟩

def exchange? (b : InferenceBroker) (leaseId : OpaqueId) : Option (Nat × LeaseExchange) :=
  (b.leases leaseId).bind fun h => (b.exchanges[h]?).map fun x => (h, x)

def set (b : InferenceBroker) (h : Nat) (x : LeaseExchange) : InferenceBroker :=
  { b with exchanges := b.exchanges.set h x }

def register (b : InferenceBroker) (leaseId workerId workerSessionId : OpaqueId) : Except Error InferenceBroker :=
  if (b.leases leaseId).isSome then .error (.runtime "inference lease is already registered")
  else .ok { b with
    leases := Function.update b.leases leaseId (some b.exchanges.length)
    exchanges := b.exchanges ++ [.new workerId workerSessionId] }

def close (b : InferenceBroker) (leaseId : OpaqueId) : InferenceBroker :=
  match b.exchange? leaseId with
  | none => b
  | some (h, x) =>
    let popped := { b with leases := Function.update b.leases leaseId none }
    if x.closed then popped else popped.set h x.close

/-- `request` up to the wait for its reply. -/
def request (b : InferenceBroker) (leaseId : OpaqueId) (q : InferenceRequest) : Except Error InferenceBroker :=
  if b.bodyLimitBytes < q.body.length then .error (.value "inference request body is too large")
  else match b.exchange? leaseId with
    | none => .error (.leaseClosed "inference lease is closed")
    | some (h, x) =>
      if x.closed then .error (.leaseClosed "inference lease is closed")
      else .ok { b.set h (x.put q) with drawn := q.requestId :: b.drawn }

/-- What an `exchange` call answers: `False`, `None`, a request, or nothing yet. -/
inductive Offer
  | stop
  | wait
  | request (q : InferenceRequest)
  | suspended
deriving DecidableEq

/-- `exchange` up to its first suspension. -/
def exchange (b : InferenceBroker) (leaseId workerId workerSessionId : OpaqueId) (reply : Option InferenceReply) :
    Except Error (Offer × InferenceBroker) :=
  match b.exchange? leaseId with
  | none => .ok (.stop, b)
  | some (h, x) =>
    if (x.workerId, x.workerSessionId) ≠ (workerId, workerSessionId) then
      .error (.permission "inference lease belongs to a different worker session")
    else do
      let x ← x.acceptAny b.bodyLimitBytes reply
      if x.closed then .ok (.stop, b.set h x)
      else match x.activeRequest with
        | some q => .ok (.request q, b.set h x)
        | none => match x.requests with
          | q :: rest => .ok (.request q, b.set h (x.take q rest))
          | [] => .ok (.suspended, { b.set h x with suspended := h :: b.suspended })

/-! ## Events -/

inductive Event
  | register (leaseId workerId workerSessionId : OpaqueId)
  | close (leaseId : OpaqueId)
  | request (leaseId : OpaqueId) (q : InferenceRequest)
  | finish (h : Nat) (requestId : OpaqueId)
  | cancel (h : Nat) (requestId : OpaqueId)
  | exchange (leaseId workerId workerSessionId : OpaqueId) (reply : Option InferenceReply)
  | resume (h : Nat)
  | timeOut (h : Nat)

inductive Answer
  | done
  | offer (o : Offer)
  | waiting
  | outcome (w : Waiter)
  | raised (e : Error)
deriving DecidableEq

/-- A call that raises leaves the broker as it was. -/
def answer {α : Type} (b : InferenceBroker) (f : α → Answer × InferenceBroker) : Except Error α → Answer × InferenceBroker
  | .ok a => f a
  | .error e => (.raised e, b)

/-- No request has drawn the id, and no reply has guessed it. -/
def Fresh (b : InferenceBroker) (i : OpaqueId) : Prop := i ∉ b.drawn ∧ ∀ x ∈ b.exchanges, x.replies i = none

instance (b : InferenceBroker) (i : OpaqueId) : Decidable (b.Fresh i) := by unfold Fresh; infer_instance

def step (b : InferenceBroker) : Event → Option (Answer × InferenceBroker)
  | .register l w s => some (b.answer (fun b => (.done, b)) (b.register l w s))
  | .close l => some (.done, b.close l)
  | .request l q => if b.Fresh q.requestId then some (b.answer (fun b => (.waiting, b)) (b.request l q)) else none
  | .finish h i => (b.exchanges[h]?).bind fun x => (x.waiters i).bind fun w =>
    if w = .pending then none
    else some (.outcome w, b.set h { x with waiters := Function.update x.waiters i none })
  | .cancel h i => (b.exchanges[h]?).bind fun x =>
    if x.waiters i = some .pending then
      some (.done, b.set h { x with waiters := Function.update x.waiters i (some .cancelled) })
    else none
  | .exchange l w s reply => some (b.answer (fun p => (.offer p.1, p.2)) (b.exchange l w s reply))
  | .resume h => if h ∈ b.suspended then (b.exchanges[h]?).bind fun x =>
      match x.requests with
      | [] => none
      | q :: rest => some (.offer (.request q), { b.set h (x.take q rest) with suspended := b.suspended.erase h })
    else none
  | .timeOut h => if h ∈ b.suspended then some (.offer .wait, { b with suspended := b.suspended.erase h }) else none

/-- The state after an event. -/
def next (b : InferenceBroker) (e : Event) : Option InferenceBroker := (b.step e).map Prod.snd

/-- The states a broker's runs lead to. -/
def Reachable (b : InferenceBroker) : Prop := ∃ limit events, Machine.run next (new limit) events = some b

end InferenceBroker

end Aether
