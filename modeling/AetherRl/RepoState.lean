import Mathlib.Order.Monotone.Basic
import AetherRl.Txn
import AetherRl.RepoSchema
/-!
# RepoState — statements, transactions, the clock and the crash

A statement is a function on tables run by `exec`: it succeeds when what it leaves satisfies the schema and raises
`IntegrityError` otherwise, which is what immediate constraints are.  A body of statements commits whole
(`transaction`), reading and committing against a `World`: the database, the result spool, and how often `clock()` was
read.  A process may die between two durable steps; `crashAfter` counts the ones it still takes, and the step it dies
at raises `crash`, which no `finally` sees.
-/
namespace Aether

/-- The exceptions the coordinator raises, with their texts where the source gives one. -/
inductive Error
  | conflict (message : String)
  | invalidState (message : String)
  | incompatibleWorker (message : String)
  | capacity (message : String)
  | artifactCorruption (message : String)
  | notFound (message : String)
  | value (message : String)
  | immutableArtifactConflict
  | fileExists
  | integrity
  | validation
  | overflow
  | operational
  | type
  | crash
deriving DecidableEq, Repr

/-- `protocol.py`'s encoders and SHA-256, and the decoders that read results back. -/
structure Codec where
  sha256 : Bytes → Digest
  identityBytes : PolicyIdentity → Bytes
  requestBytes : LeaseRequest → Bytes
  failureBytes : FailureEnvelope → Bytes
  resultEnvelopeBytes : ResultEnvelope → Bytes
  decodeResultEnvelope : Bytes → Option ResultEnvelope
  legacyResultBytes : ResultEnvelope → Bytes
  decodeLegacyResult : Bytes → Option ResultEnvelope

def Codec.policyManifestDigest (c : Codec) (m : PolicyManifest) : Digest := c.sha256 (c.identityBytes m.identity)

def Codec.requestDigest (c : Codec) (r : LeaseRequest) : Digest := c.sha256 (c.requestBytes r)

/-- What a repository is constructed with: its codec, its clock and its retry delays.  The `n`-th reading of the clock is
`clock n`, and it does not go back. -/
structure Env where
  codec : Codec
  clock : Nat → Time
  clock_mono : Monotone clock
  retryBaseSeconds : Time
  retryMaxSeconds : Time
  base_pos : 0 < retryBaseSeconds
  max_pos : 0 < retryMaxSeconds

/-- The two directories of `AtomicSpool`, as file names with contents. -/
structure Spool where
  incoming : List (String × Bytes)
  results : List (String × Bytes)
deriving DecidableEq

structure World where
  db : Db
  spool : Spool
  reads : Nat
  crashAfter : Option Nat
  torn : Nat

/-- A migrated database and an empty spool. -/
def World.fresh : World := ⟨Db.empty, ⟨[], []⟩, 0, none, 0⟩

abbrev Body (α : Type) := Txn.Body Db Error α
abbrev Method (α : Type) := Txn.Method World Error α

open Txn (Returns Wp returns_bind returns_pure returns_get raiseIf orRaise orThrow forEach Keeps)

/-! ## Statements -/

/-- The tables, as a `SELECT` reads them. -/
def tables : Body Tables := fun d => .ok (d.toTables, d)

/-- **One writing statement**: its result is kept when it satisfies every constraint. -/
def exec (f : Tables → Tables) : Body Unit := fun d =>
  if h : SchemaOk (f d.toTables) then .ok ((), ⟨f d.toTables, h⟩) else .error .integrity

@[simp] theorem returns_tables (d d' : Db) (t : Tables) :
    Returns tables d t d' ↔ t = d.toTables ∧ d' = d := by
  simp only [Returns, tables, Except.ok.injEq, Prod.mk.injEq]
  exact and_congr eq_comm eq_comm

/-- **A statement that did not raise left exactly its result.** -/
@[simp] theorem returns_exec (f : Tables → Tables) (d d' : Db) (u : Unit) :
    Returns (exec f) d u d' ↔ d'.toTables = f d.toTables := by
  unfold Returns exec
  constructor
  · intro h
    split at h
    · simp only [Except.ok.injEq, Prod.mk.injEq, true_and] at h
      rw [← h]
    · cases h
  · intro h
    have hok : SchemaOk (f d.toTables) := h ▸ d'.ok
    rw [dif_pos hok]
    exact congrArg (fun x => Except.ok ((), x)) (Db.ext_tables h.symm)

/-! ## Methods over the world -/

/-- `self.clock()`. -/
def readClock (env : Env) : Method Time := fun w => (.ok (env.clock w.reads), { w with reads := w.reads + 1 })

def readClocks (env : Env) : Nat → Method (List Time)
  | 0 => pure []
  | n + 1 => do
    let now ← readClock env
    let nows ← readClocks env n
    pure (now :: nows)

/-- **One durable step**: what a crash leaves done or not begun. -/
def durable {α : Type} (f : World → Except Error α × World) : Method α := fun w =>
  match w.crashAfter with
  | none => f w
  | some 0 => (.error .crash, w)
  | some (n + 1) => f { w with crashAfter := some n }

/-- `with self._transaction():` a body that raises is rolled back, one that does not is committed. -/
def transaction {α : Type} (body : Body α) : Method α := fun w =>
  match body w.db with
  | .error e => (.error e, w)
  | .ok (a, d) => durable (fun w => (.ok a, { w with db := d })) w

/-- A `SELECT` outside a transaction. -/
def select {α : Type} (body : Body α) : Method α := fun w =>
  match body w.db with
  | .error e => (.error e, w)
  | .ok (a, _) => (.ok a, w)

/-- `try: body finally: cleanup`; a crash runs no `finally`. -/
def tryFinally {α : Type} (body : Method α) (cleanup : Method Unit) : Method α := fun w =>
  match body w with
  | (.error .crash, w') => (.error .crash, w')
  | (r, w') => match cleanup w' with
    | (.error e, w'') => (.error e, w'')
    | (.ok (), w'') => (r, w'')

/-- Raise outside a transaction when a check fails. -/
def raiseUnless (c : Prop) [Decidable c] (e : Error) : Method Unit := if c then pure () else throw e

section
variable {α : Type} {Q : α → World → Prop} {E : Error → World → Prop} {w : World}

@[simp] theorem wp_readClock (env : Env) {Q : Time → World → Prop} :
    Wp (readClock env) Q E w ↔ Q (env.clock w.reads) { w with reads := w.reads + 1 } := Iff.rfl

@[simp] theorem wp_raiseUnless (c : Prop) [Decidable c] (e : Error) {Q : Unit → World → Prop} :
    Wp (raiseUnless c e) Q E w ↔ (c → Q () w) ∧ (¬ c → E e w) := by
  unfold raiseUnless
  by_cases hc : c <;> simp [hc]

theorem wp_select (body : Body α) : Wp (select body) Q E w ↔
    (∀ a d, Returns body w.db a d → Q a w) ∧ ∀ e, body w.db = .error e → E e w := by
  unfold Wp select Returns
  cases hb : body w.db with
  | error e => simp
  | ok p =>
    obtain ⟨a, d⟩ := p
    simp

end

/-- **A durable step dies before it begins, or runs.** -/
theorem durable_cases {α : Type} (f : World → Except Error α × World) (w : World) :
    durable f w = (.error .crash, w) ∨ ∃ n, durable f w = f { w with crashAfter := n } := by
  unfold durable
  split
  · exact Or.inr ⟨w.crashAfter, rfl⟩
  · exact Or.inl rfl
  · rename_i n _; exact Or.inr ⟨some n, rfl⟩

/-- **What a committed body did to the database, and a raise or a crash did not.** -/
theorem transaction_db {α : Type} (body : Body α) (w : World) :
    (transaction body w).2.db = w.db ∨ ∃ a, Returns body w.db a (transaction body w).2.db := by
  unfold transaction
  cases hb : body w.db with
  | error e => exact Or.inl rfl
  | ok p =>
    obtain ⟨a, d⟩ := p
    simp only
    rcases durable_cases (fun w => (.ok a, { w with db := d })) w with h | ⟨n, h⟩
    · exact Or.inl (by rw [h])
    · exact Or.inr ⟨a, by rw [h]; exact hb⟩

/-- **A transaction commits its body, raises what its body raises, or dies.** -/
theorem wp_transaction_cases {α : Type} {body : Body α} {w : World} {Q : α → World → Prop} {E : Error → World → Prop}
    (hq : ∀ a d n, Returns body w.db a d → Q a { w with db := d, crashAfter := n })
    (he : ∀ e, body w.db = .error e → E e w) (hc : E .crash w) : Wp (transaction body) Q E w := by
  unfold Wp transaction
  cases hb : body w.db with
  | error e => exact he e hb
  | ok p =>
    obtain ⟨a, d⟩ := p
    simp only
    rcases durable_cases (fun w => (.ok a, { w with db := d })) w with h | ⟨n, h⟩ <;> rw [h]
    · exact hc
    · exact hq a d n hb

/-- **A transaction that returns has committed its body**; one that raises or dies has done nothing. -/
theorem wp_transaction {α : Type} {body : Body α} {w : World} {Q : α → World → Prop} {E : Error → World → Prop}
    (hq : ∀ a d n, Returns body w.db a d → Q a { w with db := d, crashAfter := n }) (he : ∀ e, E e w) :
    Wp (transaction body) Q E w :=
  wp_transaction_cases hq (fun e _ => he e) (he .crash)

/-- A transaction of a process that does not die in it does what its body does. -/
theorem transaction_ok {α : Type} {body : Body α} {w : World} {a : α} {d : Db} (hw : w.crashAfter = none)
    (h : Returns body w.db a d) : transaction body w = (.ok a, { w with db := d }) := by
  unfold transaction durable
  rw [show body w.db = .ok (a, d) from h]
  simp only [hw]

theorem wp_transaction_ok {α : Type} {body : Body α} {w : World} {Q : α → World → Prop} {E : Error → World → Prop} {a : α}
    {d : Db} (hw : w.crashAfter = none) (h : Returns body w.db a d) (hq : Q a { w with db := d }) :
    Wp (transaction body) Q E w := by
  unfold Wp
  rw [transaction_ok hw h]
  exact hq

/-- A transaction whose body returns commits it, or dies. -/
theorem wp_transaction_returns {α : Type} {body : Body α} {w : World} {Q : α → World → Prop} {E : Error → World → Prop}
    {a : α} {d : Db} (h : Returns body w.db a d) (hq : ∀ n, Q a { w with db := d, crashAfter := n }) (he : E .crash w) :
    Wp (transaction body) Q E w := by
  unfold Wp transaction
  rw [show body w.db = .ok (a, d) from h]
  simp only
  rcases durable_cases (fun w => (.ok a, { w with db := d })) w with h | ⟨n, h⟩ <;> rw [h]
  · exact he
  · exact hq n

theorem wp_transaction_error {α : Type} {body : Body α} {w : World} {Q : α → World → Prop} {E : Error → World → Prop}
    {e : Error} (h : body w.db = .error e) (he : E e w) : Wp (transaction body) Q E w := by
  unfold Wp transaction
  rw [h]
  exact he

end Aether
