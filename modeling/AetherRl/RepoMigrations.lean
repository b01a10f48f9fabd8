import AetherRl.RepoGroup
/-!
# RepoMigrations — the migrations to schemas 4 and 5

The tables of schemas 3 and 4 and what the statements of `MIGRATIONS[4]` and `MIGRATIONS[5]` make of them.  Schema 4
numbers the groups and gives each a creation key; schema 5 reads a group's source back out of its key.
-/
namespace Aether

open Repo (creationKey manualKey)

/-! ## Schema 3 -/

structure GroupRow3 where
  groupId : OpaqueId
  policyId : OpaqueId
  kind : Kind
  environmentId : OpaqueId
  environmentRevision : String
  task : JsonText
  sampling : JsonText
  groupSize : Nat
  state : GroupState
  createdAt : Time
deriving DecidableEq

structure Tables3 where
  run : Option RunRow
  policies : List PolicyRow
  workers : List WorkerRow
  sessions : List SessionRow
  groups : List GroupRow3
  assignments : List AssignmentRow
  leases : List LeaseRow
  results : List ResultRow
  failures : List FailureRow
  outcomes : List OutcomeRow
deriving DecidableEq

/-! ## Schema 4 -/

structure GroupRow4 extends GroupRow3 where
  creationKey : String
  sequence : Nat
deriving DecidableEq

structure Tables4 where
  run : Option RunRow
  policies : List PolicyRow
  workers : List WorkerRow
  sessions : List SessionRow
  groups : List GroupRow4
  assignments : List AssignmentRow
  leases : List LeaseRow
  results : List ResultRow
  failures : List FailureRow
  outcomes : List OutcomeRow
  scheduler : SchedulerRow
  sources : List SourceRow
  cancellations : List CancellationRow
  leaseCancellations : List LeaseCancellationRow
  requests : List RequestRow
deriving DecidableEq

/-- The groups that `COUNT(*)` counts for a target. -/
def Counted (candidate target : GroupRow3) : Prop :=
  candidate.createdAt < target.createdAt ∨
    candidate.createdAt = target.createdAt ∧ candidate.groupId ≤ target.groupId

instance (candidate target : GroupRow3) : Decidable (Counted candidate target) := inferInstanceAs (Decidable (_ ∨ _))

/-- The two updates of `rollout_groups`. -/
def numberGroup (groups : List GroupRow3) (target : GroupRow3) : GroupRow4 :=
  { target with
    creationKey := "manual:" ++ target.groupId
    sequence := groups.countP fun candidate => decide (Counted candidate target) }

/-- `COALESCE(MAX(sequence), 0) + 1`. -/
def nextSequence (groups : List GroupRow4) : Nat := ((groups.map (·.sequence)).max?.getD 0) + 1

/-- `MIGRATIONS[4]`. -/
def migrate4 (t : Tables3) : Tables4 :=
  let groups := t.groups.map (numberGroup t.groups)
  ⟨t.run, t.policies, t.workers, t.sessions, groups, t.assignments, t.leases, t.results, t.failures, t.outcomes,
    ⟨nextSequence groups, none, none⟩, [], [], [], []⟩

/-! ## Schema 5 -/

/-- `'source:' || source_id || ':occurrence:'`. -/
def sourceMark (sourceId : OpaqueId) : String := "source:" ++ sourceId ++ ":occurrence:"

/-- `creation_key LIKE 'source:%'`, which knows no case. -/
def likeSource (key : String) : Prop := (key.toList.take 7).map Char.toLower = "source:".toList

/-- `substr(creation_key, 1, length(mark)) = mark`; ids have no NUL, at which `length` would stop. -/
def startsWithMark (key mark : String) : Prop := key.toList.take mark.toList.length = mark.toList

instance (key : String) : Decidable (likeSource key) := inferInstanceAs (Decidable (_ = _))
instance (key mark : String) : Decidable (startsWithMark key mark) := inferInstanceAs (Decidable (_ = _))

/-- The sources the key may be of, the longest id first. -/
def candidates (sources : List OpaqueId) (key : String) : List OpaqueId :=
  Rows.orderBy (fun i : OpaqueId => OrderDual.toDual i.toList.length)
    (sources.filter fun i => decide (startsWithMark key (sourceMark i)))

/-- The `source_id` a creation key is backfilled with. -/
def backfill (sources : List OpaqueId) (key : String) : Option OpaqueId :=
  if likeSource key then (candidates sources key).head? else none

def GroupRow4.withSource (g : GroupRow4) (sourceId : Option OpaqueId) : GroupRow :=
  ⟨g.groupId, g.policyId, g.kind, g.environmentId, g.environmentRevision, g.task, g.sampling, g.groupSize, g.state,
    g.createdAt, g.creationKey, g.sequence, sourceId⟩

/-- `MIGRATIONS[5]`. -/
def migrate5 (t : Tables4) : Tables :=
  ⟨t.run, t.policies, t.workers, t.sessions,
    t.groups.map fun g => g.withSource (backfill (t.sources.map (·.sourceId)) g.creationKey),
    t.assignments, t.leases, t.results, t.failures, t.outcomes, t.scheduler, t.sources, t.cancellations,
    t.leaseCancellations, t.requests, [], [], []⟩

/-- A group without the column of schema 5. -/
def GroupRow.schema4 (g : GroupRow) : GroupRow4 :=
  ⟨⟨g.groupId, g.policyId, g.kind, g.environmentId, g.environmentRevision, g.task, g.sampling, g.groupSize, g.state,
    g.createdAt⟩, g.creationKey, g.sequence⟩

/-- Tables without the column and the tables of schema 5: what the coordinator of schema 4 holds. -/
def Tables.schema4 (t : Tables) : Tables4 :=
  ⟨t.run, t.policies, t.workers, t.sessions, t.groups.map GroupRow.schema4, t.assignments, t.leases, t.results,
    t.failures, t.outcomes, t.scheduler, t.sources, t.cancellations, t.leaseCancellations, t.requests⟩

/-! ## What schema 3 keeps -/

/-- The tables, seen as tables of schema 5 with nothing in the columns added later. -/
def Tables3.bare (t : Tables3) : Tables :=
  { Tables.empty with
    run := t.run, policies := t.policies, workers := t.workers, sessions := t.sessions
    groups := t.groups.map fun g => GroupRow4.withSource ⟨g, "", 0⟩ none
    assignments := t.assignments, leases := t.leases, results := t.results, failures := t.failures
    outcomes := t.outcomes }

/-- The constraints of schema 3. -/
structure Schema3Ok (t : Tables3) : Prop where
  run : RunOk t.bare
  policies : PoliciesOk t.bare
  sessions : SessionsOk t.bare
  groupKey : (t.groups.map (·.groupId)).Nodup
  groupPolicy : ∀ g ∈ t.groups, ∃ p ∈ t.policies, p.policyId = g.policyId
  groupSize : ∀ g ∈ t.groups, 0 < g.groupSize
  assignments : AssignmentsOk t.bare
  leases : LeasesOk t.bare
  results : ResultsOk t.bare
  failures : FailuresOk t.bare
  outcomes : OutcomesOk t.bare

/-- A database of schema 3. -/
structure Db3 extends Tables3 where
  ok : Schema3Ok toTables3

end Aether
