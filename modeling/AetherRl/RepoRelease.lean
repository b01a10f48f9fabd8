import AetherRl.RepoOutcomes
/-!
# RepoRelease — the release of a lease its worker was never offered

`release_unoffered_lease` deletes the lease's row while its assignment, and the request it was granted to, still refer to
it.  Foreign keys are immediate, so the delete raises and the transaction is rolled back: on every lease it is meant
for, the release does nothing.
-/
namespace Aether

open Repo

/-- An active lease, current for its assignment and granted to a request. -/
def Unoffered (t : Tables) (i : OpaqueId) : Prop :=
  ∃ l ∈ t.leases, l.leaseId = i ∧ l.state = .active ∧
    (∃ a ∈ t.assignments, a.assignmentId = l.assignmentId ∧ a.currentLeaseId = some i) ∧
    ∃ r ∈ t.requests, r.state = .leased ∧ r.leaseId = some i

instance (t : Tables) (i : OpaqueId) : Decidable (Unoffered t i) := by unfold Unoffered; infer_instance

/-- What a release is for: the lease is gone and its slot with it, the assignment waits again as before the grant, no
request refers to a lease that is not there, and nothing else changed. -/
structure Released (i : OpaqueId) (now : Time) (t t' : Tables) : Prop where
  leases : t'.leases = t.leases.filter (fun l => decide (l.leaseId ≠ i))
  assignments : t'.assignments = t.assignments.map (fun a => if a.currentLeaseId = some i then
    { a with state := .retryWait, attemptCount := a.attemptCount - 1, currentLeaseId := none, availableAt := now } else a)
  requests : ∀ r ∈ t'.requests, ∀ j ∈ r.leaseId, ∃ l ∈ t'.leases, l.leaseId = j
  others : ∀ r ∈ t.requests, r.leaseId ≠ some i → r ∈ t'.requests

/-- The release returns, and has done what it is for. -/
def Releases (env : Env) (i : OpaqueId) (w : World) : Prop :=
  ∃ w', releaseUnofferedLease env i w = (.ok (), w') ∧ Released i (env.clock w.reads) w.db.toTables w'.db.toTables

theorem releaseUnofferedLeaseBody_raises {d : Db} {i : OpaqueId} (h : Unoffered d.toTables i) (now : Time) :
    releaseUnofferedLeaseBody i now d = .error .integrity := by
  obtain ⟨l, hl, hli, hs, ⟨a, ha, hal, hc⟩, _⟩ := h
  have hget : d.lease? i = some l := (Rows.get_eq_some _ d.ok.leases.key).2 ⟨hl, hli⟩
  have haget : d.assignment? l.assignmentId = some a := (Rows.get_eq_some _ d.ok.assignments.key).2 ⟨ha, hal⟩
  have hraise := releaseLease_raises ha hc l.assignmentId now
  have hpure : ∀ {α : Type} (a : α) (d : Db), (pure a : Body α) d = .ok (a, d) := fun _ _ => rfl
  simp only [releaseUnofferedLeaseBody, Repo.assignment, bind, StateT.bind, tables, Except.bind, hget, hs, if_true, haget,
    Txn.orRaise, hpure, hc]
  exact hraise

/-- **A release never does what it is for**: it raises `IntegrityError` and leaves the database as it was. -/
theorem release_raises (env : Env) (steps : List Step) (i : OpaqueId) (h : Unoffered (reached env steps).db.toTables i) :
    (releaseUnofferedLease env i (reached env steps)).1 = .error .integrity ∧
      (releaseUnofferedLease env i (reached env steps)).2.db = (reached env steps).db ∧
      ¬ Releases env i (reached env steps) := by
  have hrun : releaseUnofferedLease env i (reached env steps) =
      (.error .integrity, { reached env steps with reads := (reached env steps).reads + 1 }) := by
    show transaction (releaseUnofferedLeaseBody i _) { reached env steps with reads := _ } = _
    unfold transaction
    rw [releaseUnofferedLeaseBody_raises h]
  refine ⟨by rw [hrun], by rw [hrun], ?_⟩
  rintro ⟨w', hw, _⟩
  rw [hrun] at hw
  cases hw

theorem release_raises_sample : Unoffered (reached Sample.env Sample.leased).db.toTables "lease-b" ∧
    (releaseUnofferedLease Sample.env "lease-b" (reached Sample.env Sample.leased)).1 = .error .integrity := by
  have h : Unoffered (reached Sample.env Sample.leased).db.toTables "lease-b" := by decide +kernel
  exact ⟨h, (release_raises Sample.env Sample.leased "lease-b" h).1⟩

/-- The lease of the sample's request cannot be released. -/
theorem not_every_release_frees : ¬ ∀ (env : Env) (steps : List Step) (i : OpaqueId),
    Unoffered (reached env steps).db.toTables i → Releases env i (reached env steps) := by
  intro h
  obtain ⟨w', hw, _⟩ := h Sample.env Sample.leased "lease-b" (by decide +kernel)
  have hraised : (releaseUnofferedLease Sample.env "lease-b" (reached Sample.env Sample.leased)).1 ≠ .ok () := by
    decide +kernel
  rw [hw] at hraised
  exact hraised rfl

end Aether
