import AetherRl.TxnErrors
import AetherRl.RepoSound
/-!
# RepoErrors — the errors no check of the coordinator raises

A message's validator and an arithmetic overflow are not raised by the coordinator on purpose: they come out of a
computation.  Here is what each body computes, so what has to be shown for it to spare such an error.
-/
namespace Aether

/-- Raised by a computation, not by a check. -/
def Error.Computed : Error → Prop
  | .validation | .overflow => True
  | _ => False

theorem Error.Computed.ne {e : Error} (he : e.Computed) (e' : Error) (h : ¬ e'.Computed) : e' ≠ e := fun h' => h (h' ▸ he)

theorem computed_validation : Error.Computed .validation := trivial

theorem computed_overflow : Error.Computed .overflow := trivial

namespace Repo

open Txn
open Tables

section
variable {e : Error} (he : e.Computed) {d : Db} {now : Time}
include he

/-! ## Statements and rows -/

omit he in
@[simp] theorem spares_tables : Spares e tables d := by simp [Spares, tables]

theorem spares_exec (f : Tables → Tables) : Spares e (exec f) d := by
  unfold Spares exec
  split
  · simp
  · simpa using he.ne .integrity not_false

theorem spares_assignment (i : OpaqueId) : Spares e (assignment i) d := by
  simp [assignment, he.ne (.notFound _) not_false]

theorem spares_recomputeGroup (g : OpaqueId) : Spares e (recomputeGroup g) d := by
  simp [recomputeGroup, spares_exec he]

theorem spares_recomputeGroups : Spares e recomputeGroups d := by
  simp only [recomputeGroups, spares_bind, spares_tables, true_and]
  exact fun _ _ _ => spares_forEach _ _ fun g _ _ => spares_recomputeGroup he g

/-! ## Expiry and stale work -/

theorem spares_retryOrTerminal (env : Env) {a : AssignmentRow} (hd : retryDelay env a.attemptCount ≠ .error e)
    (f : Option FailureEnvelope) (digest : Option Digest) (i : OpaqueId) :
    Spares e (retryOrTerminal env a now f digest i) d := by
  simp only [retryOrTerminal, spares_bind, spares_orThrow]
  refine ⟨hd, fun delay s _ => ?_⟩
  split <;> simp [spares_exec he]

theorem spares_terminalizeWithoutEnvelope (a : AssignmentRow) (k : Outcome) :
    Spares e (terminalizeWithoutEnvelope a k now) d := by
  simp [terminalizeWithoutEnvelope, spares_exec he, spares_recomputeGroup he]

theorem spares_expireOne (env : Env) {x : ExpiredLease} (hd : retryDelay env x.assignment.attemptCount ≠ .error e) :
    Spares e (expireOne env now x) d := by
  simp only [expireOne, spares_bind]
  refine ⟨spares_exec he _, fun _ s _ => ?_⟩
  split
  · simp [spares_exec he]
  · simp [spares_retryOrTerminal he env hd]

/-- **Expiry computes the delays of the leases that expire.** -/
theorem spares_expireLeasesBody (env : Env)
    (hd : ∀ x ∈ expiredLeases d.toTables now, retryDelay env x.assignment.attemptCount ≠ .error e) :
    Spares e (expireLeasesBody env now) d := by
  simp only [expireLeasesBody, spares_bind, spares_tables, true_and, returns_tables]
  rintro _ _ ⟨rfl, rfl⟩
  refine ⟨spares_forEach _ _ fun x hx s => spares_expireOne he env (hd x hx), fun _ s _ => ?_⟩
  rintro _ _ ⟨rfl, rfl⟩
  refine ⟨spares_forEach _ _ fun a _ s => spares_terminalizeWithoutEnvelope he a _, fun _ s _ => ?_⟩
  exact ⟨spares_recomputeGroups he, fun _ _ _ => spares_pure _⟩

theorem spares_cancelStaleAssignment (a : AssignmentRow) : Spares e (cancelStaleAssignment now a) d := by
  simp only [cancelStaleAssignment, spares_bind]
  refine ⟨spares_exec he _, fun _ s _ => ?_⟩
  split
  · simp [spares_exec he]
  · split
    · exact spares_exec he _
    · exact spares_pure _

theorem spares_cancelStaleTrainGroups (lag : Int) : Spares e (cancelStaleTrainGroups lag now) d := by
  simp only [cancelStaleTrainGroups, spares_bind, spares_tables, spares_orRaise, true_and]
  refine fun _ s _ => ⟨fun _ => he.ne .type not_false, fun _ s _ _ _ _ => ?_⟩
  refine spares_forEach _ _ fun g _ s => ?_
  simp only [cancelStaleGroup, spares_bind, spares_tables, true_and]
  refine fun _ s _ => ⟨spares_forEach _ _ fun a _ s => spares_cancelStaleAssignment he a, fun _ s _ => ?_⟩
  exact spares_recomputeGroup he _

theorem spares_reconcileStaleWork : Spares e (reconcileStaleWork now) d := by
  simp only [reconcileStaleWork, spares_bind, spares_tables, true_and]
  intro _ s _
  split
  · exact spares_cancelStaleTrainGroups he _
  · exact spares_pure _

theorem spares_compatibleSession (i j : OpaqueId) : Spares e (compatibleSession i j) d := by
  simp [compatibleSession, he.ne (.incompatibleWorker _) not_false]

theorem spares_validatePolicyIds (is : List OpaqueId) : Spares e (validatePolicyIds is) d := by
  simp [validatePolicyIds, he.ne (.incompatibleWorker _) not_false]

theorem spares_grantToRequest (request : LeaseRequest) (duration : Time) (i : OpaqueId) (preference : Time) :
    Spares e (grantToRequest request duration i preference now) d := by
  simp only [grantToRequest, grantLease, completeRequest, spares_bind, spares_tables, true_and]
  intro t s _
  split
  · exact spares_pure _
  · simp [spares_exec he]

end

/-- **A transaction raises what its body does**, or dies. -/
theorem wp_transaction_spares {α : Type} {body : Body α} {w : World} {e : Error} {Q : α → World → Prop}
    (hq : ∀ a d n, Returns body w.db a d → Q a { w with db := d, crashAfter := n }) (hb : Spares e body w.db)
    (hc : Error.crash ≠ e) : Wp (transaction body) Q (fun e' _ => e' ≠ e) w := by
  unfold Wp transaction
  cases h : body w.db with
  | error e' => exact fun he => hb (he ▸ h)
  | ok p =>
    obtain ⟨a, d⟩ := p
    simp only
    rcases durable_cases (fun w => (.ok a, { w with db := d })) w with hd | ⟨n, hd⟩ <;> rw [hd]
    · exact hc
    · exact hq a d n h

/-- A delay is refused for its size only. -/
theorem retryDelay_error {env : Env} {n : Nat} {e : Error} (h : retryDelay env n = .error e) : e = .overflow := by
  unfold retryDelay at h
  split at h
  · cases h
  · split at h
    · exact (Except.error.inj h).symm
    · cases h

end Repo
end Aether
