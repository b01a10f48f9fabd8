import AetherRl.RepoLeaseSound
/-!
# RepoResultSound — terminal envelopes keep the invariant

An accepted envelope names the lease its assignment is held under; a result ends the assignment as succeeded, a failure
retries it or ends it as failed.  What a claim or a recorded group changes of a result is its processing state alone.
-/
namespace Aether

open Txn (Returns Writes returns_bind returns_pure returns_orRaise returns_raiseIf)
open Tables Repo
open Life (Moves Move)

variable {now : Time}

/-- **An envelope that is accepted names the assignment's current, active lease.** -/
theorem returns_validateActiveEnvelope {e : EnvelopeKey} {t : Time} {d d' : Db} {r : AssignmentRow × LeaseRow}
    (h : Returns (validateActiveEnvelope e t) d r d') :
    d' = d ∧ d.assignment? e.assignmentId = some r.1 ∧ d.lease? e.leaseId = some r.2 ∧
      r.2.assignmentId = e.assignmentId ∧ r.2.state = .active ∧ r.1.currentLeaseId = some e.leaseId := by
  simp only [validateActiveEnvelope, returns_bind, returns_tables, returns_orRaise, returns_raiseIf, returns_pure] at h
  obtain ⟨a, _, ha, _, _, ⟨rfl, rfl⟩, l, _, ⟨hl, rfl⟩, _, _, ⟨hm, rfl⟩, _, _, ⟨_, rfl⟩, _, _, ⟨_, rfl⟩, rfl, rfl⟩ := h
  obtain ⟨ha, rfl⟩ := returns_assignment ha
  simp only [not_or, not_not] at hm
  exact ⟨rfl, ha, hl, hm.1, hm.2.2.2.2.1, hm.2.2.2.2.2.2⟩

theorem returns_existingTerminal {i j : OpaqueId} {g : Digest} {d d' : Db} {r : Option AcceptanceRecord}
    (h : Returns (existingTerminal i j g) d r d') : d' = d ∧
      ((r = none ∧ d.result? i = none ∧ d.outcome? i = none) ∨
        ∃ row, d.result? i = some row ∧ row.leaseId = j ∧ row.envelopeDigest = g ∧ r = some ⟨i, g, true, true⟩) := by
  simp only [existingTerminal, returns_bind, returns_tables] at h
  obtain ⟨_, d₀, ⟨rfl, rfl⟩, h⟩ := h
  cases hr : d₀.result? i with
  | none =>
    rw [hr] at h
    simp only [returns_bind, returns_tables, returns_raiseIf, returns_pure] at h
    obtain ⟨_, _, ⟨rfl, rfl⟩, _, _, ⟨ho, rfl⟩, rfl, rfl⟩ := h
    rw [Option.not_isSome_iff_eq_none] at ho
    exact ⟨rfl, Or.inl ⟨rfl, rfl, ho⟩⟩
  | some row =>
    rw [hr] at h
    simp only [returns_bind, returns_raiseIf, returns_pure] at h
    obtain ⟨_, _, ⟨hm, rfl⟩, rfl, rfl⟩ := h
    rw [not_or, not_not, not_not] at hm
    exact ⟨rfl, Or.inr ⟨row, rfl, hm.1, hm.2, rfl⟩⟩

theorem returns_validateResult {e : ResultEnvelope} {t : Time} {d d' : Db} {a : AssignmentRow}
    (h : Returns (validateResult e t) d a d') :
    d' = d ∧ d.assignment? e.assignmentId = some a ∧ a.currentLeaseId = some e.leaseId := by
  simp only [validateResult, returns_bind, returns_raiseIf, returns_pure] at h
  obtain ⟨r, _, hr, _, _, ⟨_, rfl⟩, _, _, ⟨_, rfl⟩, rfl, rfl⟩ := h
  obtain ⟨rfl, ha, _, _, _, hc⟩ := returns_validateActiveEnvelope hr
  exact ⟨rfl, ha, hc⟩

/-- The row an accepted result is stored as. -/
def acceptedRow (e : ResultEnvelope) (digest : Digest) (path : String) (size : Nat) (t : Time) : ResultRow :=
  ⟨e.assignmentId, e.leaseId, digest, path, size, t, .pending⟩

/-- **What a result commits**: nothing when it is there already, else one row and the move it makes. -/
theorem returns_acceptResultBody {e : ResultEnvelope} {digest : Digest} {path : String} {size : Nat} {t : Time}
    {d d' : Db} {r : AcceptanceRecord} (h : Returns (acceptResultBody e digest path size t) d r d') :
    (d' = d ∧ r = ⟨e.assignmentId, digest, true, true⟩ ∧
      ∃ row, d.result? e.assignmentId = some row ∧ row.leaseId = e.leaseId ∧ row.envelopeDigest = digest) ∨
    (r = ⟨e.assignmentId, digest, false, true⟩ ∧ d.result? e.assignmentId = none ∧ ∃ a d₁,
      d.assignment? e.assignmentId = some a ∧ a.currentLeaseId = some e.leaseId ∧
      d₁.toTables = setCancellation e.assignmentId (fun c => { c with terminal := true })
        (setAssignment e.assignmentId (fun a => { a with state := .succeeded, currentLeaseId := none })
          (setLease e.leaseId (fun l => { l with state := .succeeded })
            (insertOutcome ⟨e.assignmentId, .result, some e.leaseId, some digest, t⟩
              (insertResult (acceptedRow e digest path size t) d.toTables)))) ∧
      Returns (recomputeGroup a.groupId) d₁ () d') := by
  simp only [acceptResultBody, returns_bind] at h
  obtain ⟨found, d₀, hf, h⟩ := h
  obtain ⟨rfl, ⟨rfl, hno, _⟩ | ⟨row, hrow, hl, hd, rfl⟩⟩ := returns_existingTerminal hf
  · simp only [returns_bind, returns_exec, returns_pure] at h
    obtain ⟨a, _, ha, _, d₁, h₁, _, d₂, h₂, _, d₃, h₃, _, d₄, h₄, _, d₅, h₅, _, d₆, h₆, rfl, rfl⟩ := h
    obtain ⟨rfl, ha, hc⟩ := returns_validateResult ha
    exact Or.inr ⟨rfl, hno, a, d₅, ha, hc, by rw [h₅, h₄, h₃, h₂, h₁]; rfl, h₆⟩
  · rw [returns_pure] at h
    exact Or.inl ⟨h.2, h.1, row, hrow, hl, hd⟩

/-- **A result ends its assignment as succeeded**, or was there already. -/
theorem steady_acceptResultBody (e : ResultEnvelope) (digest : Digest) (path : String) (size : Nat) (t : Time) :
    Steady now (acceptResultBody e digest path size t) := by
  intro d r d' hs h
  rcases returns_acceptResultBody h with ⟨rfl, _⟩ | ⟨_, _, a, d₁, ha, hc, h₁, h₂⟩
  · exact ⟨hs, .refl _⟩
  · have hid : a.assignmentId = e.assignmentId := Rows.key_of_get _ ha
    have hx := life?_of_assignment ha
    obtain ⟨_, hh⟩ := (hs.wf _ _ hx).held_of_current (i := e.leaseId) hc
    have c₁ := changes_insertResult (acceptedRow e digest path size t) d.toTables
    have c₂ := c₁.trans (changes_insertOutcome ⟨e.assignmentId, .result, some e.leaseId, some digest, t⟩ _)
    have c₃ := c₂.trans (changes_setLease (k := e.leaseId) (f := fun l => { l with state := .succeeded })
      (lease_owner d.ok hx (hh.lease.imp fun _ h => ⟨h.1, h.2.1⟩)) (fun _ => rfl))
    have c₄ := c₃.trans (changes_setAssignment e.assignmentId
      (fun a => { a with state := .succeeded, currentLeaseId := none }) _ (fun _ => rfl))
    have c₅ := c₄.trans (changes_setCancellation e.assignmentId (fun c => { c with terminal := true }) _ (fun _ => rfl))
    have hm : Move now (d.lifeOf a) (((d.lifeOf a).close e.leaseId .succeeded).succeed (acceptedRow e digest path size t)
        ⟨e.assignmentId, .result, some e.leaseId, some digest, t⟩).endCancellations :=
      .succeed e.leaseId _ _ hc rfl rfl rfl rfl
    rw [← h₁] at c₅
    exact hs.recomputed hx (c₅.moved hx (.single hm)) (by rw [h₁]; rfl) h₂

/-- **A failure closes its lease and moves the life once**: a cancelled lease ends it, any other may retry. -/
theorem failLease_moves {env : Env} {e : FailureEnvelope} {digest : Digest} {a : AssignmentRow} {l : LeaseRow}
    {d d' : Db} {b : Bool} (hs : Sound now d.toTables) (ha : d.assignment? e.assignmentId = some a)
    (hl : d.lease? e.leaseId = some l) (hla : l.assignmentId = e.assignmentId)
    (hc : a.currentLeaseId = some e.leaseId) (h : Returns (failLease env e digest a now) d b d') :
    Moved now a.assignmentId d.toTables d'.toTables ∧ d'.groups = d.groups := by
  have hid : a.assignmentId = e.assignmentId := Rows.key_of_get _ ha
  have hlk : l.leaseId = e.leaseId := Rows.key_of_get _ hl
  have hx := life?_of_assignment ha
  have hw := hs.wf _ _ hx
  obtain ⟨_, hh⟩ := hw.held_of_current (i := e.leaseId) hc
  have hmark := leaseCancellation_isSome d.ok hx ((mem_life_leases hx).2 ⟨Rows.mem_of_get _ hl, hla⟩)
  rw [hlk] at hmark
  rw [← hid] at hx
  simp only [failLease, returns_bind, returns_exec, returns_tables] at h
  obtain ⟨_, d₀, h₁, _, d₁, ⟨rfl, rfl⟩, h⟩ := h
  have hsame : d₁.leaseCancellation? e.leaseId = d.leaseCancellation? e.leaseId := by
    rw [h₁]
    rfl
  rw [hsame] at h
  split at h
  · simp only [returns_bind, returns_exec, returns_pure] at h
    obtain ⟨_, d₂, h₂, _, d₃, h₃, _, d₄, h₄, _, rfl⟩ := h
    rw [← hid] at h₂ h₃
    exact ⟨cancelled_moves d.ok hx rfl hw hc (by decide) h₁ h₂ h₃ hid.symm (by simp) (Or.inl h₄),
      by rw [h₄, h₃, h₂, h₁]; rfl⟩
  · rename_i hno
    have hnil := not_not.1 (fun hne => hno (hmark.2 (hh.marked_iff.2 hne)))
    refine ⟨retryOrTerminal_moves hx rfl hw hc (by decide) hnil h₁ h, ?_⟩
    rcases returns_retryOrTerminal h with ⟨_, _, _, _, h₂⟩ | ⟨_, _, _, _, h₂⟩ <;>
    · rw [h₂, h₁]
      rfl

/-- **A failure retries its assignment or ends it.** -/
theorem steady_acceptFailureBody (env : Env) (e : FailureEnvelope) (digest : Digest) :
    Steady now (acceptFailureBody env e digest now) := by
  unfold acceptFailureBody
  refine .bind (steady_readOnly (writes_existingFailure _ _)) fun found => ?_
  cases found with
  | some r => exact .pure r
  | none =>
    intro d₀ r d' hs h
    simp only [returns_bind, returns_exec, returns_pure] at h
    obtain ⟨⟨a, l⟩, d, hv, terminal, d₁, h₁, _, d₂, h₂, _, d₃, h₃, _, rfl⟩ := h
    obtain ⟨rfl, ha, hl, hla, _, hc⟩ := returns_validateActiveEnvelope hv
    have hid : a.assignmentId = e.assignmentId := Rows.key_of_get _ ha
    have hx : d.life? a.assignmentId = some (d.lifeOf a) := hid.symm ▸ life?_of_assignment ha
    obtain ⟨⟨hother, x, y, hx', hy, hm⟩, hg⟩ := failLease_moves hs ha hl hla hc h₁
    have hsame : d₂.life? = d₁.life? := by
      rw [h₂]
      rfl
    have hmoved : Moved now a.assignmentId d.toTables d₂.toTables :=
      ⟨fun j hj => by rw [hsame]; exact hother j hj, x, y, hx', by rw [hsame]; exact hy, hm⟩
    exact hs.recomputed hx hmoved (by rw [h₂]; exact hg) h₃

/-! ## Processing states -/

/-- **An update of processing states alone moves every life by one move.** -/
theorem steady_setResults {f : ResultRow → ResultRow} (hf : ∀ r, (f r).fixed = r.fixed) :
    Steady now (exec (setResults f)) := by
  intro d u d' hs h
  rw [returns_exec] at h
  have hl : ∀ i, d'.life? i = (d.life? i).map (Life.process f) := fun i => by
    rw [h]
    exact life?_setResults (fun r => congrArg (·.assignmentId) (hf r)) d.toTables i
  have ha : Advances now (fun _ => True) d.toTables d'.toTables := by
    refine ⟨fun i hi => by rw [hl, hi]; rfl, fun i x hx => ?_⟩
    exact ⟨x.process f, by rw [hl, hx]; rfl, .single (.process f hf), Or.inl trivial⟩
  have hg : d'.groups = d.groups := by
    rw [h]
    rfl
  refine ⟨hs.advance ha (by rw [hg]) ?_, ha⟩
  intro r hr hd
  rw [hs.synced r (hg ▸ hr) hd]
  constructor
  · intro ho i y hy hyg
    rw [hl, Option.map_eq_some_iff] at hy
    obtain ⟨x, hx, rfl⟩ := hy
    exact ho i x hx hyg
  · intro ho i x hx hxg
    exact ho i (x.process f) (by rw [hl, hx]; rfl) hxg

end Aether
