import AetherRl.RepoStaleness
/-!
# RepoRequests — a lease request is answered once

A request's row leaves `pending` by one statement, which looks at the state again, and nothing else writes it.  So what
a row records when it is no longer pending it records for good, and every call made for the request, whether it comes
first or again, answers what the row then says.
-/
namespace Aether

open Txn (Returns Writes Wp returns_bind returns_pure returns_orRaise returns_orThrow returns_raiseIf wp_bind wp_pure
  wp_throw bind_of_returns)
open Tables Repo

variable {now : Time} {d d' d'' : Db}

/-- The lease a request's row is bound to, and the assignment it is of. -/
def Tables.recorded (t : Tables) (r : RequestRow) : Option (OpaqueId × RolloutAssignment) :=
  r.leaseId.bind fun i => (t.lease? i).bind fun l => (t.assignment? l.assignmentId).map fun a => (i, a.assignment)

/-- An answer to a request is what its row records. -/
def Recorded (t : Tables) (requestId : OpaqueId) (x : LeaseRequestDisposition) : Prop :=
  ∃ r, t.request? requestId = some r ∧ x.state = r.state ∧
    x.lease.map (fun l => (l.leaseId, l.assignment)) = t.recorded r

/-! ## Rows that stay -/

/-- The requests there are keep their contents, and what they record. -/
def RequestsKept (d d' : Db) : Prop :=
  ∀ i r, d.request? i = some r → ∃ r', d'.request? i = some r' ∧ r'.requestDigest = r.requestDigest ∧
    (r.state ≠ .pending → r' = r)

theorem RequestsKept.of_eq (h : d'.requests = d.requests) : RequestsKept d d' := by
  intro i r hr
  refine ⟨r, ?_, rfl, fun _ => rfl⟩
  rw [Tables.request?, h]
  exact hr

theorem RequestsKept.refl (d : Db) : RequestsKept d d := .of_eq rfl

theorem RequestsKept.trans (h₁ : RequestsKept d d') (h₂ : RequestsKept d' d'') : RequestsKept d d'' := by
  intro i r hr
  obtain ⟨r', hr', hd', hk'⟩ := h₁ i r hr
  obtain ⟨r'', hr'', hd'', hk''⟩ := h₂ i r' hr'
  refine ⟨r'', hr'', hd''.trans hd', fun hp => ?_⟩
  have he := hk' hp
  subst he
  exact hk'' hp

/-- **A request is answered only while it is pending.** -/
theorem returns_completeRequest {i : OpaqueId} {s : RequestState} {l : Option OpaqueId} {t : Time} {u : Unit}
    (h : Returns (completeRequest i s l t) d u d') : d'.request? i = (d.request? i).map (fun r =>
      if r.state = .pending then { r with state := s, leaseId := l, completedAt := some t } else r) ∧
      RequestsKept d d' := by
  rw [completeRequest, returns_exec] at h
  have hget : ∀ j, d'.request? j = if j = i then (d.request? j).map (fun r =>
      if r.state = .pending then { r with state := s, leaseId := l, completedAt := some t } else r)
      else d.request? j := by
    intro j
    rw [h, Tables.request?, setRequest_requests, Rows.get_set]
    · rfl
    · intro r _ _
      split <;> rfl
  refine ⟨by rw [hget, if_pos rfl], fun j r hr => ?_⟩
  rw [hget]
  by_cases hj : j = i
  · rw [if_pos hj, hr, Option.map_some]
    refine ⟨_, rfl, ?_, fun hp => if_neg hp⟩
    split <;> rfl
  · rw [if_neg hj]
    exact ⟨r, hr, rfl, fun _ => rfl⟩

/-! ## What the bodies answer -/

/-- **A row's disposition is what it records.** -/
theorem recorded_disposition {i : OpaqueId} {r : RequestRow} {x : LeaseRequestDisposition} (hr : d.request? i = some r)
    (h : Returns (leaseRequestDisposition r) d x d') : d' = d ∧ x.state = r.state ∧ Recorded d.toTables i x := by
  obtain ⟨rfl, hst, hleased, hnone⟩ := returns_leaseRequestDisposition h
  refine ⟨rfl, hst, r, hr, hst, ?_⟩
  by_cases hl : r.state = .leased
  · obtain ⟨j, lease, hj, hx, hread⟩ := hleased hl
    obtain ⟨_, l, a, hlr, ha, hb⟩ := returns_assignmentLease hread
    obtain ⟨hi, he⟩ := buildLease_ok hb
    rw [hx, Option.map_some, hi, he, recorded, hj, Option.bind_some, hlr, Option.bind_some, ha, Rows.key_of_get _ hlr]
    rfl
  · rw [hnone hl]
    rcases d'.ok.requests.shape r (Rows.mem_of_get _ hr) with ⟨_, hn, _⟩ | ⟨_, hn, _⟩ | ⟨hst, _⟩
    · rw [recorded, hn]
      rfl
    · rw [recorded, hn]
      rfl
    · exact absurd hst hl

/-- **Every row can be read back**: its lease is there, and as it was issued. -/
theorem disposition_reads (hs : Sound now d.toTables) {r : RequestRow} (hr : r ∈ d.requests) :
    ∃ x, Returns (leaseRequestDisposition r) d x d := by
  unfold leaseRequestDisposition
  cases hst : r.state with
  | pending | noWork => exact ⟨_, (returns_pure _ _ _ _).2 ⟨rfl, rfl⟩⟩
  | leased =>
    rcases d.ok.requests.shape r hr with ⟨hp, _⟩ | ⟨hp, _⟩ | ⟨_, hl, _⟩
    · rw [hst] at hp
      cases hp
    · rw [hst] at hp
      cases hp
    obtain ⟨i, hi⟩ := Option.ne_none_iff_exists'.1 hl
    obtain ⟨l, hl, hli⟩ := d.ok.requests.lease r hr i hi
    obtain ⟨x, hx, hlx⟩ := life?_of_lease d.ok hl
    have ht := (hs.wf _ _ hx).timed
    have hget : d.lease? i = some l := (Rows.get_eq_some _ d.ok.leases.key).2 ⟨hl, hli⟩
    have hbuild : ∃ lease, buildLease l.leaseId l.attempt l.workerId l.workerSessionId l.issuedAt l.expiresAt
        x.row.assignment = .ok lease := by
      unfold buildLease
      rw [dif_pos]
      · exact ⟨_, rfl⟩
      · refine ⟨(ht.expires l hlx).1, (ht.issued l hlx).1, ?_⟩
        rw [← ht.deadline]
        exact (ht.expires l hlx).2
    obtain ⟨lease, hlease⟩ := hbuild
    have hread : Returns (assignmentLease i) d lease d := by
      simp only [assignmentLease, returns_bind, returns_tables, returns_orRaise, returns_orThrow]
      exact ⟨_, _, ⟨rfl, rfl⟩, l, _, ⟨hget, rfl⟩, _, _, ⟨rfl, rfl⟩, x.row, _, ⟨(life_row hx).1, rfl⟩, hlease, rfl⟩
    refine ⟨⟨.leased, some lease⟩, ?_⟩
    simp only [returns_bind, returns_orRaise, returns_pure]
    exact ⟨i, d, ⟨hi, rfl⟩, lease, d, hread, rfl, rfl⟩

/-- **A validation answers what it finds**, or records a new pending request. -/
theorem returns_validateLeaseRequestBody {q : LeaseRequest} {digest : Digest} {x : LeaseRequestDisposition}
    (h : Returns (validateLeaseRequestBody q digest now) d x d') :
    (∃ r, d.request? q.requestId = some r ∧ r.requestDigest = digest ∧ d' = d ∧ Recorded d.toTables q.requestId x) ∨
    (d.request? q.requestId = none ∧ x = ⟨.pending, none⟩ ∧ ∃ r, r.requestId = q.requestId ∧ r.requestDigest = digest ∧
      r.state = .pending ∧ r.leaseId = none ∧ r.createdAt = now ∧ d'.requests = d.requests ++ [r]) := by
  simp only [validateLeaseRequestBody, returns_bind, returns_tables] at h
  obtain ⟨_, d₀, ⟨rfl, rfl⟩, h⟩ := h
  cases hr : d₀.request? q.requestId with
  | some r =>
    rw [hr] at h
    simp only [returns_bind, returns_raiseIf] at h
    obtain ⟨_, _, ⟨hd, rfl⟩, hx⟩ := h
    obtain ⟨rfl, _, hrec⟩ := recorded_disposition hr hx
    exact Or.inl ⟨r, rfl, not_not.1 hd, rfl, hrec⟩
  | none =>
    rw [hr] at h
    simp only [returns_bind, returns_raiseIf, returns_tables, returns_exec, returns_pure] at h
    obtain ⟨s, d₁, hses, _, _, ⟨_, rfl⟩, _, d₂, hval, _, d₃, ⟨rfl, rfl⟩, _, _, ⟨_, rfl⟩, _, d₄, h₄, _, d₅, h₅, rfl, rfl⟩ := h
    obtain ⟨_, _, rfl⟩ := returns_compatibleSession hses
    obtain rfl := returns_validatePolicyIds hval
    refine Or.inr ⟨rfl, rfl, ⟨q.requestId, q.workerSessionId, digest, .pending, none, now, none⟩, rfl, rfl, rfl, rfl, rfl, ?_⟩
    rw [h₅, setSession_requests, h₄, insertRequest_requests]

theorem returns_markLeaseRequestNoWorkBody {i : OpaqueId} {x : LeaseRequestDisposition}
    (h : Returns (markLeaseRequestNoWorkBody i now) d x d') : ∃ r, d.request? i = some r ∧
      ((r.state ≠ .pending ∧ d' = d ∧ Recorded d.toTables i x) ∨
        (r.state = .pending ∧ Returns (completeRequest i .noWork none now) d () d' ∧ Recorded d'.toTables i x)) := by
  simp only [markLeaseRequestNoWorkBody, returns_bind, returns_tables, returns_orRaise] at h
  obtain ⟨_, _, ⟨rfl, rfl⟩, r, d₀, ⟨hr, rfl⟩, h⟩ := h
  refine ⟨r, hr, ?_⟩
  split at h
  · rename_i hp
    simp only [returns_bind, returns_tables, returns_orRaise] at h
    obtain ⟨_, d₁, h₁, _, _, ⟨rfl, rfl⟩, r', _, ⟨hr', rfl⟩, hx⟩ := h
    obtain ⟨rfl, _, hrec⟩ := recorded_disposition hr' hx
    exact Or.inr ⟨hp, h₁, hrec⟩
  · rename_i hp
    obtain ⟨rfl, _, hrec⟩ := recorded_disposition hr h
    exact Or.inl ⟨hp, rfl, hrec⟩

/-- The lease offered is the one on record, of the assignment on record. -/
def Offered (t : Tables) (l : AssignmentLease) : Prop :=
  ∃ row ∈ t.lease? l.leaseId, ∃ a ∈ t.assignment? row.assignmentId, l.assignment = a.assignment

theorem returns_validateOfferedLease {q : LeaseRequest} {l : AssignmentLease} {t : Time} {u : Unit}
    (h : Returns (validateOfferedLease q l t) d u d') : d' = d ∧ Offered d.toTables l := by
  simp only [validateOfferedLease, returns_bind, returns_raiseIf, returns_tables, returns_orRaise] at h
  obtain ⟨_, _, ⟨_, rfl⟩, a, d₀, ha, _, _, ⟨rfl, rfl⟩, row, _, ⟨hrow, rfl⟩, hm, rfl⟩ := h
  obtain ⟨ha, rfl⟩ := returns_assignment ha
  simp only [not_or, not_not] at hm
  obtain ⟨hid, _, _, _, _, _, _, _, _, _, _, he⟩ := hm
  exact ⟨rfl, row, hrow, a, hid ▸ ha, he⟩

theorem returns_associateBody {q : LeaseRequest} {first : AssignmentLease} {offered : List (AssignmentLease × Time)}
    {x : LeaseRequestDisposition} (h : Returns (associateBody q first offered now) d x d') :
    x.lease = some first ∧ ∃ r, d.request? q.requestId = some r ∧
      ((r.state ≠ .pending ∧ d' = d ∧ Recorded d.toTables q.requestId x) ∨
        (r.state = .pending ∧ x.state = .leased ∧ (∀ y ∈ offered, Offered d.toTables y.1) ∧
          Returns (completeRequest q.requestId .leased (some first.leaseId) now) d () d')) := by
  simp only [associateBody, returns_bind, returns_tables, returns_orRaise] at h
  obtain ⟨_, _, ⟨rfl, rfl⟩, r, d₀, ⟨hr, rfl⟩, y, d₁, hy, h⟩ := h
  obtain ⟨rfl, hst, hrec⟩ := recorded_disposition hr hy
  split at h
  · rename_i hp
    simp only [returns_bind, returns_raiseIf, returns_pure] at h
    obtain ⟨_, _, ⟨hl, rfl⟩, rfl, rfl⟩ := h
    exact ⟨not_not.1 hl, r, hr, Or.inl ⟨hst ▸ hp, rfl, hrec⟩⟩
  · rename_i hp
    simp only [returns_bind, returns_tables, returns_raiseIf, returns_pure] at h
    obtain ⟨_, d₂, h₂, _, _, ⟨rfl, rfl⟩, _, _, ⟨_, rfl⟩, _, d₃, h₃, rfl, rfl⟩ := h
    obtain ⟨rfl, hall⟩ := Txn.returns_checks (fun _ _ _ _ hc => (returns_validateOfferedLease hc).1) _ _ _ _ h₂
    refine ⟨rfl, r, hr, Or.inr ⟨hst ▸ not_not.1 hp, rfl, fun y hy => ?_, h₃⟩⟩
    exact (returns_validateOfferedLease (hall y hy)).2

/-! ## Every commit -/

theorem Grows.assignment {i : OpaqueId} {a : AssignmentRow} (h : Grows d.toTables d'.toTables)
    (ha : d.assignment? i = some a) : ∃ b, d'.assignment? i = some b ∧ b.assignment = a.assignment := by
  obtain ⟨y, hy, hle⟩ := h.lives i _ (life?_of_assignment ha)
  exact ⟨y.row, (life_row hy).1, congrArg (·.assignment) hle.row⟩

theorem Grows.lease {i : OpaqueId} {l : LeaseRow} (h : Grows d.toTables d'.toTables) (hl : d.lease? i = some l) :
    ∃ m, d'.lease? i = some m ∧ m.assignmentId = l.assignmentId := by
  obtain ⟨hm, hi⟩ := (Rows.get_eq_some _ d.ok.leases.key).1 hl
  obtain ⟨x, hx, hlx⟩ := life?_of_lease d.ok hm
  obtain ⟨y, hy, hle⟩ := h.lives _ _ hx
  obtain ⟨m, hmy, he⟩ := List.mem_map.1 (hle.leases.subset (List.mem_map_of_mem hlx))
  have hid : m.leaseId = l.leaseId := congrArg (·.leaseId) he
  exact ⟨m, (Rows.get_eq_some _ d'.ok.leases.key).2 ⟨((mem_life_leases hy).1 hmy).1, hid.trans hi⟩,
    congrArg (·.assignmentId) he⟩

/-- **What a row records stays**: the lease it is bound to stays, and stays of its assignment. -/
theorem Grows.recorded {r : RequestRow} (h : Grows d.toTables d'.toTables) (hr : r ∈ d.requests) :
    d'.recorded r = d.recorded r := by
  unfold Tables.recorded
  cases hi : r.leaseId with
  | none => rfl
  | some i =>
    obtain ⟨l, hl, hli⟩ := d.ok.requests.lease r hr i hi
    obtain ⟨a, ha, hai⟩ := d.ok.leases.assignment l hl
    have hget : d.lease? i = some l := (Rows.get_eq_some _ d.ok.leases.key).2 ⟨hl, hli⟩
    have haget : d.assignment? l.assignmentId = some a := (Rows.get_eq_some _ d.ok.assignments.key).2 ⟨ha, hai⟩
    obtain ⟨m, hm, hma⟩ := h.lease hget
    obtain ⟨b, hb, hba⟩ := h.assignment haget
    simp only [Option.bind_some, hget, haget, hm, hma, hb, hba, Option.map_some]

/-- **What a commit does to the requests**: nothing, one answer, or one more request. -/
inductive RequestStep (now : Time) (d d' : Db) : Prop
  | same (h : d'.requests = d.requests)
  | answered (d₀ : Db) (h₀ : d₀.requests = d.requests) (i : OpaqueId) (s : RequestState) (l : Option OpaqueId) (t : Time)
      (h : Returns (completeRequest i s l t) d₀ () d')
  | asked (r : RequestRow) (ht : r.createdAt = now) (h : d'.requests = d.requests ++ [r])

theorem LeaseNext.requestStep {q : LeaseRequest} {duration : Time} {leaseId : OpaqueId} {answer : LeaseAnswer}
    (h : LeaseNext q duration leaseId now d answer d') : RequestStep now d d' := by
  cases h with
  | recorded => exact .same rfl
  | refused => exact .same rfl
  | nothing row hr hst _ h₁ => exact .same (h₁.frame .requests (by decide))
  | granted row hr hst d₁ d₂ _ h₁ a ha h₂ h₃ =>
    have hw₂ := writes_grantLease (S := [.assignments, .leases, .fixedLeases]) a leaseId q.workerId q.workerSessionId now
      _ (by decide) (by decide) (by decide) _ _ _ h₂
    have hreq : d₂.requests = d.requests := (hw₂ .requests (by decide)).trans (h₁.frame .requests (by decide))
    exact .answered d₂ hreq _ _ _ _ h₃

theorem commit_requestStep {env : Env} {c : Call} (hs : Sound now d.toTables) (h : Commit env now d d' c) :
    RequestStep now d d' := by
  by_cases hc : .requests ∈ c.writes
  · cases c
    case validateLeaseRequest q =>
      obtain ⟨x, h⟩ := h
      rcases returns_validateLeaseRequestBody h with ⟨_, _, _, rfl, _⟩ | ⟨_, _, r, _, _, _, _, ht, hreq⟩
      · exact .same rfl
      · exact .asked r ht hreq
    case markLeaseRequestNoWork i =>
      obtain ⟨x, h⟩ := h
      obtain ⟨_, _, ⟨_, rfl, _⟩ | ⟨_, h, _⟩⟩ := returns_markLeaseRequestNoWorkBody h
      · exact .same rfl
      · exact .answered d rfl _ _ _ _ h
    case associateOfferedLease q l =>
      obtain ⟨_, x, h⟩ := h
      obtain ⟨_, _, _, ⟨_, rfl, _⟩ | ⟨_, _, _, h⟩⟩ := returns_associateBody h
      · exact .same rfl
      · exact .answered d rfl _ _ _ _ h
    case associateOfferedLeases q ls =>
      obtain ⟨_, _, _, _, x, h⟩ := h
      obtain ⟨_, _, _, ⟨_, rfl, _⟩ | ⟨_, _, _, h⟩⟩ := returns_associateBody h
      · exact .same rfl
      · exact .answered d rfl _ _ _ _ h
    case leaseNextCompatible q duration i =>
      obtain ⟨_, x, h⟩ := h
      exact (returns_leaseNextBody hs h).requestStep
    case leaseOrCreateNextCompatible q duration draws artifacts =>
      rcases h with ⟨_, _, x, h⟩ | ⟨_, h⟩ | ⟨_, h⟩
      · exact (returns_leaseNextBody hs h).requestStep
      · exact .same (writes_leaseRequestCanGenerateBody (S := []) _ _ _ _ _ h .requests List.not_mem_nil)
      · exact .same (writes_createNextGroupBody (S := .sources :: .scheduler :: groupTables) _ _ _ _ _ (by decide)
          (by decide) (by decide) _ _ _ h .requests (by decide))
    all_goals exact absurd hc (by simp only [Call.writes]; decide)
  · exact .same (commit_rows h .requests hc)

theorem RequestStep.kept (h : RequestStep now d d') : RequestsKept d d' := by
  cases h with
  | same h => exact .of_eq h
  | answered d₀ h₀ _ _ _ _ h => exact (RequestsKept.of_eq h₀).trans (returns_completeRequest h).2
  | asked r _ h =>
    intro i r₀ hr₀
    refine ⟨r₀, ?_, rfl, fun _ => rfl⟩
    rw [Tables.request?, h, Rows.get_append]
    exact Option.or_eq_some_iff.2 (Or.inl hr₀)

/-- **Every commit keeps what the requests record.** -/
theorem commit_requestsKept {env : Env} {c : Call} (hs : Sound now d.toTables) (h : Commit env now d d' c) :
    RequestsKept d d' := (commit_requestStep hs h).kept

/-- No request was made later than now. -/
def Aged (now : Time) (t : Tables) : Prop := ∀ r ∈ t.requests, r.createdAt ≤ now

theorem RequestStep.aged (h : RequestStep now d d') (ha : Aged now d.toTables) : Aged now d'.toTables := by
  cases h with
  | same h => exact fun r hr => ha r (h ▸ hr)
  | answered d₀ h₀ i s l t h =>
    rw [completeRequest, returns_exec] at h
    intro r hr
    rw [h, setRequest_requests, h₀, Rows.mem_set] at hr
    rcases hr with ⟨r₀, hr₀, _, rfl⟩ | ⟨hr, _⟩
    · have ht : (if r₀.state = .pending then { r₀ with state := s, leaseId := l, completedAt := some t } else r₀).createdAt =
          r₀.createdAt := by
        split <;> rfl
      rw [ht]
      exact ha r₀ hr₀
    · exact ha r hr
  | asked r ht h =>
    intro r' hr'
    rw [h, List.mem_append, List.mem_singleton] at hr'
    rcases hr' with hr' | rfl
    · exact ha r' hr'
    · exact ht.le

/-- **In every reached state the requests were made.** -/
theorem reached_aged (env : Env) (steps : List Step) : Aged ((reached env steps).now env) (reached env steps).db.toTables :=
  (runFrom_holds (I := fun now d => Aether.Sound now d.toTables ∧ Aged now d.toTables) (R := fun _ _ => True)
    (fun _ _ _ hn h => ⟨h.1.mono hn, fun r hr => (h.2 r hr).trans hn⟩) (fun _ => trivial) (fun _ _ _ _ _ => trivial) steps
    World.fresh (fun _ _ _ _ _ h hc => ⟨⟨(commit_sound h.1 hc).1, (commit_requestStep h.1 hc).aged h.2⟩, trivial⟩)
    ⟨sound_empty _, fun _ hr => absurd hr List.not_mem_nil⟩).1.2

theorem runFrom_requestsKept (env : Env) (steps : List Step) {w : World} (hs : w.Sound env) :
    RequestsKept w.db (runFrom env w steps).db :=
  (runFrom_holds (I := fun now d => Aether.Sound now d.toTables) (R := RequestsKept) (fun _ _ _ hn h => h.mono hn)
    RequestsKept.refl (fun _ _ _ => RequestsKept.trans) steps w
    (fun _ _ _ _ _ hs hc => ⟨(commit_sound hs hc).1, commit_requestsKept hs hc⟩) hs).2

end Aether
