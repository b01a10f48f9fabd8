import AetherRl.RepoRequests
/-!
# RepoReplay — what a lease request is answered, first and again

`Answers` says of every call made for a request that what it returns is what the request's row records when it has
returned; `Replays` that a call made for a request already answered returns that answer again and changes nothing.
-/
namespace Aether

open Txn (Returns Writes Wp returns_bind returns_pure returns_orRaise returns_orThrow returns_raiseIf wp_bind wp_pure
  wp_throw bind_of_returns)
open Tables Repo

variable {now : Time} {d d' : Db} {env : Env} {q : LeaseRequest} {w : World}

/-! ## The answers -/

/-- **An answer is what the request's row then records**, and a call that raises leaves the row alone. -/
structure Answers (env : Env) (q : LeaseRequest) (w : World) : Prop where
  validate : Wp (validateLeaseRequest env q) (fun x w' => Recorded w'.db.toTables q.requestId x ∧
    ∃ r ∈ w'.db.request? q.requestId, r.requestDigest = env.codec.requestDigest q) (fun _ w' => w'.db = w.db) w
  noWork : Wp (markLeaseRequestNoWork env q.requestId) (fun x w' => Recorded w'.db.toTables q.requestId x)
    (fun _ w' => w'.db = w.db) w
  associate : ∀ l, Wp (associateOfferedLease env q l)
    (fun x w' => x.lease = some l ∧ Recorded w'.db.toTables q.requestId x) (fun _ w' => w'.db = w.db) w
  next : ∀ duration i, Wp (leaseNextCompatible env q duration i)
    (fun lease w' => ∀ l ∈ lease, Recorded w'.db.toTables q.requestId ⟨.leased, some l⟩) (fun _ _ => True) w
  nextOrCreate : ∀ duration draws artifacts, Wp (leaseOrCreateNextCompatible env q duration draws artifacts)
    (fun lease w' => ∀ l ∈ lease, Recorded w'.db.toTables q.requestId ⟨.leased, some l⟩) (fun _ _ => True) w

theorem Recorded.lease {x : LeaseRequestDisposition} {l : AssignmentLease} (h : Recorded d.toTables q.requestId x)
    (hst : x.state = .leased) (hl : x.lease = some l) : Recorded d.toTables q.requestId ⟨.leased, some l⟩ := by
  have he : x = ⟨.leased, some l⟩ := by rw [← hst, ← hl]
  exact he ▸ h

theorem sound_clock (hs : w.Sound env) : Sound (env.clock w.reads) w.db.toTables :=
  hs.mono (env.clock_mono (Nat.sub_le _ 1))

theorem validate_answers (env : Env) (q : LeaseRequest) (w : World) :
    Wp (validateLeaseRequest env q) (fun x w' => Recorded w'.db.toTables q.requestId x ∧
      ∃ r ∈ w'.db.request? q.requestId, r.requestDigest = env.codec.requestDigest q) (fun _ w' => w'.db = w.db) w := by
  simp only [validateLeaseRequest, wp_bind, wp_readClock]
  refine wp_transaction (fun x d n h => ?_) fun _ => rfl
  rcases returns_validateLeaseRequestBody h with ⟨r, hr, hd, rfl, hrec⟩ | ⟨hnone, rfl, r, hid, hd, hst, hl, _, hreq⟩
  · exact ⟨hrec, r, hr, hd⟩
  · have hget : d.request? q.requestId = some r := by
      rw [Tables.request?, hreq, Rows.get_append]
      rw [Tables.request?] at hnone
      rw [hnone, Option.none_or, if_pos hid]
    refine ⟨⟨r, hget, hst.symm, ?_⟩, r, hget, hd⟩
    rw [recorded, hl]
    rfl

theorem noWork_answers (env : Env) (i : OpaqueId) (w : World) : Wp (markLeaseRequestNoWork env i)
    (fun x w' => Recorded w'.db.toTables i x) (fun _ w' => w'.db = w.db) w := by
  simp only [markLeaseRequestNoWork, wp_bind, wp_readClock]
  refine wp_transaction (fun x d n h => ?_) fun _ => rfl
  obtain ⟨r, hr, ⟨_, rfl, hrec⟩ | ⟨_, _, hrec⟩⟩ := returns_markLeaseRequestNoWorkBody h
  · exact hrec
  · exact hrec

/-- **A request bound to a lease records that lease.** -/
theorem recorded_complete {r : RequestRow} {l : AssignmentLease} {u : Unit} (hr : d.request? q.requestId = some r)
    (hp : r.state = .pending) (ho : Offered d.toTables l)
    (h : Returns (completeRequest q.requestId .leased (some l.leaseId) now) d u d') :
    Recorded d'.toTables q.requestId ⟨.leased, some l⟩ := by
  have hget := (returns_completeRequest h).1
  rw [hr, Option.map_some, if_pos hp] at hget
  refine ⟨_, hget, rfl, ?_⟩
  have hw := writes_completeRequest (S := [.requests]) _ _ _ _ (by decide) _ _ _ h
  have hl : d'.leases = d.leases := hw .leases (by decide)
  have ha : d'.assignments = d.assignments := hw .assignments (by decide)
  obtain ⟨row, hrow, a, har, he⟩ := ho
  rw [Option.mem_def, Tables.lease?, ← hl] at hrow
  rw [Option.mem_def, Tables.assignment?, ← ha] at har
  simp only [recorded, Option.bind_some, Tables.lease?, Tables.assignment?, hrow, har, Option.map_some, he]

theorem associate_answers (env : Env) (q : LeaseRequest) (l : AssignmentLease) (w : World) :
    Wp (associateOfferedLease env q l) (fun x w' => x.lease = some l ∧ Recorded w'.db.toTables q.requestId x)
      (fun _ w' => w'.db = w.db) w := by
  simp only [associateOfferedLease, wp_bind, wp_readClock]
  refine wp_transaction (fun x d n h => ?_) fun _ => rfl
  obtain ⟨hx, r, hr, ⟨_, rfl, hrec⟩ | ⟨hp, hst, hall, h⟩⟩ := returns_associateBody h
  · exact ⟨hx, hrec⟩
  · have he : x = ⟨.leased, some l⟩ := by rw [← hst, ← hx]
    rw [he]
    exact ⟨rfl, recorded_complete hr hp (hall _ (List.mem_singleton_self _)) h⟩

/-- **A lease returned is a lease recorded**: the one the request had, or the one it was just granted. -/
theorem next_answers (hs : w.Sound env) (duration : Time) (i : OpaqueId) : Wp (leaseNextCompatible env q duration i)
    (fun lease w' => w'.Sound env ∧ ∀ l ∈ lease, Recorded w'.db.toTables q.requestId ⟨.leased, some l⟩)
    (fun _ _ => True) w := by
  simp only [leaseNextCompatible, wp_bind, wp_raiseUnless, wp_readClock]
  refine ⟨fun _ => wp_transaction (fun answer d n h => ?_) fun _ => trivial, fun _ => trivial⟩
  have hs' : Sound (env.clock w.reads) d.toTables := (steady_leaseNextBody env q duration i _ _ _ (sound_clock hs) h).1
  cases returns_leaseNextBody (sound_clock hs) h with
  | recorded row hr hst x hx =>
    obtain ⟨_, hxs, hrec⟩ := recorded_disposition hr hx
    exact ⟨hs', fun l hl => hrec.lease (hxs.trans hst) hl⟩
  | refused => exact ⟨hs', fun l hl => absurd hl (Option.not_mem_none _)⟩
  | nothing => exact ⟨hs', fun l hl => absurd hl (Option.not_mem_none _)⟩
  | granted row hr hst d₁ d₂ _ h₁ a ha h₂ h₃ =>
    dsimp only
    split
    · rename_i lease hb
      obtain ⟨hli, hla⟩ := buildLease_ok hb
      refine ⟨hs', fun l hl => ?_⟩
      rw [Option.mem_def, Option.some.injEq] at hl
      subst hl
      obtain ⟨⟨_, ha₂⟩, hl₂⟩ := grantCandidate_sound h₁.sound ha h₂
      have hw₂ := writes_grantLease (S := [.assignments, .leases, .fixedLeases]) a i q.workerId q.workerSessionId _ _
        (by decide) (by decide) (by decide) _ _ _ h₂
      have hreq : d₂.requests = w.db.requests := (hw₂ .requests (by decide)).trans (h₁.frame .requests (by decide))
      have hrow : d₂.request? q.requestId = some row := by rw [Tables.request?, hreq]; exact hr
      have hm := (leaseCandidates_leasable ha).1
      obtain ⟨b, hb, hba⟩ := (ha₂.grows h₁.sound (hw₂ .fixedGroups (by decide))).assignment
        (Rows.get_of_mem _ d₁.ok.assignments.key hm)
      have hnew : d₂.lease? lease.leaseId = some ⟨i, a.assignmentId, a.attemptCount + 1, q.workerId, q.workerSessionId,
          env.clock w.reads, leaseExpiry (env.clock w.reads) duration a.deadlineAt, .active, none⟩ := by
        refine (Rows.get_eq_some _ d₂.ok.leases.key).2 ⟨?_, hli.symm⟩
        rw [hl₂]
        exact List.mem_append_right _ (List.mem_singleton_self _)
      exact recorded_complete hrow hst ⟨_, hnew, b, hb, by rw [hla, hba]⟩ (hli ▸ h₃)
    · trivial

theorem nextOrCreate_answers (hs : w.Sound env) (duration : Time) (draws : Draws) (artifacts : Artifacts) :
    Wp (leaseOrCreateNextCompatible env q duration draws artifacts)
      (fun lease w' => ∀ l ∈ lease, Recorded w'.db.toTables q.requestId ⟨.leased, some l⟩) (fun _ _ => True) w := by
  simp only [leaseOrCreateNextCompatible, wp_bind]
  refine (next_answers hs duration draws.firstLease).imp (fun lease w₁ hanswer => ?_) fun _ _ _ => trivial
  obtain ⟨hs₁, hl⟩ := hanswer
  split
  · exact hl
  · simp only [leaseRequestCanGenerate, createNextGroup, wp_bind, wp_readClock]
    refine wp_transaction (fun can d₂ n₂ h₂ => ?_) fun _ => trivial
    have hs₂ : Sound (env.clock w₁.reads) d₂.toTables :=
      (sound_clock hs₁).of_rows (fun k _ => writes_leaseRequestCanGenerateBody (S := []) _ _ _ _ _ h₂ k List.not_mem_nil) |>.1
    split
    · simp only [wp_bind, wp_readClock]
      refine wp_transaction (fun made d₃ n₃ h₃ => ?_) fun _ => trivial
      have hs₃ : Sound (env.clock (w₁.reads + 1)) d₃.toTables :=
        (createNextGroupBody_sound (hs₂.mono (env.clock_mono (Nat.le_succ _))) ⟨_, h₃⟩).1
      split
      · exact fun l hl => absurd hl (Option.not_mem_none _)
      · refine (next_answers ?_ duration draws.secondLease).imp (fun _ _ h => h.2) fun _ _ _ => trivial
        exact hs₃
    · exact fun l hl => absurd hl (Option.not_mem_none _)

theorem answers (q : LeaseRequest) (hs : w.Sound env) : Answers env q w :=
  ⟨validate_answers env q w, noWork_answers env q.requestId w, fun l => associate_answers env q l w,
    fun duration i => (next_answers hs duration i).imp (fun _ _ h => h.2) fun _ _ _ => trivial,
    fun duration draws artifacts => nextOrCreate_answers hs duration draws artifacts⟩

/-! ## Replays -/

/-- The world of a process that lives through its call. -/
def World.alive (w : World) : World := { w with crashAfter := none }

/-- **A call for a request already answered changes nothing** and returns the answer there is; only an offer of another
lease is refused. -/
structure Replays (env : Env) (q : LeaseRequest) (r : RequestRow) (w : World) : Prop where
  validate : r.requestDigest = env.codec.requestDigest q → Wp (validateLeaseRequest env q)
    (fun x w' => w'.db = w.db ∧ Recorded w.db.toTables q.requestId x) (fun _ _ => False) w
  noWork : Wp (markLeaseRequestNoWork env q.requestId)
    (fun x w' => w'.db = w.db ∧ Recorded w.db.toTables q.requestId x) (fun _ _ => False) w
  associate : ∀ l, Wp (associateOfferedLease env q l)
    (fun x w' => w'.db = w.db ∧ x.lease = some l ∧ Recorded w.db.toTables q.requestId x)
    (fun e w' => w'.db = w.db ∧ e = .conflict "lease request already has a different disposition") w
  next : ∀ duration i, 0 < duration → Wp (leaseNextCompatible env q duration i)
    (fun lease w' => w'.db = w.db ∧ Recorded w.db.toTables q.requestId ⟨r.state, lease⟩) (fun _ _ => False) w
  nextOrCreate : ∀ duration draws artifacts, 0 < duration → Wp (leaseOrCreateNextCompatible env q duration draws artifacts)
    (fun lease w' => w'.db = w.db ∧ Recorded w.db.toTables q.requestId ⟨r.state, lease⟩) (fun _ _ => False) w

section
variable {r : RequestRow} (hs : w.Sound env) (hw : w.crashAfter = none) (hr : w.db.request? q.requestId = some r)
  (hp : r.state ≠ .pending)
include hs hw hr

theorem validate_replays (hd : r.requestDigest = env.codec.requestDigest q) : Wp (validateLeaseRequest env q)
    (fun x w' => w'.db = w.db ∧ Recorded w.db.toTables q.requestId x) (fun _ _ => False) w := by
  obtain ⟨x, hx⟩ := disposition_reads hs (Rows.mem_of_get _ hr)
  have hbody : Returns (validateLeaseRequestBody q (env.codec.requestDigest q) (env.clock w.reads)) w.db x w.db := by
    simp only [validateLeaseRequestBody, returns_bind, returns_tables]
    refine ⟨_, _, ⟨rfl, rfl⟩, ?_⟩
    rw [hr]
    simp only [returns_bind, returns_raiseIf]
    exact ⟨(), _, ⟨not_not.2 hd, rfl⟩, hx⟩
  simp only [validateLeaseRequest, wp_bind, wp_readClock]
  exact wp_transaction_ok hw hbody ⟨rfl, (recorded_disposition hr hx).2.2⟩

include hp

theorem noWork_replays : Wp (markLeaseRequestNoWork env q.requestId)
    (fun x w' => w'.db = w.db ∧ Recorded w.db.toTables q.requestId x) (fun _ _ => False) w := by
  obtain ⟨x, hx⟩ := disposition_reads hs (Rows.mem_of_get _ hr)
  have hbody : Returns (markLeaseRequestNoWorkBody q.requestId (env.clock w.reads)) w.db x w.db := by
    simp only [markLeaseRequestNoWorkBody, returns_bind, returns_tables, returns_orRaise]
    refine ⟨_, _, ⟨rfl, rfl⟩, r, _, ⟨hr, rfl⟩, ?_⟩
    split
    · rename_i he
      exact absurd he hp
    · exact hx
  simp only [markLeaseRequestNoWork, wp_bind, wp_readClock]
  exact wp_transaction_ok hw hbody ⟨rfl, (recorded_disposition hr hx).2.2⟩

theorem associate_replays (l : AssignmentLease) : Wp (associateOfferedLease env q l)
    (fun x w' => w'.db = w.db ∧ x.lease = some l ∧ Recorded w.db.toTables q.requestId x)
    (fun e w' => w'.db = w.db ∧ e = .conflict "lease request already has a different disposition") w := by
  obtain ⟨x, hx⟩ := disposition_reads hs (Rows.mem_of_get _ hr)
  obtain ⟨_, hst, hrec⟩ := recorded_disposition hr hx
  simp only [associateOfferedLease, wp_bind, wp_readClock]
  by_cases hl : x.lease = some l
  · have hbody : Returns (associateBody q l [(l, env.clock w.reads)] (env.clock (w.reads + 1))) w.db x w.db := by
      simp only [associateBody, returns_bind, returns_tables, returns_orRaise]
      refine ⟨_, _, ⟨rfl, rfl⟩, r, _, ⟨hr, rfl⟩, x, _, hx, ?_⟩
      rw [if_pos (hst ▸ hp)]
      simp only [returns_bind, returns_raiseIf, returns_pure]
      exact ⟨(), _, ⟨not_not.2 hl, rfl⟩, trivial, rfl⟩
    exact wp_transaction_ok hw hbody ⟨rfl, hl, hrec⟩
  · have hbody : associateBody q l [(l, env.clock w.reads)] (env.clock (w.reads + 1)) w.db =
        .error (.conflict "lease request already has a different disposition") := by
      rw [associateBody, bind_of_returns ((returns_tables _ _ _).2 ⟨rfl, rfl⟩), hr,
        bind_of_returns ((returns_orRaise _ _ _ _ _).2 ⟨rfl, rfl⟩), bind_of_returns hx, if_pos (hst ▸ hp), Txn.raiseIf,
        if_pos hl]
      rfl
    exact wp_transaction_error hbody ⟨rfl, rfl⟩

theorem next_replays {duration : Time} (hd : 0 < duration) (i : OpaqueId) : Wp (leaseNextCompatible env q duration i)
    (fun lease w' => (w'.db = w.db ∧ w'.crashAfter = none) ∧ Recorded w.db.toTables q.requestId ⟨r.state, lease⟩)
    (fun _ _ => False) w := by
  obtain ⟨x, hx⟩ := disposition_reads hs (Rows.mem_of_get _ hr)
  obtain ⟨_, hst, hrec⟩ := recorded_disposition hr hx
  have hlease : ∀ s l, x.state = s → x.lease = l → Recorded w.db.toTables q.requestId ⟨s, l⟩ := by
    rintro s l rfl rfl
    exact hrec
  simp only [leaseNextCompatible, wp_bind, wp_raiseUnless, wp_readClock]
  refine ⟨fun _ => ?_, fun h => absurd hd h⟩
  cases hrs : r.state with
  | pending => exact absurd hrs hp
  | leased =>
    have hbody : Returns (leaseNextBody env q duration i (env.clock w.reads)) w.db (.recorded x.lease) w.db := by
      simp only [leaseNextBody, returns_bind, returns_tables, returns_orRaise]
      refine ⟨_, _, ⟨rfl, rfl⟩, r, _, ⟨hr, rfl⟩, x, _, hx, ?_⟩
      rw [hst, hrs]
      exact (returns_pure _ _ _ _).2 ⟨rfl, rfl⟩
    exact wp_transaction_ok hw hbody ⟨⟨rfl, hw⟩, hlease _ _ (hst.trans hrs) rfl⟩
  | noWork =>
    have hbody : Returns (leaseNextBody env q duration i (env.clock w.reads)) w.db .nothing w.db := by
      simp only [leaseNextBody, returns_bind, returns_tables, returns_orRaise]
      refine ⟨_, _, ⟨rfl, rfl⟩, r, _, ⟨hr, rfl⟩, x, _, hx, ?_⟩
      rw [hst, hrs]
      exact (returns_pure _ _ _ _).2 ⟨rfl, rfl⟩
    have hnone : x.lease = none := (returns_leaseRequestDisposition hx).2.2.2 (by rw [hrs]; simp)
    exact wp_transaction_ok hw hbody ⟨⟨rfl, hw⟩, hlease _ _ (hst.trans hrs) hnone⟩

theorem nextOrCreate_replays {duration : Time} (hd : 0 < duration) (draws : Draws) (artifacts : Artifacts) :
    Wp (leaseOrCreateNextCompatible env q duration draws artifacts)
      (fun lease w' => w'.db = w.db ∧ Recorded w.db.toTables q.requestId ⟨r.state, lease⟩) (fun _ _ => False) w := by
  simp only [leaseOrCreateNextCompatible, wp_bind]
  refine (next_replays hs hw hr hp hd draws.firstLease).imp (fun lease w₁ hreplay => ?_) fun _ _ h => h
  obtain ⟨⟨hdb, hw₁⟩, hrec⟩ := hreplay
  split
  · exact ⟨hdb, hrec⟩
  · -- a request that is not pending never generates
    have hbody : Returns (leaseRequestCanGenerateBody q (env.clock w₁.reads)) w₁.db false w₁.db := by
      simp only [leaseRequestCanGenerateBody, returns_bind, returns_tables]
      refine ⟨_, _, ⟨rfl, rfl⟩, ?_⟩
      rw [hdb, hr]
      split
      · rename_i row session hrow _
        rw [Option.some.injEq] at hrow
        rw [← hrow, decide_eq_false hp]
        exact (returns_pure _ _ _ _).2 ⟨rfl, rfl⟩
      · exact (returns_pure _ _ _ _).2 ⟨rfl, rfl⟩
    simp only [leaseRequestCanGenerate, wp_bind, wp_readClock]
    exact wp_transaction_ok hw₁ hbody ⟨hdb, hrec⟩

theorem replays : Replays env q r w :=
  ⟨validate_replays hs hw hr, noWork_replays hs hw hr hp, associate_replays hs hw hr hp,
    fun _ i hd => (next_replays hs hw hr hp hd i).imp (fun _ _ h => ⟨h.1.1, h.2⟩) fun _ _ h => h,
    fun _ draws artifacts hd => nextOrCreate_replays hs hw hr hp hd draws artifacts⟩

end

/-- **A request of other contents is refused.** -/
theorem validate_refuses {r : RequestRow} (hr : w.db.request? q.requestId = some r)
    (hd : r.requestDigest ≠ env.codec.requestDigest q) : Wp (validateLeaseRequest env q) (fun _ _ => False)
      (fun e w' => w'.db = w.db ∧ e = .conflict "lease request ID already has different contents") w := by
  have hbody : validateLeaseRequestBody q (env.codec.requestDigest q) (env.clock w.reads) w.db =
      .error (.conflict "lease request ID already has different contents") := by
    rw [validateLeaseRequestBody, bind_of_returns ((returns_tables _ _ _).2 ⟨rfl, rfl⟩), hr]
    simp only [Txn.raiseIf, if_pos hd]
    rfl
  simp only [validateLeaseRequest, wp_bind, wp_readClock]
  exact wp_transaction_error hbody ⟨rfl, rfl⟩

/-! ## Every run -/

/-- **Lease requests are idempotent**: a request's row keeps its contents for good, and once it has left `pending` its
state, its lease and that lease's assignment; no lease answers two requests.  Every answer is what the row then records,
a call for an answered request returns the answer again without effect, and other contents are refused. -/
theorem request_answered_once (env : Env) (steps more : List Step) :
    let w := reached env steps
    let w' := reached env (steps ++ more)
    (∀ i r, w.db.request? i = some r → ∃ r', w'.db.request? i = some r' ∧ r'.requestDigest = r.requestDigest ∧
      (r.state ≠ .pending → r' = r ∧ w'.db.recorded r' = w.db.recorded r)) ∧
    (∀ r ∈ w.db.requests, (r.state = .leased ↔ r.leaseId ≠ none) ∧
      ∀ r' ∈ w.db.requests, r.leaseId ≠ none → r'.leaseId = r.leaseId → r' = r) ∧
    (∀ q : LeaseRequest, Answers env q w) ∧
    (∀ (q : LeaseRequest) r, w.db.request? q.requestId = some r → r.state ≠ .pending → Replays env q r w.alive) ∧
    (∀ (q : LeaseRequest) r, w.db.request? q.requestId = some r → r.requestDigest ≠ env.codec.requestDigest q →
      Wp (validateLeaseRequest env q) (fun _ _ => False)
        (fun e w' => w'.db = w.db ∧ e = .conflict "lease request ID already has different contents") w) := by
  intro w w'
  have hs : w.Sound env := reached_sound env steps
  have hw' : w' = runFrom env w more := runFrom_append env World.fresh steps more
  have hkept : RequestsKept w.db w'.db := hw' ▸ runFrom_requestsKept env more hs
  have hgrows : Grows w.db.toTables w'.db.toTables := hw' ▸ (runFrom_sound env more hs).2
  refine ⟨fun i r hr => ?_, fun r hr => ⟨?_, fun r' hr' hl he => ?_⟩, fun q => answers q hs,
    fun q r hr hp => replays (w := w.alive) hs rfl hr hp, fun q r hr hd => validate_refuses hr hd⟩
  · obtain ⟨r', hr', hd, hk⟩ := hkept i r hr
    refine ⟨r', hr', hd, fun hp => ?_⟩
    obtain rfl := hk hp
    exact ⟨rfl, hgrows.recorded (Rows.mem_of_get _ hr)⟩
  · rcases w.db.ok.requests.shape r hr with ⟨hst, hl, _⟩ | ⟨hst, hl, _⟩ | ⟨hst, hl, _⟩ <;> simp [hst, hl]
  · obtain ⟨i, hi⟩ := Option.ne_none_iff_exists'.1 hl
    exact Rows.eq_of_filterMap _ w.db.ok.requests.leaseUnique hr' hr (he.trans hi) hi

end Aether
