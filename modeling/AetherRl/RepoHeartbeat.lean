import AetherRl.RepoAdmits
import AetherRl.RepoTiming
import AetherRl.RepoAttempts
/-!
# RepoHeartbeat — a heartbeat renews what a renewal renews

`record_heartbeat` codes the rule of `renew_lease` a second time, in bulk and without errors.  Here is what it answers of
each lease, as a function of the rows it read (`heartbeatAnswer`), and that a lease is renewed in it exactly when its
single renewal would return, to the same expiry.
-/
namespace Aether

open Txn
open Tables Repo

variable {now : Time} {d d' : Db} {env : Env} {w : World}

/-! ## The response -/

/-- `WorkerHeartbeatResponse`, which its validator may refuse. -/
structure WorkerHeartbeatResponse where
  serverTime : Time
  renewals : List LeaseRenewal
  stopLeaseIds : List OpaqueId
  renewals_sorted : (renewals.map (·.leaseId)).Pairwise (· < ·)
  stops_sorted : stopLeaseIds.Pairwise (· < ·)

def buildHeartbeatResponse (serverTime : Time) (renewals : List LeaseRenewal) (stopLeaseIds : List OpaqueId) :
    Except Error WorkerHeartbeatResponse :=
  if h : (renewals.map (·.leaseId)).Pairwise (· < ·) ∧ stopLeaseIds.Pairwise (· < ·) then
    .ok ⟨serverTime, renewals, stopLeaseIds, h.1, h.2⟩
  else .error .validation

/-! ## What a heartbeat answers of each lease -/

/-- The answer to one lease, from the rows read before the first. -/
def heartbeatAnswer (t : Tables) (now duration : Time) (i : OpaqueId) : LeaseRenewal ⊕ OpaqueId :=
  match (t.lease? i).bind (fun l => (t.assignment? l.assignmentId).map (fun a => (l, a))) with
  | none => .inr i
  | some (l, a) =>
    if (t.leaseCancellation? i).isSome ∨ l.state ≠ .active ∨ a.state ≠ .leased ∨ l.expiresAt ≤ now ∨
        due a.deadlineAt now then .inr i
    else .inl ⟨l.assignmentId, i, renewedExpiry l a.deadlineAt now duration⟩

theorem returns_heartbeatLease {t : Tables} {duration : Time} {i : OpaqueId} {answer : LeaseRenewal ⊕ OpaqueId}
    (h : Returns (heartbeatLease t now duration i) d answer d') : answer = heartbeatAnswer t now duration i := by
  simp only [heartbeatLease, returns_bind] at h
  obtain ⟨_, d₁, _, h⟩ := h
  unfold heartbeatAnswer
  generalize (t.lease? i).bind (fun l => (t.assignment? l.assignmentId).map (fun a => (l, a))) = found at h ⊢
  cases found with
  | none => exact ((returns_pure _ _ _ _).1 h).1
  | some both =>
    obtain ⟨l, a⟩ := both
    dsimp only at h ⊢
    split at h <;> rename_i hc
    · rw [if_pos hc]
      exact ((returns_pure _ _ _ _).1 h).1
    · rw [if_neg hc]
      simp only [returns_bind, returns_pure] at h
      obtain ⟨_, _, _, rfl, _⟩ := h
      rfl

/-- **The answers of a heartbeat**: each lease's own, the renewals and the stops each in the order of the leases. -/
theorem returns_heartbeatLeases {t : Tables} {duration : Time} : ∀ {is : List OpaqueId} {d d' : Db}
    {answer : List LeaseRenewal × List OpaqueId}, Returns (heartbeatLeases t now duration is) d answer d' →
    answer = (is.filterMap fun i => (heartbeatAnswer t now duration i).getLeft?,
      is.filterMap fun i => (heartbeatAnswer t now duration i).getRight?)
  | [], d, d', answer, h => ((returns_pure _ _ _ _).1 h).1
  | i :: is, d, d', answer, h => by
    rw [heartbeatLeases] at h
    simp only [returns_bind] at h
    obtain ⟨first, d₁, h₁, rest, d₂, h₂, h₃⟩ := h
    have hfirst := returns_heartbeatLease h₁
    have hrest := returns_heartbeatLeases h₂
    rw [List.filterMap_cons, List.filterMap_cons, ← hfirst]
    rw [hrest] at h₃
    cases first with
    | inl renewal => exact ((returns_pure _ _ _ _).1 h₃).1
    | inr stop => exact ((returns_pure _ _ _ _).1 h₃).1

/-- An answer names the lease it is about. -/
theorem heartbeatAnswer_id (t : Tables) (now duration : Time) (i : OpaqueId) :
    (∀ r, heartbeatAnswer t now duration i = .inl r → r.leaseId = i) ∧
      ∀ j, heartbeatAnswer t now duration i = .inr j → j = i := by
  unfold heartbeatAnswer
  split
  · exact ⟨fun r h => (Sum.inr_ne_inl h).elim, fun j h => (Sum.inr.inj h).symm⟩
  · split
    · exact ⟨fun r h => (Sum.inr_ne_inl h).elim, fun j h => (Sum.inr.inj h).symm⟩
    · exact ⟨fun r h => by rw [← Sum.inl.inj h], fun j h => (Sum.inl_ne_inr h).elim⟩

theorem lease?_setLease {t : Tables} {i : OpaqueId} {f : LeaseRow → LeaseRow} (hf : ∀ l, (f l).leaseId = l.leaseId) :
    (setLease i f t).lease? i = (t.lease? i).map f := by
  rw [Tables.lease?, Tables.setLease, Rows.get_set _ (fun l _ _ => hf l), if_pos rfl]
  rfl

/-- **One lease of a heartbeat writes its own row**: to the expiry it answers. -/
theorem heartbeatLease_rows {t : Tables} {duration : Time} {i : OpaqueId} {answer : LeaseRenewal ⊕ OpaqueId}
    (hl : d.lease? i = t.lease? i) (h : Returns (heartbeatLease t now duration i) d answer d') :
    (∀ j, j ≠ i → d'.lease? j = d.lease? j) ∧
      ∀ r, answer = .inl r → ∃ l, d'.lease? i = some l ∧ l.expiresAt = r.expiresAt := by
  simp only [heartbeatLease, returns_bind] at h
  obtain ⟨_, d₁, h₁, h⟩ := h
  have hsame : ∀ j, d₁.lease? j = d.lease? j := by
    intro j
    unfold deliverWhen at h₁
    split at h₁
    · have hw := writes_deliverCancellation (S := [.leaseCancellations]) i now (by decide) _ _ _ h₁
      have hls : d₁.leases = d.leases := hw .leases (by decide)
      rw [Tables.lease?, hls]
      rfl
    · rw [((returns_pure _ _ _ _).1 h₁).2]
  have hstop : ∀ {d' : Db}, answer = .inr i ∧ d' = d₁ → (∀ j, j ≠ i → d'.lease? j = d.lease? j) ∧
      ∀ r, answer = .inl r → ∃ l, d'.lease? i = some l ∧ l.expiresAt = r.expiresAt := by
    rintro d' ⟨rfl, rfl⟩
    exact ⟨fun j _ => hsame j, fun r hr => (Sum.inr_ne_inl hr).elim⟩
  split at h
  · exact hstop ((returns_pure _ _ _ _).1 h)
  · rename_i l a hb
    split at h
    · exact hstop ((returns_pure _ _ _ _).1 h)
    · simp only [returns_bind, returns_exec, returns_pure] at h
      obtain ⟨_, d₂, h₂, rfl, rfl⟩ := h
      obtain ⟨l', hl', _⟩ := Option.bind_eq_some_iff.1 hb
      constructor
      · intro j hj
        rw [h₂, ← hsame j]
        exact lease?_setLease_of_ne (fun _ => rfl) hj
      · intro r hr
        obtain rfl := Sum.inl.inj hr
        have hrow : d₁.lease? i = some l' := by rw [hsame, hl, hl']
        refine ⟨{ l' with expiresAt := renewedExpiry l a.deadlineAt now duration }, ?_, rfl⟩
        have hset : (setLease i (fun m => { m with expiresAt := renewedExpiry l a.deadlineAt now duration })
            d₁.toTables).lease? i =
              (d₁.lease? i).map fun m => { m with expiresAt := renewedExpiry l a.deadlineAt now duration } :=
          lease?_setLease fun _ => rfl
        rw [h₂, hset, hrow]
        rfl

theorem heartbeatLeases_rows {t : Tables} {duration : Time} : ∀ {is : List OpaqueId} {d d' : Db}
    {answer : List LeaseRenewal × List OpaqueId}, is.Nodup → (∀ i ∈ is, d.lease? i = t.lease? i) →
    Returns (heartbeatLeases t now duration is) d answer d' →
    (∀ j, j ∉ is → d'.lease? j = d.lease? j) ∧
      ∀ i ∈ is, ∀ r, heartbeatAnswer t now duration i = .inl r → ∃ l, d'.lease? i = some l ∧ l.expiresAt = r.expiresAt
  | [], d, d', answer, _, _, h => by
    rw [((returns_pure _ _ _ _).1 h).2]
    exact ⟨fun _ _ => rfl, fun _ hi => absurd hi List.not_mem_nil⟩
  | i :: is, d, d', answer, hn, hl, h => by
    rw [heartbeatLeases] at h
    simp only [returns_bind] at h
    obtain ⟨first, d₁, h₁, rest, d₂, h₂, h₃⟩ := h
    have hd : d' = d₂ := by
      split at h₃ <;> exact ((returns_pure _ _ _ _).1 h₃).2
    rw [List.nodup_cons] at hn
    obtain ⟨hother, hself⟩ := heartbeatLease_rows (hl i List.mem_cons_self) h₁
    obtain ⟨hother', hself'⟩ := heartbeatLeases_rows hn.2 (fun j hj => by
      rw [hother j fun he => hn.1 (he ▸ hj)]
      exact hl j (List.mem_cons_of_mem _ hj)) h₂
    rw [hd]
    constructor
    · intro j hj
      rw [List.mem_cons, not_or] at hj
      rw [hother' j hj.2, hother j hj.1]
    · intro j hj r hr
      rcases List.mem_cons.1 hj with rfl | hj
      · rw [hother' j hn.1]
        exact hself r ((returns_heartbeatLease h₁).trans hr)
      · exact hself' j hj r hr

section
variable {t : Tables} {duration : Time} {is : List OpaqueId}

theorem mem_renewals {i : OpaqueId} : i ∈ (is.filterMap fun j => (heartbeatAnswer t now duration j).getLeft?).map (·.leaseId) ↔
    i ∈ is ∧ ∃ r, heartbeatAnswer t now duration i = .inl r := by
  simp only [List.mem_map, List.mem_filterMap, Sum.getLeft?_eq_some_iff]
  constructor
  · rintro ⟨r, ⟨j, hj, hr⟩, rfl⟩
    have hid := (heartbeatAnswer_id t now duration j).1 r hr
    exact hid ▸ ⟨hj, r, hr⟩
  · rintro ⟨hi, r, hr⟩
    exact ⟨r, ⟨i, hi, hr⟩, (heartbeatAnswer_id t now duration i).1 r hr⟩

theorem mem_stops {i : OpaqueId} : i ∈ (is.filterMap fun j => (heartbeatAnswer t now duration j).getRight?) ↔
    i ∈ is ∧ heartbeatAnswer t now duration i = .inr i := by
  simp only [List.mem_filterMap, Sum.getRight?_eq_some_iff]
  constructor
  · rintro ⟨j, hj, hr⟩
    obtain rfl := (heartbeatAnswer_id t now duration j).2 i hr
    exact ⟨hj, hr⟩
  · rintro ⟨hi, hr⟩
    exact ⟨i, hi, hr⟩

/-- **Both lists of a response are sorted and free of duplicates**, since the heartbeat's is. -/
theorem answers_sorted (t : Tables) (now duration : Time) (hs : is.Pairwise (· < ·)) :
    ((is.filterMap fun j => (heartbeatAnswer t now duration j).getLeft?).map (·.leaseId)).Pairwise (· < ·) ∧
      (is.filterMap fun j => (heartbeatAnswer t now duration j).getRight?).Pairwise (· < ·) := by
  constructor
  · rw [List.pairwise_map]
    refine hs.filterMap _ fun i j hij r hr r' hr' => ?_
    rw [(heartbeatAnswer_id t now duration i).1 r (Sum.getLeft?_eq_some_iff.1 hr),
      (heartbeatAnswer_id t now duration j).1 r' (Sum.getLeft?_eq_some_iff.1 hr')]
    exact hij
  · refine hs.filterMap _ fun i j hij k hk k' hk' => ?_
    rw [(heartbeatAnswer_id t now duration i).2 k (Sum.getRight?_eq_some_iff.1 hk),
      (heartbeatAnswer_id t now duration j).2 k' (Sum.getRight?_eq_some_iff.1 hk')]
    exact hij

end

/-! ## What a renewal needs -/

/-- **A renewal whose rows allow it returns**: without a bound on when it was sent, nothing else can stop it. -/
theorem renewBody_returns {r : RenewalArgs} {d₁ : Db} {l : LeaseRow} {a : AssignmentRow} {t : Time}
    (h₁ : Returns (reconcileStaleWork now) d () d₁) (hs : Sound now d₁.toTables) (h : Renewed r now d₁ l a t)
    (he : r.expectedAssignmentId = none) (hsent : r.sentAt = none) :
    ∃ d', Returns (renewBody r now) d (.inr (l, a, t)) d' := by
  obtain rfl := h.expiry
  have hm := Rows.mem_of_get _ h.lease
  have hle := (renewedExpiry_bounds now r.duration (hs.expires_le hm h.assignment)).1
  have hok : SchemaOk (setLease r.leaseId (fun m => { m with
      expiresAt := renewedExpiry l a.deadlineAt now r.duration
      lastRenewSentAt := r.sentAt.or m.lastRenewSentAt }) d₁.toTables) := by
    refine schema_setLease d₁.ok (fun _ => rfl) fun m hm' hi => ?_
    have hml : m = l := Rows.eq_of_key _ d₁.ok.leases.key hm' hm (hi.trans (Rows.key_of_get _ h.lease).symm)
    rw [hml]
    exact (d₁.ok.leases.times l hm).trans_le hle
  refine ⟨⟨_, hok⟩, ?_⟩
  simp only [renewBody, returns_bind, returns_tables, returns_raiseIf, returns_orRaise]
  refine ⟨(), d₁, h₁, _, _, ⟨rfl, rfl⟩, (), _, ⟨?_, rfl⟩, l, _, ⟨h.lease, rfl⟩, (), _, ⟨?_, rfl⟩, (), _, ⟨?_, rfl⟩, _, _,
    ⟨rfl, rfl⟩, ?_⟩
  · simp [he]
  · simp [h.active, h.unexpired]
  · simp [h.owner]
  · rw [h.uncancelled]
    have ha : Returns (assignment l.assignmentId) d₁ a d₁ := by
      simp only [assignment, returns_bind, returns_tables, returns_orRaise]
      exact ⟨_, _, ⟨rfl, rfl⟩, h.assignment, rfl⟩
    simp only [returns_bind, returns_raiseIf, returns_pure, returns_exec]
    exact ⟨(), _, ⟨by simp [hsent], rfl⟩, a, _, ha, (), _, ⟨by simp [h.deadline], rfl⟩, (), _, rfl, rfl, rfl⟩

/-- **A heartbeat answers a renewal exactly where a renewal may return**, with the expiry that one sets. -/
theorem heartbeatAnswer_renewed {r : RenewalArgs} (hs : Sound now d.toTables)
    (hown : ∀ l ∈ d.lease? r.leaseId, l.workerId = r.workerId ∧ l.workerSessionId = r.workerSessionId) (t : Time) :
    (∃ renewal, heartbeatAnswer d.toTables now r.duration r.leaseId = .inl renewal ∧ renewal.expiresAt = t) ↔
      ∃ l a, Renewed r now d l a t := by
  unfold heartbeatAnswer
  constructor
  · rintro ⟨renewal, h, rfl⟩
    split at h
    · cases h
    · rename_i l a hb
      split at h
      · cases h
      · rename_i hc
        simp only [not_or, not_le, ne_eq, not_not, Bool.not_eq_true] at hc
        obtain ⟨hcancel, hact, hst, hexp, hdue⟩ := hc
        rw [Option.bind_eq_some_iff] at hb
        obtain ⟨l', hl, hb⟩ := hb
        rw [Option.map_eq_some_iff] at hb
        obtain ⟨a', ha, hb⟩ := hb
        obtain ⟨rfl, rfl⟩ := Prod.mk.inj hb
        refine ⟨l', a', ⟨hl, hact, hexp, hown l' hl, by simpa using hcancel, ha, hdue, ?_⟩⟩
        rw [← Sum.inl.inj h]
  · rintro ⟨l, a, h⟩
    -- an active lease's assignment is leased: the heartbeat's one extra test
    have hx := life?_of_assignment h.assignment
    have hst : a.state = .leased :=
      ((hs.wf _ _ hx).held_of_active ((mem_life_leases hx).2 ⟨Rows.mem_of_get _ h.lease, rfl⟩) h.active).1
    rw [h.lease, Option.bind_some, h.assignment, Option.map_some]
    dsimp only
    rw [if_neg (by simp [h.uncancelled, h.active, hst, h.unexpired, h.deadline])]
    exact ⟨_, rfl, h.expiry.symm⟩

/-! ## The two calls -/

theorem transaction_returns {α : Type} (w : World) (body : Body α) (a : α) :
    (transaction body w).1 = .ok a ↔ w.crashAfter ≠ some 0 ∧ ∃ d', Returns body w.db a d' := by
  unfold transaction Returns durable
  cases hb : body w.db with
  | error e => simp
  | ok p =>
    obtain ⟨a', d'⟩ := p
    cases hc : w.crashAfter with
    | none => simp
    | some n => cases n <;> simp

theorem transaction_committed {α : Type} {body : Body α} {a : α} (h : (transaction body w).1 = .ok a) :
    Returns body w.db a (transaction body w).2.db := by
  unfold transaction at h ⊢
  cases hb : body w.db with
  | error e => rw [hb] at h; cases h
  | ok p =>
    obtain ⟨a', d'⟩ := p
    simp only [hb] at h ⊢
    rcases durable_cases (fun w => (.ok a', { w with db := d' })) w with hd | ⟨n, hd⟩ <;> rw [hd] at h ⊢
    · cases h
    · obtain rfl := Except.ok.inj h
      exact hb

/-- **What a heartbeat that returns checked, answered and wrote.** -/
theorem recordHeartbeat_returns {b : WorkerHeartbeat} {duration : Time} {answer : List LeaseRenewal × List OpaqueId}
    (h : (recordHeartbeat env b duration w).1 = .ok answer) :
    0 < duration ∧ w.crashAfter ≠ some 0 ∧ ∃ d₁, Returns (reconcileStaleWork (env.clock w.reads)) w.db () d₁ ∧
      (∀ i ∈ b.activeLeaseIds, ∀ l ∈ d₁.lease? i, l.workerId = b.workerId ∧ l.workerSessionId = b.workerSessionId) ∧
      answer = (b.activeLeaseIds.filterMap fun i => (heartbeatAnswer d₁.toTables (env.clock w.reads) duration i).getLeft?,
        b.activeLeaseIds.filterMap fun i => (heartbeatAnswer d₁.toTables (env.clock w.reads) duration i).getRight?) ∧
      ∀ i ∈ b.activeLeaseIds, ∀ r, heartbeatAnswer d₁.toTables (env.clock w.reads) duration i = .inl r →
        ∃ l, (recordHeartbeat env b duration w).2.db.lease? i = some l ∧ l.expiresAt = r.expiresAt := by
  rw [recordHeartbeat, raiseUnless_bind] at h ⊢
  split at h
  · rename_i hd
    rw [if_pos hd]
    have h : (transaction (heartbeatBody b duration (env.clock w.reads)) { w with reads := w.reads + 1 }).1 = .ok answer :=
      h
    have hc := ((transaction_returns _ _ _).1 h).1
    have h := transaction_committed h
    obtain ⟨last, hdb⟩ : ∃ last, last = (transaction (heartbeatBody b duration (env.clock w.reads))
      { w with reads := w.reads + 1 }).2.db := ⟨_, rfl⟩
    rw [← hdb] at h
    simp only [heartbeatBody, returns_bind, returns_tables, returns_raiseIf, returns_pure] at h
    obtain ⟨_, d₁, h₁, session, _, hses, _, _, ⟨_, rfl⟩, _, _, hval, _, _, ⟨rfl, rfl⟩, _, _, ⟨hown, rfl⟩, answer', d₂, h₂,
      _, d₃, h₃, rfl, hlast⟩ := h
    obtain ⟨_, _, rfl⟩ := returns_compatibleSession hses
    obtain rfl := returns_validatePolicyIds hval
    refine ⟨hd, hc, _, h₁, fun i hi l hl => ?_, returns_heartbeatLeases h₂, fun i hi r hr => ?_⟩
    · by_contra hne
      exact hown ⟨i, hi, l, hl, by tauto⟩
    · have hn : b.activeLeaseIds.Nodup := b.active_sorted.imp fun h => ne_of_lt h
      obtain ⟨l, hl, he⟩ := (heartbeatLeases_rows hn (fun _ _ => rfl) h₂).2 i hi r hr
      refine ⟨l, ?_, he⟩
      show (transaction (heartbeatBody b duration (env.clock w.reads)) { w with reads := w.reads + 1 }).2.db.lease? i = _
      rw [← hdb, hlast, (returns_exec _ _ _ _).1 h₃]
      exact hl
  · cases h

theorem buildLease_expires {i k s : OpaqueId} {n : Nat} {issued expires : Time} {a : RolloutAssignment}
    {lease : AssignmentLease} (h : buildLease i n k s issued expires a = .ok lease) : lease.expiresAt = expires := by
  unfold buildLease at h
  split at h
  · rw [← Except.ok.inj h]
  · cases h

/-- What a renewal makes of the answer of its transaction. -/
def renewedLease (r : RenewalArgs) : CancelReason ⊕ (LeaseRow × AssignmentRow × Time) →
    Method (CancelReason ⊕ AssignmentLease)
  | .inl reason => pure (.inl reason)
  | .inr (l, a, expiresAt) =>
    match buildLease r.leaseId l.attempt r.workerId r.workerSessionId l.issuedAt expiresAt a.assignment with
    | .ok lease => pure (.inr lease)
    | .error e => throw e

/-- **A renewal returns a lease exactly when its rows allow it.** -/
theorem renewLease_returns {r : RenewalArgs} (hs : w.Sound env) (hd : 0 < r.duration) (hc : w.crashAfter ≠ some 0)
    (he : r.expectedAssignmentId = none) (hsent : r.sentAt = none) {d₁ : Db}
    (h₁ : Returns (reconcileStaleWork (env.clock w.reads)) w.db () d₁) (t : Time) :
    (∃ lease, (renewLease env r w).1 = .ok (.inr lease) ∧ lease.expiresAt = t) ↔
      ∃ l a, Renewed r (env.clock w.reads) d₁ l a t := by
  have hs₁ : Sound (env.clock w.reads) d₁.toTables := (reconcileStaleWork_sound (sound_clock hs) h₁).1.1
  have htx := transaction_returns { w with reads := w.reads + 1 } (renewBody r (env.clock w.reads))
  have hrun : renewLease env r w =
      (transaction (renewBody r (env.clock w.reads)) >>= renewedLease r) { w with reads := w.reads + 1 } := by
    rw [renewLease, raiseUnless_bind, if_pos hd]
    rfl
  rw [hrun, method_bind]
  cases htr : transaction (renewBody r (env.clock w.reads)) { w with reads := w.reads + 1 } with
  | mk result w' =>
    rw [htr] at htx
    constructor
    · rintro ⟨lease, h, rfl⟩
      cases result with
      | error e => cases h
      | ok answer =>
        obtain ⟨_, d', hret⟩ := (htx answer).1 rfl
        cases answer with
        | inl reason => cases h
        | inr x =>
          obtain ⟨l, a, t⟩ := x
          obtain ⟨d₂, h₂, hren⟩ := returns_renewBody hret
          obtain rfl : d₂ = d₁ := (Prod.mk.inj (Except.ok.inj (h₂.symm.trans h₁))).2
          obtain ⟨lease', hb⟩ := hren.builds hs₁
          simp only [renewedLease, hb] at h
          obtain rfl : lease' = lease := Sum.inr.inj (Except.ok.inj h)
          rw [buildLease_expires hb]
          exact ⟨l, a, hren⟩
    · rintro ⟨l, a, hren⟩
      obtain ⟨d', hret⟩ := renewBody_returns h₁ hs₁ hren he hsent
      obtain rfl := (htx (.inr (l, a, t))).2 ⟨hc, d', hret⟩
      obtain ⟨lease, hb⟩ := hren.builds hs₁
      simp only [renewedLease, hb]
      exact ⟨lease, rfl, buildLease_expires hb⟩

/-! ## Every reached state -/

/-- What a heartbeat answers of its leases, beside what `renew_lease` returns for each in the same state. -/
structure HeartbeatAgrees (env : Env) (w w' : World) (b : WorkerHeartbeat) (duration : Time)
    (renewals : List LeaseRenewal) (stops : List OpaqueId) : Prop where
  renewed : ∀ i ∈ b.activeLeaseIds, ∀ acknowledge t, (∃ r ∈ renewals, r.leaseId = i ∧ r.expiresAt = t) ↔
    ∃ lease, (renewLease env ⟨i, b.workerId, b.workerSessionId, duration, none, none, acknowledge⟩ w).1 =
      .ok (.inr lease) ∧ lease.expiresAt = t
  written : ∀ r ∈ renewals, ∃ l ∈ w'.db.lease? r.leaseId, l.expiresAt = r.expiresAt
  listed : ∀ i, i ∈ renewals.map (·.leaseId) ∨ i ∈ stops ↔ i ∈ b.activeLeaseIds
  once : ∀ i ∈ stops, i ∉ renewals.map (·.leaseId)
  renewals_sorted : (renewals.map (·.leaseId)).Pairwise (· < ·)
  stops_sorted : stops.Pairwise (· < ·)
  response : ∀ serverTime, ∃ response, buildHeartbeatResponse serverTime renewals stops = .ok response ∧
    response.renewals = renewals ∧ response.stopLeaseIds = stops

theorem heartbeatAgrees_of_ok {b : WorkerHeartbeat} {duration : Time} {renewals : List LeaseRenewal}
    {stops : List OpaqueId} (hs : w.Sound env) (h : (recordHeartbeat env b duration w).1 = .ok (renewals, stops)) :
    HeartbeatAgrees env w (recordHeartbeat env b duration w).2 b duration renewals stops := by
  obtain ⟨hd, hc, d₁, h₁, hown, heq, hrows⟩ := recordHeartbeat_returns h
  obtain ⟨rfl, rfl⟩ := Prod.mk.inj heq
  have hs₁ : Sound (env.clock w.reads) d₁.toTables := (reconcileStaleWork_sound (sound_clock hs) h₁).1.1
  obtain ⟨hsr, hss⟩ := answers_sorted d₁.toTables (env.clock w.reads) duration b.active_sorted
  refine ⟨fun i hi acknowledge t => ?_, fun r hr => ?_, fun i => ?_, fun i hi hr => ?_, hsr, hss, fun serverTime => ?_⟩
  · rw [renewLease_returns hs hd hc rfl rfl h₁ t, ← heartbeatAnswer_renewed hs₁ (hown i hi) t]
    constructor
    · rintro ⟨r, hr, rfl, rfl⟩
      obtain ⟨j, _, hj⟩ := List.mem_filterMap.1 hr
      have hj := Sum.getLeft?_eq_some_iff.1 hj
      obtain rfl := (heartbeatAnswer_id _ _ _ j).1 r hj
      exact ⟨r, hj, rfl⟩
    · rintro ⟨r, hr, rfl⟩
      exact ⟨r, List.mem_filterMap.2 ⟨i, hi, Sum.getLeft?_eq_some_iff.2 hr⟩, (heartbeatAnswer_id _ _ _ i).1 r hr, rfl⟩
  · obtain ⟨j, hj, hr⟩ := List.mem_filterMap.1 hr
    have hr := Sum.getLeft?_eq_some_iff.1 hr
    rw [(heartbeatAnswer_id _ _ _ j).1 r hr]
    exact hrows j hj r hr
  · rw [mem_renewals, mem_stops]
    constructor
    · rintro (⟨hi, _⟩ | ⟨hi, _⟩) <;> exact hi
    · intro hi
      cases ha : heartbeatAnswer d₁.toTables (env.clock w.reads) duration i with
      | inl r => exact Or.inl ⟨hi, r, rfl⟩
      | inr j =>
        obtain rfl := (heartbeatAnswer_id _ _ _ i).2 j ha
        exact Or.inr ⟨hi, rfl⟩
  · obtain ⟨_, hstop⟩ := mem_stops.1 hi
    obtain ⟨_, r, hrenew⟩ := mem_renewals.1 hr
    rw [hstop] at hrenew
    cases hrenew
  · unfold buildHeartbeatResponse
    rw [dif_pos ⟨hsr, hss⟩]
    exact ⟨_, rfl, rfl, rfl⟩

/-- **A heartbeat agrees with the single renewals** of its session: one that returns renews a lease of its list to
exactly the expiry `renew_lease` would return in the same state, every lease of the list is in one of the two answers
and no other is, both are sorted without duplicates, so the response passes its validator; one that raises, or dies,
leaves the database as it was. -/
theorem heartbeat_agrees (env : Env) (steps : List Step) (crashAfter : Option Nat) (torn : Nat) (b : WorkerHeartbeat)
    (duration : Time) :
    Wp (recordHeartbeat env b duration)
      (fun answer w' => HeartbeatAgrees env { reached env steps with crashAfter := crashAfter, torn := torn } w' b duration
        answer.1 answer.2)
      (fun _ w' => w'.db = (reached env steps).db)
      { reached env steps with crashAfter := crashAfter, torn := torn } := by
  have hs : World.Sound env { reached env steps with crashAfter := crashAfter, torn := torn } := reached_sound env steps
  unfold Wp
  split
  · rename_i answer w' h
    have hagrees := heartbeatAgrees_of_ok hs (by rw [h])
    rw [h] at hagrees
    exact hagrees
  · rename_i e w' h
    have hwp : Wp (recordHeartbeat env b duration) (fun _ _ => True) (fun _ w' => w'.db = (reached env steps).db)
        { reached env steps with crashAfter := crashAfter, torn := torn } := by
      simp only [recordHeartbeat, wp_bind, wp_raiseUnless, wp_readClock]
      exact ⟨fun _ => wp_transaction (fun _ _ _ _ => trivial) fun _ => rfl, fun _ => trivial⟩
    unfold Wp at hwp
    rw [h] at hwp
    exact hwp

end Aether
