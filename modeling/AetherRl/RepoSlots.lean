import AetherRl.RepoFairness
/-!
# RepoSlots — the leases of a session and its slots

A lease takes a slot of its session while it is active, unexpired, before its assignment's deadline and not known to be
cancelled.  No move gives a slot back to a lease that has lost it, so only a grant adds one, and both ways to grant count
before they do.
-/
namespace Aether

open Txn (Returns Writes returns_bind returns_pure returns_orRaise returns_raiseIf)
open Tables Repo

variable {now later : Time} {d d' d'' : Db} {env : Env}

/-! ## Holders -/

/-- The leases that take a slot of the session. -/
def holders (t : Tables) (now : Time) (i : OpaqueId) : List LeaseRow :=
  t.leases.filter (fun l => decide (l.workerSessionId = i) && holdsSlot t now l)

theorem mem_holders {t : Tables} {i : OpaqueId} {l : LeaseRow} :
    l ∈ holders t now i ↔ l ∈ t.leases ∧ l.workerSessionId = i ∧ holdsSlot t now l = true := by
  rw [holders, List.mem_filter, Bool.and_eq_true, decide_eq_true_eq]

/-- **The query sees what the life of the assignment shows.** -/
theorem holdsSlot_iff {l : LeaseRow} (hl : l ∈ d.leases) {x : Life} (hx : d.life? l.assignmentId = some x) :
    holdsSlot d.toTables now l = true ↔ x.Holds now l := by
  have hrow : d.assignment? l.assignmentId = some x.row := (life_row hx).1
  have hmark : ∀ c, d.leaseCancellation? l.leaseId = some c ↔ c ∈ x.leaseCancellations ∧ c.leaseId = l.leaseId := by
    intro c
    rw [Tables.leaseCancellation?, Rows.get_eq_some _ d.ok.cancellations.leaseKey, mem_life_marks hx]
    constructor
    · rintro ⟨hc, hi⟩
      obtain ⟨m, hm, hma, hmi⟩ := d.ok.cancellations.lease c hc
      rw [Rows.eq_of_key _ d.ok.leases.key hm hl (hmi.trans hi)] at hma
      exact ⟨⟨hc, hma.symm⟩, hi⟩
    · rintro ⟨⟨hc, _⟩, hi⟩
      exact ⟨hc, hi⟩
  simp only [holdsSlot, hrow, Bool.and_eq_true, decide_eq_true_eq, Option.any_some, Option.all_eq_true,
    Option.isNone_iff_eq_none]
  constructor
  · rintro ⟨⟨⟨ha, he⟩, hd⟩, hm⟩
    exact ⟨ha, he, fun t ht => hd t ht, fun c hc hi => hm c ((hmark c).2 ⟨hc, hi⟩)⟩
  · rintro ⟨ha, he, hd, hm⟩
    refine ⟨⟨⟨ha, he⟩, fun t ht => hd t ht⟩, fun c hc => ?_⟩
    obtain ⟨hcm, hi⟩ := (hmark c).1 hc
    exact hm c hcm hi

/-- **No lease gains a slot** but those of `new`. -/
def Holding (now : Time) (new : List LeaseRow) (d d' : Db) : Prop :=
  ∀ l ∈ d'.leases, holdsSlot d'.toTables now l = true →
    (∃ l₀ ∈ d.leases, holdsSlot d.toTables now l₀ = true ∧ l₀.fixed = l.fixed) ∨ l ∈ new

/-- **Moves give slots to no lease that was there.** -/
theorem Advances.holding {G : OpaqueId → Prop} (h : Advances now G d.toTables d'.toTables) (hs : Sound now d.toTables)
    {new : List LeaseRow} (hl : ∀ l ∈ d'.leases, l.fixed ∈ d.leases.map LeaseRow.fixed ∨ l ∈ new) : Holding now new d d' := by
  intro l hm hslot
  obtain ⟨y, hy, hly⟩ := life?_of_lease d'.ok hm
  obtain ⟨x, hx, hmoves, _⟩ := h.before hy
  rcases hmoves.holds (hs.wf _ _ hx) hly ((holdsSlot_iff hm hy).1 hslot) with ⟨l₀, hl₀, hh, he⟩ | hnew
  · obtain ⟨hl₀, hid⟩ := (mem_life_leases hx).1 hl₀
    exact Or.inl ⟨l₀, hl₀, (holdsSlot_iff hl₀ (hid ▸ hx)).2 hh, he⟩
  · refine (hl l hm).resolve_left (fun hold => hnew ?_) |> Or.inr
    obtain ⟨l₀, hl₀, he⟩ := List.mem_map.1 hold
    have hid : l₀.assignmentId = l.assignmentId := congrArg (·.assignmentId) he
    exact he ▸ List.mem_map_of_mem ((mem_life_leases hx).2 ⟨hl₀, hid⟩)

theorem Holding.of_rows (h : ∀ k ∈ [Table.assignments, .leases, .leaseCancellations], d'.rows k = d.rows k) :
    Holding now [] d d' := by
  have ha : d'.assignments = d.assignments := h .assignments (by decide)
  have hl : d'.leases = d.leases := h .leases (by decide)
  have hm : d'.leaseCancellations = d.leaseCancellations := h .leaseCancellations (by decide)
  intro l hlm hslot
  refine Or.inl ⟨l, hl ▸ hlm, ?_, rfl⟩
  unfold holdsSlot Tables.assignment? Tables.leaseCancellation? at *
  rwa [ha, hm] at hslot

theorem Created.holding {g : GroupRow} {rows : List AssignmentRow} (h : Created d.toTables d'.toTables g rows) :
    Holding now [] d d' := by
  have hl : d'.leases = d.leases := h.others .leases (by decide) (by decide)
  intro l hm hslot
  have hm' : l ∈ d.leases := hl ▸ hm
  obtain ⟨x, hx, _⟩ := life?_of_lease d.ok hm'
  exact Or.inl ⟨l, hm', (holdsSlot_iff hm' hx).2 ((holdsSlot_iff hm (h.old hx)).1 hslot), rfl⟩

theorem Holding.trans {new : List LeaseRow} (h₁ : Holding now [] d d') (h₂ : Holding now new d' d'') :
    Holding now new d d'' := by
  intro l hl hslot
  rcases h₂ l hl hslot with ⟨l₁, hl₁, hs₁, he₁⟩ | hnew
  · rcases h₁ l₁ hl₁ hs₁ with ⟨l₀, hl₀, hs₀, he₀⟩ | hnil
    · exact Or.inl ⟨l₀, hl₀, hs₀, he₀.trans he₁⟩
    · cases hnil
  · exact Or.inr hnew

/-- **The holders of a session grow by its new leases at most.** -/
theorem Holding.length_le {new : List LeaseRow} (h : Holding now new d d') (i : OpaqueId) :
    (holders d'.toTables now i).length ≤
      (holders d.toTables now i).length + (new.filter (fun l => decide (l.workerSessionId = i))).length := by
  have hsub : (holders d'.toTables now i).map (·.leaseId) ⊆
      (holders d.toTables now i).map (·.leaseId) ++
        (new.filter (fun l => decide (l.workerSessionId = i))).map (·.leaseId) := by
    intro k hk
    obtain ⟨l, hl, rfl⟩ := List.mem_map.1 hk
    obtain ⟨hm, hi, hslot⟩ := mem_holders.1 hl
    rw [List.mem_append]
    rcases h l hm hslot with ⟨l₀, hl₀, hs₀, he⟩ | hnew
    · have hid : l₀.leaseId = l.leaseId := congrArg (·.leaseId) he
      have hses : l₀.workerSessionId = l.workerSessionId := congrArg (·.workerSessionId) he
      exact Or.inl (hid ▸ List.mem_map_of_mem (mem_holders.2 ⟨hl₀, hses.trans hi, hs₀⟩))
    · exact Or.inr (List.mem_map_of_mem (List.mem_filter.2 ⟨hnew, decide_eq_true hi⟩))
  have hnodup : ((holders d'.toTables now i).map (·.leaseId)).Nodup :=
    d'.ok.leases.key.sublist (List.filter_sublist.map _)
  have hlen := (List.subperm_of_subset hnodup hsub).length_le
  simpa only [List.length_append, List.length_map] using hlen

/-- **Time only takes slots away.** -/
theorem holders_mono (t : Tables) (hn : now ≤ later) (i : OpaqueId) :
    (holders t later i).length ≤ (holders t now i).length := by
  unfold holders
  rw [← List.countP_eq_length_filter, ← List.countP_eq_length_filter]
  apply List.countP_mono_left
  intro l _ hl
  simp only [holdsSlot, Bool.and_eq_true, decide_eq_true_eq, Option.all_eq_true, Option.any_eq_true] at hl ⊢
  obtain ⟨hi, ⟨⟨ha, he⟩, a, haget, hd⟩, hm⟩ := hl
  exact ⟨hi, ⟨⟨ha, hn.trans_lt he⟩, a, haget, fun t ht => hn.trans_lt (hd t ht)⟩, hm⟩

/-! ## Capacity -/

/-- No session's leases take more slots than it has. -/
def Capacity (now : Time) (t : Tables) : Prop :=
  ∀ s ∈ t.sessions, (holders t now s.workerSessionId).length ≤ s.capabilities.inferenceSlots

theorem Capacity.mono {t : Tables} (h : Capacity now t) (hn : now ≤ later) : Capacity later t :=
  fun s hs => (holders_mono t hn _).trans (h s hs)

/-- The sessions are those there were, slots and all, or new ones. -/
def SessionsKept (d d' : Db) : Prop := ∀ s' ∈ d'.sessions,
  (∃ s ∈ d.sessions, s.workerSessionId = s'.workerSessionId ∧ s.capabilities = s'.capabilities) ∨
    s'.workerSessionId ∉ d.sessions.map (·.workerSessionId)

theorem SessionsKept.of_same (h : d'.sessions = d.sessions) : SessionsKept d d' :=
  fun s hs => Or.inl ⟨s, h ▸ hs, rfl, rfl⟩

/-- A session whose times are updated keeps its slots. -/
theorem SessionsKept.of_set {i : OpaqueId} {f : SessionRow → SessionRow}
    (h : d'.sessions = Rows.set (·.workerSessionId) i f d.sessions)
    (hf : ∀ s, (f s).workerSessionId = s.workerSessionId ∧ (f s).capabilities = s.capabilities) : SessionsKept d d' := by
  intro s' hs'
  rw [h, Rows.mem_set] at hs'
  rcases hs' with ⟨s, hs, _, rfl⟩ | ⟨hs, _⟩
  · exact Or.inl ⟨s, hs, (hf s).1.symm, (hf s).2.symm⟩
  · exact Or.inl ⟨s', hs, rfl, rfl⟩

/-- A session without leases takes no slot. -/
theorem holders_eq_nil {i : OpaqueId} (hi : i ∉ d.sessions.map (·.workerSessionId)) : holders d.toTables now i = [] := by
  rw [holders, List.filter_eq_nil_iff]
  intro l hl h
  obtain ⟨s, hs, _, hid⟩ := d.ok.leases.session l hl
  simp only [Bool.and_eq_true, decide_eq_true_eq] at h
  exact hi (h.1 ▸ hid ▸ List.mem_map_of_mem hs)

/-- **Where no lease gains a slot, capacity holds on.** -/
theorem Capacity.keep (h : Capacity now d.toTables) (hh : Holding now [] d d') (hs : SessionsKept d d') :
    Capacity now d'.toTables := by
  intro s' hs'
  have hle := hh.length_le s'.workerSessionId
  rw [List.filter_nil, List.length_nil, Nat.add_zero] at hle
  rcases hs s' hs' with ⟨s, hs, hid, hcap⟩ | hnew
  · rw [← hcap]
    exact hle.trans (hid ▸ h s hs)
  · rw [holders_eq_nil hnew] at hle
    exact hle.trans (Nat.zero_le _)

/-- **A grant within the free slots keeps capacity.** -/
theorem Capacity.grant (h : Capacity now d.toTables) {l : LeaseRow} (hh : Holding now [l] d d')
    (hs : d'.sessions = d.sessions)
    (hfree : ∀ s ∈ d.sessions, s.workerSessionId = l.workerSessionId →
      (holders d.toTables now l.workerSessionId).length < s.capabilities.inferenceSlots) : Capacity now d'.toTables := by
  intro s hsm
  rw [hs] at hsm
  have hle := hh.length_le s.workerSessionId
  by_cases hi : l.workerSessionId = s.workerSessionId
  · have hlt := hfree s hsm hi.symm
    rw [hi] at hlt
    have hone : ([l].filter (fun l => decide (l.workerSessionId = s.workerSessionId))).length ≤ 1 :=
      List.length_filter_le _ _
    omega
  · have hnil : [l].filter (fun l => decide (l.workerSessionId = s.workerSessionId)) = [] := by simp [hi]
    rw [hnil] at hle
    exact hle.trans (h s hsm)

/-! ## Grants -/

/-- The leases of a session are its worker's. -/
theorem worker_of_session {i : OpaqueId} {session : SessionRow} (hs : d.session? i = some session) {l : LeaseRow}
    (hl : l ∈ d.leases) (hi : l.workerSessionId = i) : l.workerId = session.workerId := by
  obtain ⟨s, hsm, hw, hid⟩ := d.ok.leases.session l hl
  obtain ⟨hm, hk⟩ := (Rows.get_eq_some _ d.ok.sessions.key).1 hs
  rw [← hw, Rows.eq_of_key _ d.ok.sessions.key hsm hm (hid.trans (hi.trans hk.symm))]

theorem holders_le_activeCount {i : OpaqueId} {session : SessionRow} (hs : d.session? i = some session) :
    (holders d.toTables now i).length ≤ activeCount d.toTables session.workerId i now := by
  unfold holders activeCount
  rw [← List.countP_eq_length_filter, ← List.countP_eq_length_filter]
  apply List.countP_mono_left
  intro l hl h
  simp only [Bool.and_eq_true, decide_eq_true_eq] at h ⊢
  exact ⟨⟨worker_of_session hs hl h.1, h.1⟩, h.2⟩

theorem holders_le_active {i : OpaqueId} {session : SessionRow} (hs : d.session? i = some session) :
    (holders d.toTables now i).length ≤ (d.leases.filter fun l => decide (l.workerId = session.workerId) &&
      decide (l.workerSessionId = i) && decide (l.state = .active)).length := by
  unfold holders
  rw [← List.countP_eq_length_filter, ← List.countP_eq_length_filter]
  apply List.countP_mono_left
  intro l hl h
  simp only [holdsSlot, Bool.and_eq_true, decide_eq_true_eq] at h ⊢
  exact ⟨⟨worker_of_session hs hl h.1, h.1⟩, h.2.1.1.1⟩

theorem Reaped.holding (h : Reaped now d d') (hs : Sound now d.toTables) : Holding now [] d d' := by
  have hl : d'.leases.map LeaseRow.fixed = d.leases.map LeaseRow.fixed := h.frame .fixedLeases (by decide)
  exact h.advances.holding hs fun l hm => Or.inl (hl ▸ List.mem_map_of_mem hm)

/-- **A lease appended under its assignment's moves is the only one to gain a slot.** -/
theorem holding_grant {G : OpaqueId → Prop} {l : LeaseRow} (ha : Advances now G d.toTables d'.toTables)
    (hs : Sound now d.toTables) (hl : d'.leases = d.leases ++ [l]) : Holding now [l] d d' := by
  refine ha.holding hs fun m hm => ?_
  rw [hl, List.mem_append] at hm
  exact hm.imp_left List.mem_map_of_mem

theorem leaseNextBody_capacity {request : LeaseRequest} {duration : Time} {leaseId : OpaqueId} {answer : LeaseAnswer} (hs : Sound now d.toTables) (hc : Capacity now d.toTables)
    (h : Returns (leaseNextBody env request duration leaseId now) d answer d') : Capacity now d'.toTables := by
  have keep : ∀ {d₁ : Db}, Reaped now d d₁ → Capacity now d₁.toTables := fun h₁ =>
    hc.keep (h₁.holding hs) (.of_same (h₁.frame .sessions (by decide)))
  cases returns_leaseNextBody hs h with
  | recorded => exact hc
  | refused => exact hc
  | nothing row hr hst _ h₁ => exact keep h₁
  | granted row hr hst d₁ d₂ _ h₁ a ha h₂ h₃ session hses hworker hfree =>
    obtain ⟨⟨_, ha₃⟩, hl₃⟩ := granted_sound h₁.sound ha h₂ h₃
    have hw₂ := writes_grantLease (S := [.assignments, .leases, .fixedLeases]) a leaseId request.workerId
      request.workerSessionId now _ (by decide) (by decide) (by decide) _ _ _ h₂
    have hw₃ := writes_completeRequest (S := [.requests]) _ _ _ _ (by decide) _ _ _ h₃
    have hsame : d'.sessions = d₁.sessions := (hw₃ .sessions (by decide)).trans (hw₂ .sessions (by decide))
    refine (keep h₁).grant (holding_grant ha₃ h₁.sound hl₃) hsame fun s hsm hid => ?_
    obtain ⟨hm, hk⟩ := (Rows.get_eq_some _ d₁.ok.sessions.key).1 hses
    rw [Rows.eq_of_key _ d₁.ok.sessions.key hsm hm (hid.trans hk.symm)]
    exact (holders_le_activeCount hses).trans_lt (hworker ▸ hfree)

theorem createLeaseBody_capacity {i workerId workerSessionId leaseId : OpaqueId} {duration : Time} {r : Option (AssignmentRow × Time)} (hs : Sound now d.toTables) (hc : Capacity now d.toTables)
    (h : Returns (createLeaseBody i workerId workerSessionId leaseId duration now) d r d') : Capacity now d'.toTables := by
  obtain ⟨a, ha, hw, hav, ⟨_, h⟩ | ⟨_, -, ⟨session, hses, hworker, hfree⟩, h⟩⟩ := returns_createLeaseBody h
  · have hwr := writes_terminalizeWithoutEnvelope (S := reapTables) a _ now (List.Subset.refl _) _ _ _ h
    have hl : d'.leases.map LeaseRow.fixed = d.leases.map LeaseRow.fixed := hwr .fixedLeases (by decide)
    obtain ⟨_, hadv⟩ := terminalizeWithoutEnvelope_sound (by simp) hs ha hw h
    exact hc.keep (hadv.holding hs fun l hm => Or.inl (hl ▸ List.mem_map_of_mem hm)) (.of_same (hwr .sessions (by decide)))
  · obtain ⟨⟨_, hadv⟩, hl⟩ := grantLease_sound hs ha hw hav (leaseExpiry_le now duration) h
    have hwr := writes_grantLease (S := [.assignments, .leases, .fixedLeases]) a leaseId workerId workerSessionId now _
      (by decide) (by decide) (by decide) _ _ _ h
    refine hc.grant (holding_grant hadv hs hl) (hwr .sessions (by decide)) fun s hsm hid => ?_
    obtain ⟨hm, hk⟩ := (Rows.get_eq_some _ d.ok.sessions.key).1 hses
    rw [Rows.eq_of_key _ d.ok.sessions.key hsm hm (hid.trans hk.symm)]
    exact (holders_le_active hses).trans_lt (hworker ▸ hfree)

/-! ## Every commit -/

/-- **No call changes the slots of a session there is.** -/
theorem commit_sessions {c : Call} (h : Commit env now d d' c) : SessionsKept d d' := by
  by_cases hc : .sessions ∈ c.writes
  · cases c
    case registerWorker r =>
      obtain ⟨_, h⟩ := h
      simp only [registerWorkerBody, Repo.run, returns_bind, returns_tables, returns_orRaise, returns_raiseIf] at h
      obtain ⟨_, _, ⟨_, _, ⟨rfl, rfl⟩, _, rfl⟩, _, _, ⟨_, rfl⟩, _, _, ⟨rfl, rfl⟩, h⟩ := h
      split at h
      · simp only [returns_bind, returns_raiseIf, returns_pure] at h
        obtain ⟨_, _, ⟨_, rfl⟩, _, rfl⟩ := h
        exact .of_same rfl
      · rename_i hnone
        simp only [returns_bind, returns_exec, returns_pure] at h
        obtain ⟨_, d₁, h₁, _, d₂, h₂, _, rfl⟩ := h
        intro s hs
        rw [h₂, insertSession, h₁] at hs
        rcases List.mem_append.1 hs with hs | hs
        · exact Or.inl ⟨s, hs, rfl, rfl⟩
        · rw [List.mem_singleton] at hs
          refine Or.inr fun hm => ?_
          obtain ⟨s', hs', hid⟩ := List.mem_map.1 hm
          exact (Rows.get_eq_none _).1 hnone s' hs' (hid.trans (by rw [hs]))
    case recordHeartbeat b duration =>
      obtain ⟨answer, h⟩ := h
      simp only [heartbeatBody, returns_bind, returns_raiseIf, returns_pure, returns_exec, returns_tables] at h
      obtain ⟨_, d₁, h₁, _, _, h₂, _, _, ⟨_, rfl⟩, _, _, h₃, _, _, ⟨rfl, rfl⟩, _, _, ⟨_, rfl⟩, _, d₅, h₅, _, d₆, h₆, _, rfl⟩ := h
      obtain ⟨_, _, rfl⟩ := returns_compatibleSession h₂
      have h₃ := returns_validatePolicyIds h₃
      subst h₃
      have hw₁ := writes_reconcileStaleWork (S := reapTables) now (List.Subset.refl _) _ _ _ h₁
      have hw₅ := writes_heartbeatLeases (S := reapTables) _ now duration (List.Subset.refl _) _ _ _ _ h₅
      have hsame : d₅.sessions = d.sessions := (hw₅ .sessions (by decide)).trans (hw₁ .sessions (by decide))
      apply SessionsKept.of_set (f := fun s => { s with lastSeenAt := now, lastHeartbeatSentAt := some b.sentAt })
        (i := b.workerSessionId)
      · rw [h₆, ← hsame]
        rfl
      · exact fun _ => ⟨rfl, rfl⟩
    case validateLeaseRequest r =>
      obtain ⟨answer, h⟩ := h
      simp only [validateLeaseRequestBody, returns_bind, returns_tables] at h
      obtain ⟨_, _, ⟨rfl, rfl⟩, h⟩ := h
      split at h
      · simp only [returns_bind, returns_raiseIf] at h
        obtain ⟨_, _, ⟨_, rfl⟩, h⟩ := h
        obtain ⟨rfl, _⟩ := returns_leaseRequestDisposition h
        exact .of_same rfl
      · simp only [returns_bind, returns_raiseIf, returns_pure, returns_exec, returns_tables] at h
        obtain ⟨_, _, h₁, _, _, ⟨_, rfl⟩, _, _, h₂, _, _, ⟨rfl, rfl⟩, _, _, ⟨_, rfl⟩, _, d₃, h₃, _, d₄, h₄, _, rfl⟩ := h
        obtain ⟨_, _, rfl⟩ := returns_compatibleSession h₁
        have h₂ := returns_validatePolicyIds h₂
        subst h₂
        apply SessionsKept.of_set (f := fun s => { s with lastLeaseRequestSentAt := some r.sentAt })
          (i := r.workerSessionId)
        · rw [h₄, setSession, h₃]
          rfl
        · exact fun _ => ⟨rfl, rfl⟩
    all_goals exact absurd hc (by simp only [Call.writes]; decide)
  · exact .of_same (commit_rows h .sessions hc)

theorem createNext_capacity {kind : Option Kind} {ids : Nat → OpaqueId} {artifacts : Artifacts} {t : Time}
    {r : Option CreatedGroup} (hc : Capacity now d.toTables)
    (h : Returns (createNextGroupBody env kind ids artifacts t) d r d') : Capacity now d'.toTables := by
  have hw := writes_createNextGroupBody (S := .sources :: .scheduler :: groupTables) env kind ids artifacts t (by decide)
    (by decide) (by decide) _ _ _ h
  refine hc.keep ?_ (.of_same (hw .sessions (by decide)))
  rcases (returns_createNextGroupBody h).created with hsame | ⟨g, rows, hcr⟩
  · exact .of_rows fun k hk => hsame k (by revert k; decide)
  · exact hcr.holding

/-- **Every commit keeps capacity.** -/
theorem commit_capacity {c : Call} (hs : Sound now d.toTables) (hc : Capacity now d.toTables)
    (h : Commit env now d d' c) : Capacity now d'.toTables := by
  have hses := commit_sessions h
  by_cases hw : .fixedGroups ∈ c.writes ∨ .fixedLeases ∈ c.writes
  · cases c
    case createNextGroup =>
      obtain ⟨_, h⟩ := h
      exact createNext_capacity hc h
    case createGroup =>
      obtain ⟨first, rest, rfl, hi, hg, u, h⟩ := h
      exact hc.keep (returns_createGroupBody hi (groupId_of_inputs hg) h).1.holding hses
    case leaseNextCompatible =>
      obtain ⟨_, _, h⟩ := h
      exact leaseNextBody_capacity hs hc h
    case leaseOrCreateNextCompatible =>
      rcases h with ⟨_, _, _, h⟩ | ⟨_, h⟩ | ⟨_, h⟩
      · exact leaseNextBody_capacity hs hc h
      · exact hc.keep (.of_rows fun k _ => writes_leaseRequestCanGenerateBody (S := []) _ _ _ _ _ h k List.not_mem_nil)
          hses
      · exact createNext_capacity hc h
    case createLease =>
      rcases h with ⟨_, h⟩ | ⟨_, _, h⟩
      · have hwr := writes_expireBody (S := reapTables) env now (List.Subset.refl _) _ _ _ h
        have hl : d'.leases.map LeaseRow.fixed = d.leases.map LeaseRow.fixed := hwr .fixedLeases (by decide)
        exact hc.keep ((steady_expireBody env _ _ _ hs h).2.holding hs fun l hm => Or.inl (hl ▸ List.mem_map_of_mem hm)) hses
      · exact createLeaseBody_capacity hs hc h
    case releaseUnofferedLease =>
      obtain ⟨_, h⟩ := h
      exact returns_releaseUnofferedLeaseBody h ▸ hc
    all_goals exact absurd hw (by simp only [Call.writes]; decide)
  · rw [not_or] at hw
    have hl : d'.leases.map LeaseRow.fixed = d.leases.map LeaseRow.fixed := commit_rows h .fixedLeases hw.2
    exact hc.keep ((commit_advances hs h hw.1).2.holding hs fun l hm => Or.inl (hl ▸ List.mem_map_of_mem hm)) hses

/-! ## Every run -/

/-- **Slot capacity**: in every reached state, at its clock and any later time, the leases of a session that are active
and unexpired, before their assignment's deadline and without a delivered cancellation are no more than its slots. -/
theorem slots_suffice (env : Env) (steps : List Step) :
    let w := reached env steps
    ∀ t, w.now env ≤ t → ∀ s ∈ w.db.sessions,
      (w.db.leases.filter (fun l => decide (l.workerSessionId = s.workerSessionId) && holdsSlot w.db.toTables t l)).length ≤
        s.capabilities.inferenceSlots := by
  intro w t ht
  have hempty : Capacity (World.fresh.now env) World.fresh.db.toTables := fun s hs => absurd hs List.not_mem_nil
  have h : (Sound (w.now env) w.db.toTables ∧ Capacity (w.now env) w.db.toTables) ∧ True :=
    runFrom_holds (I := fun now d => Sound now d.toTables ∧ Capacity now d.toTables) (R := fun _ _ => True)
      (fun _ _ _ hn h => ⟨h.1.mono hn, h.2.mono hn⟩) (fun _ => trivial) (fun _ _ _ _ _ => trivial) steps World.fresh
      (fun _ _ _ _ _ hi hcm => ⟨⟨(commit_sound hi.1 hcm).1, commit_capacity hi.1 hi.2 hcm⟩, trivial⟩)
      ⟨sound_empty _, hempty⟩
  exact h.1.2.mono ht

theorem slots_suffice_sample :
    ∃ s ∈ (reached Sample.env Sample.leased).db.sessions,
      (holders (reached Sample.env Sample.leased).db.toTables ((reached Sample.env Sample.leased).now Sample.env)
        s.workerSessionId).length ≤ s.capabilities.inferenceSlots := by
  have hrun : ∃ s ∈ (reached Sample.env Sample.leased).db.sessions, s.workerSessionId = "session" := by decide +kernel
  obtain ⟨s, hs, _⟩ := hrun
  have hle : (reached Sample.env Sample.leased).now Sample.env ≤ (reached Sample.env Sample.leased).now Sample.env :=
    le_refl _
  have h := slots_suffice Sample.env Sample.leased _ hle s hs
  exact ⟨s, hs, h⟩

end Aether
