import AetherRl.RepoHeartbeat
import AetherRl.RepoSweep
/-!
# RepoPreference — how long the preference for loaded policies may pass an assignment over

`lease_next_compatible` looks at the wait of one candidate, the first in (group sequence, group index) order, to decide
whether a later one with a loaded policy may go before it.  Availability does not follow that order: a retry makes an
early assignment available late.  So an assignment behind the first may have waited for longer than the preference and
still be passed over; `InTurn` says exactly when none is, of the state the call starts from.
-/
namespace Aether

open Txn
open Tables Repo

variable {now : Time} {d d' : Db} {env : Env}

/-! ## The order of the candidates -/

/-- Where an assignment stands: its group's sequence, then its index. -/
def Tables.place (t : Tables) (a : AssignmentRow) : Nat ×ₗ Nat :=
  toLex (((t.group? a.groupId).map (·.sequence)).getD 0, a.groupIndex)

/-- **An assignment has its place for itself.** -/
theorem place_injective (d : Db) {a b : AssignmentRow} (ha : a ∈ d.assignments) (hb : b ∈ d.assignments)
    (h : d.place a = d.place b) : a = b := by
  have hgroup : ∀ {c : AssignmentRow}, c ∈ d.assignments → ∃ g ∈ d.groups, g.groupId = c.groupId ∧
      d.group? c.groupId = some g := by
    intro c hc
    obtain ⟨g, hg, hid, _⟩ := d.ok.assignments.group c hc
    exact ⟨g, hg, hid, hid ▸ Rows.get_of_mem _ d.ok.groups.key hg⟩
  obtain ⟨g, hg, hga, hgeta⟩ := hgroup ha
  obtain ⟨g', hg', hgb, hgetb⟩ := hgroup hb
  simp only [Tables.place, hgeta, hgetb, Option.map_some, Option.getD_some, EmbeddingLike.apply_eq_iff_eq,
    Prod.mk.injEq] at h
  have hsame : g = g' := List.inj_on_of_nodup_map d.ok.groups.sequence hg hg' h.1
  have hid : a.groupId = b.groupId := by rw [← hga, ← hgb, hsame]
  exact List.inj_on_of_nodup_map d.ok.assignments.index ha hb (Prod.ext hid h.2)

theorem mem_leaseCandidates {a : AssignmentRow} :
    a ∈ leaseCandidates d.toTables now ↔ a ∈ d.assignments ∧ leasable d.toTables now a = true := by
  refine ⟨leaseCandidates_leasable, fun ⟨ha, hl⟩ => ?_⟩
  obtain ⟨g, hg, hid, _⟩ := d.ok.assignments.group a ha
  have hget : d.group? a.groupId = some g := hid ▸ Rows.get_of_mem _ d.ok.groups.key hg
  rw [leaseCandidates, List.mem_map]
  refine ⟨(g.sequence, a), ?_, rfl⟩
  rw [Rows.mem_orderBy, List.mem_filterMap]
  exact ⟨a, ha, by rw [hget, Option.bind_some, if_pos hl]⟩

/-- **The candidates come in the order of their places.** -/
theorem leaseCandidates_sorted (d : Db) (now : Time) :
    (leaseCandidates d.toTables now).Pairwise fun a b => d.place a < d.place b := by
  let entries := d.assignments.filterMap fun a => (d.group? a.groupId).bind fun g =>
    if leasable d.toTables now a then some (g.sequence, a) else none
  have hentry : ∀ x ∈ entries, x.2 ∈ d.assignments ∧ d.place x.2 = toLex (x.1, x.2.groupIndex) := by
    intro x hx
    obtain ⟨a, ha, hx⟩ := List.mem_filterMap.1 hx
    obtain ⟨g, hg, hx⟩ := Option.bind_eq_some_iff.1 hx
    split at hx
    · obtain rfl := Option.some.inj hx
      exact ⟨ha, by simp only [Tables.place, hg, Option.map_some, Option.getD_some]⟩
    · cases hx
  have hnodup : entries.Nodup := by
    refine List.Nodup.filterMap (fun a b x hxa hxb => ?_) d.ok.assignments.key.of_map
    obtain ⟨_, _, hxa⟩ := Option.bind_eq_some_iff.1 hxa
    obtain ⟨_, _, hxb⟩ := Option.bind_eq_some_iff.1 hxb
    split at hxa
    · split at hxb
      · rw [← Option.some.inj (Option.mem_def.1 hxa)] at hxb
        exact (Prod.mk.inj (Option.some.inj hxb)).2.symm
      · cases hxb
    · cases hxa
  have hperm := Rows.orderBy_perm (fun x : Nat × AssignmentRow => toLex (x.1, toLex (x.2.groupIndex, x.2.assignmentId)))
    entries
  have hsorted := (Rows.orderBy_pairwise (fun x : Nat × AssignmentRow =>
    toLex (x.1, toLex (x.2.groupIndex, x.2.assignmentId))) entries).and (hperm.nodup_iff.2 hnodup)
  rw [leaseCandidates, List.pairwise_map]
  refine hsorted.imp_of_mem fun {x y} hx hy h => ?_
  obtain ⟨hxm, hxp⟩ := hentry x (hperm.mem_iff.1 hx)
  obtain ⟨hym, hyp⟩ := hentry y (hperm.mem_iff.1 hy)
  refine lt_of_le_of_ne ?_ fun heq => h.2 ?_
  · rw [hxp, hyp, Prod.Lex.toLex_le_toLex]
    rcases Prod.Lex.toLex_le_toLex.1 h.1 with hlt | ⟨hseq, hle⟩
    · exact Or.inl hlt
    · exact Or.inr ⟨hseq, by rcases Prod.Lex.toLex_le_toLex.1 hle with hlt | ⟨hidx, _⟩; exacts [hlt.le, hidx.le]⟩
  · have hrow : x.2 = y.2 := place_injective d hxm hym heq
    rw [hxp, hyp] at heq
    exact Prod.ext (Prod.mk.inj (toLex.injective heq)).1 hrow

/-! ## The choice -/

section
variable {α : Type} {cs : List AssignmentRow} {oldest : AssignmentRow} {loaded : List OpaqueId} {preference : Time}

theorem chooseCandidate_of_waited (h : preference ≤ now - oldest.availableAt) :
    chooseCandidate cs oldest loaded preference now = oldest := by
  rw [chooseCandidate, if_neg (not_lt.2 h)]

theorem chooseCandidate_of_unloaded (h : ∀ c ∈ cs, c.policyId ∉ loaded) :
    chooseCandidate cs oldest loaded preference now = oldest := by
  have hnone : cs.find? (fun c => decide (c.policyId ∈ loaded)) = none := by simpa using h
  rw [chooseCandidate, hnone, Option.getD_none, ite_self]

/-- **Within the preference the first candidate with a loaded policy is chosen.** -/
theorem chooseCandidate_of_loaded {place : AssignmentRow → Nat ×ₗ Nat} (hs : cs.Pairwise fun a b => place a < place b)
    (h : now - oldest.availableAt < preference) {c : AssignmentRow} (hc : c ∈ cs) (hl : c.policyId ∈ loaded)
    (hfirst : ∀ b ∈ cs, place b < place c → b.policyId ∉ loaded) :
    chooseCandidate cs oldest loaded preference now = c := by
  obtain ⟨before, after, rfl⟩ := List.append_of_mem hc
  have hfind : (before ++ c :: after).find? (fun c => decide (c.policyId ∈ loaded)) = some c := by
    refine List.find?_eq_some_iff_append.2 ⟨by simpa using hl, before, after, rfl, fun b hb => ?_⟩
    have hlt := (List.pairwise_append.1 hs).2.2 b hb c List.mem_cons_self
    simpa using hfirst b (List.mem_append_left _ hb) hlt
  rw [chooseCandidate, if_pos h, hfind, Option.getD_some]

end

/-- No leasable assignment that stands before `a` has waited for the preference. -/
def NonePassedOver (d : Db) (now preference : Time) (a : AssignmentRow) : Prop :=
  ∀ c ∈ d.assignments, leasable d.toTables now c = true → d.place c < d.place a → now - c.availableAt < preference

/-- What a call may lease of the state it starts from: the leasable assignments that are not stale for the lag. -/
def OnOffer (d : Db) (lag : Int) (now : Time) (a : AssignmentRow) : Prop :=
  a ∈ d.assignments ∧ leasable d.toTables now a = true ∧ ¬ StaleAssignment d.toTables lag a

/-- **When the preference is bounded**: if the first assignment on offer has waited less than the preference, so has
every one on offer before the first whose policy is loaded. -/
def InTurn (offered : AssignmentRow → Prop) (place : AssignmentRow → Nat ×ₗ Nat) (now preference : Time)
    (loaded : List OpaqueId) : Prop :=
  ∀ first, offered first → (∀ b, offered b → ¬ place b < place first) → now - first.availableAt < preference →
    ∀ c, offered c → c.policyId ∈ loaded → (∀ b, offered b → place b < place c → b.policyId ∉ loaded) →
      ∀ b, offered b → place b < place c → now - b.availableAt < preference

theorem head_first {oldest : AssignmentRow} (h : (leaseCandidates d.toTables now).head? = some oldest) :
    oldest ∈ d.assignments ∧ leasable d.toTables now oldest = true ∧
      ∀ b ∈ d.assignments, leasable d.toTables now b = true → ¬ d.place b < d.place oldest := by
  obtain ⟨ho, hl⟩ := mem_leaseCandidates.1 (List.mem_of_mem_head? h)
  refine ⟨ho, hl, fun b hb hbl hlt => ?_⟩
  obtain ⟨rest, hcs⟩ := List.head?_eq_some_iff.1 h
  have hs := leaseCandidates_sorted d now
  have hmem := mem_leaseCandidates.2 ⟨hb, hbl⟩
  rw [hcs] at hs hmem
  rcases List.mem_cons.1 hmem with rfl | hm
  · exact lt_irrefl _ hlt
  · exact lt_asymm hlt (List.rel_of_pairwise_cons hs hm)

/-- **The choice passes nothing over exactly when the assignments come in turn.** -/
theorem choice_bounded {oldest : AssignmentRow} (h : (leaseCandidates d.toTables now).head? = some oldest)
    (loaded : List OpaqueId) (preference : Time) :
    NonePassedOver d now preference (chooseCandidate (leaseCandidates d.toTables now) oldest loaded preference now) ↔
      InTurn (fun a => a ∈ d.assignments ∧ leasable d.toTables now a = true) d.place now preference loaded := by
  obtain ⟨ho, hol, hfirst⟩ := head_first h
  have hs := leaseCandidates_sorted d now
  constructor
  · rintro hb first ⟨hf, hfl⟩ hffirst hwait c ⟨hc, hcl⟩ hload hcfirst
    have heq : first = oldest := by
      rcases lt_trichotomy (d.place first) (d.place oldest) with hlt | heq | hlt
      · exact absurd hlt (hfirst first hf hfl)
      · exact place_injective d hf ho heq
      · exact absurd hlt (hffirst oldest ⟨ho, hol⟩)
    rw [heq] at hwait
    rw [chooseCandidate_of_loaded hs hwait (mem_leaseCandidates.2 ⟨hc, hcl⟩) hload
      fun b hb hlt => hcfirst b (mem_leaseCandidates.1 hb) hlt] at hb
    exact fun b hbo hlt => hb b hbo.1 hbo.2 hlt
  · intro hin
    by_cases hwait : now - oldest.availableAt < preference
    · cases hfind : (leaseCandidates d.toTables now).find? (fun c => decide (c.policyId ∈ loaded)) with
      | none =>
        rw [chooseCandidate_of_unloaded (by simpa using hfind)]
        exact fun c hc hcl hlt => absurd hlt (hfirst c hc hcl)
      | some c =>
        obtain ⟨hload, before, after, hcs, hbefore⟩ := List.find?_eq_some_iff_append.1 hfind
        have hchosen : chooseCandidate (leaseCandidates d.toTables now) oldest loaded preference now = c := by
          rw [chooseCandidate, if_pos hwait, hfind, Option.getD_some]
        obtain ⟨hc, hcl⟩ := mem_leaseCandidates.1 (List.mem_of_find?_eq_some hfind)
        rw [hchosen]
        refine fun b hb hbl hlt => hin oldest ⟨ho, hol⟩ (fun b hb => hfirst b hb.1 hb.2) hwait c ⟨hc, hcl⟩
          (by simpa using hload) (fun b hb hlt => ?_) b ⟨hb, hbl⟩ hlt
        have hmem := mem_leaseCandidates.2 hb
        rw [hcs] at hs hmem
        rcases List.mem_append.1 hmem with hm | hm
        · simpa using hbefore b hm
        · rcases List.mem_cons.1 hm with rfl | hm
          · exact absurd hlt (lt_irrefl _)
          · have hafter := List.rel_of_pairwise_cons (List.pairwise_append.1 hs).2.1 hm
            exact absurd hlt (lt_asymm hafter)
    · rw [chooseCandidate_of_waited (not_lt.1 hwait)]
      exact fun c hc hcl hlt => absurd hlt (hfirst c hc hcl)

/-! ## Every call -/

/-- What `lease_next_compatible` does of its own before it looks for a candidate. -/
def sweep (env : Env) (lag : Int) (now : Time) : Body Unit := do
  let _ ← expireLeasesBody env now
  cancelStaleTrainGroups lag now

/-- **The database a choice is made from**, with the lag it was swept for and the preference. -/
structure Choosing (env : Env) (now : Time) (d d₁ : Db) (lag : Int) (preference : Time) : Prop where
  configured : d.scheduler.maxPolicyLag = some lag
  swept : sweep env lag now d = .ok ((), d₁)
  preference : d.scheduler.loadedPolicyPreferenceSeconds = some preference

/-- A sweep leaves every assignment at its place. -/
theorem place_congr (hg : d'.groups.map GroupRow.fixed = d.groups.map GroupRow.fixed) (a : AssignmentRow) :
    d'.place a = d.place a := by
  have hseq : ∀ t : Tables, (t.group? a.groupId).map (·.sequence) =
      ((t.groups.map GroupRow.fixed).find? fun g => decide (g.groupId = a.groupId)).map (·.sequence) := fun t => by
    rw [List.find?_map, Option.map_map]
    rfl
  rw [Tables.place, Tables.place, hseq, hseq, hg]

/-- **What is on offer after the sweep** is what was before it. -/
theorem Choosing.offered {lag : Int} {preference : Time} (h : Choosing env now d d' lag preference)
    (hs : Sound now d.toTables) :
    (fun a => a ∈ d'.assignments ∧ leasable d'.toTables now a = true) = OnOffer d lag now ∧ d'.place = d.place := by
  have hswept : Returns (sweep env lag now) d () d' := h.swept
  simp only [sweep, returns_bind] at hswept
  obtain ⟨n, d₁, h₁, h₂⟩ := hswept
  have hw₁ := writes_expireLeasesBody (S := reapTables) env now (List.Subset.refl _) _ _ _ h₁ .fixedGroups (by decide)
  have hw₂ := writes_cancelStaleTrainGroups (S := reapTables) lag now (List.Subset.refl _) _ _ _ h₂ .fixedGroups
    (by decide)
  refine ⟨funext fun a => propext (leasable_swept_iff hs h₁ h₂), funext fun a => place_congr ?_ a⟩
  exact hw₂.trans hw₁

theorem leaseNextBody_chooses {request : LeaseRequest} {duration : Time} {leaseId : OpaqueId} {a : AssignmentRow}
    {expiresAt : Time} (h : Returns (leaseNextBody env request duration leaseId now) d (.granted a expiresAt) d') :
    ∃ d₁ lag preference oldest, Choosing env now d d₁ lag preference ∧ (leaseCandidates d₁.toTables now).head? = some oldest ∧
      a = chooseCandidate (leaseCandidates d₁.toTables now) oldest request.loadedPolicyIds preference now := by
  simp only [leaseNextBody, returns_bind, returns_tables, returns_orRaise] at h
  obtain ⟨_, _, ⟨rfl, rfl⟩, row, _, ⟨hr, rfl⟩, x, _, hx, h⟩ := h
  obtain ⟨rfl, _⟩ := returns_leaseRequestDisposition hx
  split at h
  · simp at h
  · simp at h
  · simp only [returns_bind, returns_tables, returns_orRaise] at h
    obtain ⟨n, d₂, h₂, session, _, hses, _, _, hval, _, _, ⟨rfl, rfl⟩, lag, _, ⟨hlag, rfl⟩, _, _, ⟨rfl, rfl⟩, preference, _,
      ⟨hpref, rfl⟩, _, d₁, h₁, _, _, ⟨rfl, rfl⟩, h⟩ := h
    obtain ⟨_, _, rfl⟩ := returns_compatibleSession hses
    obtain rfl := returns_validatePolicyIds hval
    have hw := writes_expireLeasesBody (S := reapTables) env now (List.Subset.refl _) _ _ _ h₂
    have hsch := congrArg SchedulerRow.maxPolicyLag (show _ = _ from hw .scheduler (by decide))
    have hpre := congrArg SchedulerRow.loadedPolicyPreferenceSeconds (show _ = _ from hw .scheduler (by decide))
    split at h
    · simp at h
    · simp only [grantToRequest, returns_bind, returns_tables] at h
      obtain ⟨_, _, ⟨rfl, rfl⟩, h⟩ := h
      cases hc : (leaseCandidates _ now).head? with
      | none =>
        rw [hc] at h
        simp at h
      | some oldest =>
        rw [hc] at h
        simp only [returns_bind, returns_pure, LeaseAnswer.granted.injEq] at h
        obtain ⟨_, _, _, _, _, _, ⟨rfl, _⟩, _⟩ := h
        refine ⟨_, lag, preference, oldest, ⟨?_, ?_, ?_⟩, hc, rfl⟩
        · exact hsch.symm.trans hlag
        · show Returns (sweep env lag now) _ () _
          simp only [sweep, returns_bind]
          exact ⟨n, _, h₂, h₁⟩
        · exact hpre.symm.trans hpref

/-- What a call that chooses an assignment chose it from, and when the choice passes nothing over. -/
structure ChoosesBounded (env : Env) (q : LeaseRequest) (now : Time) (d : Db) (lease : AssignmentLease) : Prop where
  chosen : ∃ d₁ lag preference, ∃ a ∈ d₁.assignments, Choosing env now d d₁ lag preference ∧
    leasable d₁.toTables now a = true ∧ lease.assignment = a.assignment ∧
    (NonePassedOver d₁ now preference a ↔ InTurn (OnOffer d lag now) d.place now preference q.loadedPolicyIds)

/-- **The preference for loaded policies is bounded exactly when the assignments come in turn**: whatever state a run
has reached, a call that leases an assignment to a pending request passes no earlier leasable one over that has waited
for the preference if and only if `InTurn` holds of the state it starts from. -/
theorem preference_bounded_iff_inTurn (env : Env) (steps : List Step) (crashAfter : Option Nat) (torn : Nat)
    (q : LeaseRequest) (duration : Time) (leaseId : OpaqueId) :
    Wp (leaseNextCompatible env q duration leaseId)
      (fun answer _ => ∀ lease ∈ answer, (∃ r ∈ (reached env steps).db.request? q.requestId, r.state = .pending) →
        ChoosesBounded env q (env.clock (reached env steps).reads) (reached env steps).db lease)
      (fun _ _ => True) { reached env steps with crashAfter := crashAfter, torn := torn } := by
  have hs := sound_clock (reached_sound env steps)
  simp only [leaseNextCompatible, wp_bind, wp_raiseUnless, wp_readClock]
  refine ⟨fun _ => wp_transaction (fun answer d n h => ?_) fun _ => trivial, fun _ => trivial⟩
  have hnext := returns_leaseNextBody hs h
  cases answer with
  | nothing => exact fun lease hl => absurd hl (Option.not_mem_none _)
  | recorded answered =>
    rintro lease _ ⟨r, hr, hp⟩
    cases hnext with
    | recorded row hrow hst =>
      obtain rfl := Option.some.inj (hrow.symm.trans hr)
      rw [hst] at hp
      cases hp
  | granted a expiresAt =>
    dsimp only
    split
    · rename_i lease hb
      intro lease' hl _
      obtain rfl := Option.some.inj hl
      obtain ⟨d₁, lag, preference, oldest, hch, hhead, rfl⟩ := leaseNextBody_chooses h
      obtain ⟨hm, hleasable⟩ := mem_leaseCandidates.1 (chooseCandidate_mem (List.mem_of_mem_head? hhead)
        q.loadedPolicyIds preference)
      have hiff := choice_bounded hhead q.loadedPolicyIds preference
      obtain ⟨hoffered, hplace⟩ := hch.offered hs
      rw [hoffered, hplace] at hiff
      exact ⟨d₁, lag, preference, _, hm, hch, hleasable, (buildLease_ok hb).2, hiff⟩
    · trivial

/-! ## An early assignment that was retried -/

namespace Sample

def trained : PolicyManifest := ⟨"run", 1, "base", some ⟨"adapter"⟩, 0, "policy-1"⟩

def asks (i : OpaqueId) (t : Time) : LeaseRequest := { request with requestId := i, sentAt := t }

/-- A request of a worker that has the second policy loaded. -/
def loadedRequest : LeaseRequest :=
  { request with
    requestId := "request-2", sentAt := 2, loadedPolicyIds := ["policy-1"], loaded_sorted := List.pairwise_singleton _ _ }

/-- Three groups, the last of them under the second policy; the first assignment was leased, expired, and waits again
since a moment ago. -/
def retried : List Step :=
  [.initializeRun policy, .configureScheduler 5 3, .registerWorker worker, .registerSchedulerSource source,
    .createNextGroup none (fun n => "first-" ++ toString n) fun _ => true,
    .createNextGroup none (fun n => "second-" ++ toString n) fun _ => true,
    .validateLeaseRequest (asks "request-1" 1), .leaseNextCompatible (asks "request-1" 1) 1 "lease-1",
    .recordAndActivatePolicy trained "policies/1" (some trained),
    .createNextGroup none (fun n => "third-" ++ toString n) fun _ => true, .expireLeases, .expireLeases,
    .validateLeaseRequest loadedRequest].map step

/-- Two groups, the second of them under the second policy; both assignments have waited for less than the preference. -/
def inTime : List Step :=
  [.initializeRun policy, .configureScheduler 5 30, .registerWorker worker, .registerSchedulerSource source,
    .createNextGroup none (fun n => "first-" ++ toString n) fun _ => true,
    .recordAndActivatePolicy trained "policies/1" (some trained),
    .createNextGroup none (fun n => "second-" ++ toString n) fun _ => true, .validateLeaseRequest loadedRequest].map step

/-- The second policy's assignment is leased while none has waited for the preference. -/
def prefers (w : World) : Bool :=
  match (leaseNextCompatible Sample.env loadedRequest 60 "lease-1" { w with crashAfter := none, torn := 0 }).1,
    w.db.request? loadedRequest.requestId with
  | .ok (some lease), some r => decide (r.state = .pending ∧ lease.assignment.policy = trained ∧
      w.db.scheduler.loadedPolicyPreferenceSeconds = some 30 ∧
      ∀ b ∈ w.db.assignments, Sample.env.clock w.reads - b.availableAt < 30)
  | _, _ => false

/-- An assignment is leased while an earlier one has waited for longer than the preference. -/
def passesOver (answer : Except Error (Option AssignmentLease)) (swept : Except Error (Unit × Db)) (now : Time) : Bool :=
  match answer, swept with
  | .ok (some lease), .ok (_, d₁) => decide (∃ a ∈ d₁.assignments, lease.assignment = a.assignment ∧
      ∃ c ∈ d₁.assignments, leasable d₁.toTables now c = true ∧ d₁.place c < d₁.place a ∧ ¬ now - c.availableAt < 3)
  | _, _ => false

end Sample

/-- **The second assignment goes before the first**, which has not waited for the preference. -/
theorem preference_bounded_sample : ∃ lease d₁ lag preference a,
    (leaseNextCompatible Sample.env Sample.loadedRequest 60 "lease-1"
      { reached Sample.env Sample.inTime with crashAfter := none, torn := 0 }).1 = .ok (some lease) ∧
    lease.assignment.policy = Sample.trained ∧ lease.assignment = a.assignment ∧
    Choosing Sample.env (Sample.env.clock (reached Sample.env Sample.inTime).reads) (reached Sample.env Sample.inTime).db d₁
      lag preference ∧
    NonePassedOver d₁ (Sample.env.clock (reached Sample.env Sample.inTime).reads) preference a := by
  have hrun : Sample.prefers (reached Sample.env Sample.inTime) = true := by decide +kernel
  generalize Sample.inTime = steps at hrun ⊢
  have hbounded := preference_bounded_iff_inTurn Sample.env steps none 0 Sample.loadedRequest 60 "lease-1"
  unfold Sample.prefers at hrun
  split at hrun
  · rename_i lease r hlease hr
    obtain ⟨hst, hpolicy, hpreference, hwaits⟩ := of_decide_eq_true hrun
    obtain ⟨d₁, lag, preference, a, ha, hch, hl, hla, hiff⟩ := (hbounded.returned hlease lease rfl ⟨r, hr, hst⟩).chosen
    have h30 : preference = 30 := Option.some.inj (hch.preference.symm.trans hpreference)
    refine ⟨lease, d₁, lag, preference, a, hlease, hpolicy, hla, hch, hiff.2 ?_⟩
    rw [h30]
    exact fun _ _ _ _ _ _ _ _ b hb _ => hwaits b hb.1
  · cases hrun

/-- **The second assignment has waited for longer than the preference and is passed over**: the first has not, and the
third's policy is loaded. -/
theorem preference_passes_over : ¬ ∀ (env : Env) (steps : List Step) (q : LeaseRequest) (duration : Time)
    (leaseId : OpaqueId) (d₁ : Db) (lag : Int) (preference : Time) (lease : AssignmentLease),
    (leaseNextCompatible env q duration leaseId (reached env steps)).1 = .ok (some lease) →
    Choosing env (env.clock (reached env steps).reads) (reached env steps).db d₁ lag preference →
    ∀ a ∈ d₁.assignments, lease.assignment = a.assignment →
      NonePassedOver d₁ (env.clock (reached env steps).reads) preference a := by
  intro h
  have hscheduler : (reached Sample.env Sample.retried).db.scheduler = ⟨4, some 5, some 3⟩ := by decide +kernel
  have hrun : Sample.passesOver (leaseNextCompatible Sample.env Sample.loadedRequest 60 "lease-2"
        (reached Sample.env Sample.retried)).1
      (sweep Sample.env 5 (Sample.env.clock (reached Sample.env Sample.retried).reads)
        (reached Sample.env Sample.retried).db)
      (Sample.env.clock (reached Sample.env Sample.retried).reads) = true := by decide +kernel
  unfold Sample.passesOver at hrun
  split at hrun
  · rename_i lease _ d₁ hlease hsweep
    obtain ⟨a, ha, hla, c, hc, hcl, hlt, hwait⟩ := of_decide_eq_true hrun
    refine hwait (h Sample.env Sample.retried Sample.loadedRequest 60 "lease-2" d₁ 5 3 lease hlease
      ⟨?_, hsweep, ?_⟩ a ha hla c hc hcl hlt)
    · rw [hscheduler]
    · rw [hscheduler]
  · cases hrun

end Aether
