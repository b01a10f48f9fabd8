import AetherRl.RepoWrites
/-!
# RepoAdmits — statements the schema admits

A statement raises when the tables it would leave break a constraint.  Here is what a statement has to be given so that
it does not: an update that leaves the columns constraints read alone is always admitted, a new row when its keys are
free and the rows it names are there.
-/
namespace Aether

open Tables Repo

variable {t : Tables} {i : OpaqueId}

/-! ## Updates -/

theorem schema_setResults {f : ResultRow → ResultRow} (hk : SchemaOk t) (hf : ∀ r, (f r).fixed = r.fixed) :
    SchemaOk (setResults f t) := by
  have hfixed : (setResults f t).results.map ResultRow.fixed = t.results.map ResultRow.fixed := by
    rw [setResults_results, List.map_map]
    exact List.map_congr_left fun r _ => hf r
  have hr := hk.results
  exact {
    run := { hk.run with }
    policies := { hk.policies with }
    sessions := { hk.sessions with }
    groups := { hk.groups with }
    assignments := { hk.assignments with }
    leases := { hk.leases with }
    results := {
      key := Rows.map_of_fixed (g := (·.assignmentId)) hfixed (fun _ => rfl) ▸ hr.key
      lease := Rows.map_of_fixed (g := (·.leaseId)) hfixed (fun _ => rfl) ▸ hr.lease
      digest := Rows.map_of_fixed (g := (·.envelopeDigest)) hfixed (fun _ => rfl) ▸ hr.digest
      path := Rows.map_of_fixed (g := (·.artifactPath)) hfixed (fun _ => rfl) ▸ hr.path
      assignment := Rows.forall_of_fixed hfixed (fun _ => Iff.rfl) hr.assignment
      attempt := Rows.forall_of_fixed hfixed (fun _ => Iff.rfl) hr.attempt
      size := Rows.forall_of_fixed hfixed (fun _ => Iff.rfl) hr.size }
    failures := { hk.failures with }
    outcomes := { hk.outcomes with }
    scheduler := { hk.scheduler with }
    sources := { hk.sources with }
    cancellations := { hk.cancellations with }
    requests := { hk.requests with }
    batches := { hk.batches with }
    processed := { hk.processed with } }

theorem schema_setLease {f : LeaseRow → LeaseRow} (hk : SchemaOk t) (hf : ∀ l, (f l).fixed = l.fixed)
    (ht : ∀ l ∈ t.leases, l.leaseId = i → l.issuedAt < (f l).expiresAt) : SchemaOk (setLease i f t) := by
  have hfixed : (setLease i f t).leases.map LeaseRow.fixed = t.leases.map LeaseRow.fixed :=
    Rows.map_set _ LeaseRow.fixed i f t.leases fun l _ _ => hf l
  have hl := hk.leases
  exact {
    run := { hk.run with }
    policies := { hk.policies with }
    sessions := { hk.sessions with }
    groups := { hk.groups with }
    assignments := { hk.assignments with
      currentLease := fun a ha j hj =>
        Rows.exists_of_fixed hfixed (fun _ => Iff.rfl) (hk.assignments.currentLease a ha j hj) }
    leases := {
      key := Rows.map_of_fixed (g := (·.leaseId)) hfixed (fun _ => rfl) ▸ hl.key
      attempt := Rows.map_of_fixed (g := fun l => (l.assignmentId, l.attempt)) hfixed (fun _ => rfl) ▸ hl.attempt
      assignment := Rows.forall_of_fixed hfixed (fun _ => Iff.rfl) hl.assignment
      session := Rows.forall_of_fixed hfixed (fun _ => Iff.rfl) hl.session
      attemptPos := Rows.forall_of_fixed hfixed (fun _ => Iff.rfl) hl.attemptPos
      times := fun l hm => by
        rcases (Rows.mem_set _).1 hm with ⟨l₀, hl₀, hi, rfl⟩ | ⟨hm, _⟩
        · have hissued : (f l₀).issuedAt = l₀.issuedAt := congrArg (·.issuedAt) (hf l₀)
          rw [hissued]
          exact ht l₀ hl₀ hi
        · exact hl.times l hm }
    results := { hk.results with
      attempt := fun r hr => Rows.exists_of_fixed hfixed (fun _ => Iff.rfl) (hk.results.attempt r hr) }
    failures := { hk.failures with
      attempt := fun r hr => Rows.exists_of_fixed hfixed (fun _ => Iff.rfl) (hk.failures.attempt r hr) }
    outcomes := { hk.outcomes with
      attempt := fun o ho j hj => Rows.exists_of_fixed hfixed (fun _ => Iff.rfl) (hk.outcomes.attempt o ho j hj) }
    scheduler := { hk.scheduler with }
    sources := { hk.sources with }
    cancellations := { hk.cancellations with
      lease := fun c hc => Rows.exists_of_fixed hfixed (fun _ => Iff.rfl) (hk.cancellations.lease c hc) }
    requests := { hk.requests with
      lease := fun r hr j hj => Rows.exists_of_fixed hfixed (fun _ => Iff.rfl) (hk.requests.lease r hr j hj) }
    batches := { hk.batches with }
    processed := { hk.processed with } }

theorem schema_setAssignment {f : AssignmentRow → AssignmentRow} (hk : SchemaOk t) (hf : ∀ a, (f a).fixed = a.fixed)
    (hl : ∀ a ∈ t.assignments, a.assignmentId = i → ∀ k ∈ (f a).currentLeaseId,
      ∃ l ∈ t.leases, l.assignmentId = i ∧ l.leaseId = k) : SchemaOk (setAssignment i f t) := by
  have hfixed : (setAssignment i f t).assignments.map AssignmentRow.fixed = t.assignments.map AssignmentRow.fixed :=
    Rows.map_set _ AssignmentRow.fixed i f t.assignments fun a _ _ => hf a
  have ha := hk.assignments
  exact {
    run := { hk.run with }
    policies := { hk.policies with }
    sessions := { hk.sessions with }
    groups := { hk.groups with }
    assignments := {
      key := Rows.map_of_fixed (g := (·.assignmentId)) hfixed (fun _ => rfl) ▸ ha.key
      index := Rows.map_of_fixed (g := fun a => (a.groupId, a.groupIndex)) hfixed (fun _ => rfl) ▸ ha.index
      group := Rows.forall_of_fixed hfixed (fun _ => Iff.rfl) ha.group
      policy := Rows.forall_of_fixed hfixed (fun _ => Iff.rfl) ha.policy
      currentLease := fun a hm => by
        rcases (Rows.mem_set _).1 hm with ⟨a₀, ha₀, hi, rfl⟩ | ⟨hm, _⟩
        · have hid : (f a₀).assignmentId = a₀.assignmentId := congrArg (·.assignmentId) (hf a₀)
          rw [hid, hi]
          exact hl a₀ ha₀ hi
        · exact ha.currentLease a hm
      maxAttempts := Rows.forall_of_fixed hfixed (fun _ => Iff.rfl) ha.maxAttempts }
    leases := { hk.leases with
      assignment := fun l hm => Rows.exists_of_fixed hfixed (fun _ => Iff.rfl) (hk.leases.assignment l hm) }
    results := { hk.results with
      assignment := fun r hr => Rows.exists_of_fixed hfixed (fun _ => Iff.rfl) (hk.results.assignment r hr) }
    failures := { hk.failures with
      assignment := fun r hr => Rows.exists_of_fixed hfixed (fun _ => Iff.rfl) (hk.failures.assignment r hr) }
    outcomes := { hk.outcomes with
      assignment := fun o ho => Rows.exists_of_fixed hfixed (fun _ => Iff.rfl) (hk.outcomes.assignment o ho) }
    scheduler := { hk.scheduler with }
    sources := { hk.sources with }
    cancellations := { hk.cancellations with
      assignment := fun c hc => Rows.exists_of_fixed hfixed (fun _ => Iff.rfl) (hk.cancellations.assignment c hc) }
    requests := { hk.requests with }
    batches := { hk.batches with }
    processed := { hk.processed with } }

theorem schema_setRequest {f : RequestRow → RequestRow} (hk : SchemaOk t)
    (hf : ∀ r, (f r).requestId = r.requestId ∧ (f r).workerSessionId = r.workerSessionId ∧
      (f r).requestDigest = r.requestDigest)
    (hl : ∀ r ∈ t.requests, r.requestId = i → ∀ k ∈ (f r).leaseId,
      (∃ l ∈ t.leases, l.leaseId = k) ∧ k ∉ t.requests.filterMap (·.leaseId))
    (hc : ∀ r ∈ t.requests, r.requestId = i → (∀ c ∈ (f r).completedAt, (f r).createdAt ≤ c) ∧
      (((f r).state = .pending ∧ (f r).leaseId = none ∧ (f r).completedAt = none) ∨
        ((f r).state = .noWork ∧ (f r).leaseId = none ∧ (f r).completedAt ≠ none) ∨
        ((f r).state = .leased ∧ (f r).leaseId ≠ none ∧ (f r).completedAt ≠ none))) :
    SchemaOk (setRequest i f t) := by
  have hr := hk.requests
  have hmap : ∀ {γ : Type} (g : RequestRow → γ), (∀ r, g (f r) = g r) →
      (setRequest i f t).requests.map g = t.requests.map g := fun g hg => Rows.map_set _ g i f t.requests fun r _ _ => hg r
  have hrows : ∀ {P : RequestRow → Prop}, (∀ r ∈ t.requests, P r) → (∀ r ∈ t.requests, r.requestId = i → P (f r)) →
      ∀ r ∈ (setRequest i f t).requests, P r := by
    intro P hold hnew r hm
    rcases (Rows.mem_set _).1 hm with ⟨r₀, hr₀, hi, rfl⟩ | ⟨hm, _⟩
    · exact hnew r₀ hr₀ hi
    · exact hold r hm
  -- the one row that is updated names no lease, or one no request named
  have hunique : ((setRequest i f t).requests.filterMap (·.leaseId)).Nodup := by
    rw [setRequest_requests, Rows.set, List.filterMap_map, List.Nodup, List.pairwise_filterMap]
    have hkey : t.requests.Pairwise fun r r' => r.requestId ≠ r'.requestId := List.pairwise_map.1 hr.key
    have hold := List.pairwise_filterMap.1 hr.leaseUnique
    refine (hkey.and hold).imp_of_mem fun {r r'} hm hm' happart k hk k' hk' he => ?_
    obtain ⟨hne, hdiff⟩ := happart
    subst he
    simp only [Function.comp_apply] at hk hk'
    by_cases hi : r.requestId = i
    · have hi' : ¬ r'.requestId = i := fun h => hne (hi.trans h.symm)
      rw [if_pos hi] at hk
      rw [if_neg hi'] at hk'
      exact (hl r hm hi k hk).2 (List.mem_filterMap.2 ⟨r', hm', hk'⟩)
    · rw [if_neg hi] at hk
      by_cases hi' : r'.requestId = i
      · rw [if_pos hi'] at hk'
        exact (hl r' hm' hi' k hk').2 (List.mem_filterMap.2 ⟨r, hm, hk⟩)
      · rw [if_neg hi'] at hk'
        exact hdiff k hk k hk' rfl
  exact {
    run := { hk.run with }
    policies := { hk.policies with }
    sessions := { hk.sessions with }
    groups := { hk.groups with }
    assignments := { hk.assignments with }
    leases := { hk.leases with }
    results := { hk.results with }
    failures := { hk.failures with }
    outcomes := { hk.outcomes with }
    scheduler := { hk.scheduler with }
    sources := { hk.sources with }
    cancellations := { hk.cancellations with }
    requests := {
      key := hmap (·.requestId) (fun r => (hf r).1) ▸ hr.key
      session := hrows hr.session fun r hm _ => (hf r).2.1 ▸ hr.session r hm
      lease := hrows hr.lease fun r hm hi k hk => (hl r hm hi k hk).1
      leaseUnique := hunique
      digest := hrows hr.digest fun r hm _ => (hf r).2.2 ▸ hr.digest r hm
      completed := hrows hr.completed fun r hm hi => (hc r hm hi).1
      shape := hrows hr.shape fun r hm hi => (hc r hm hi).2 }
    batches := { hk.batches with }
    processed := { hk.processed with } }

/-! ## New rows -/

/-- A column keeps its values apart when the new row's is new. -/
theorem nodup_map_append {ρ κ : Type} {l : List ρ} {x : ρ} (key : ρ → κ) (hn : (l.map key).Nodup)
    (hne : ∀ y ∈ l, key y ≠ key x) : ((l ++ [x]).map key).Nodup := by
  rw [List.map_append, List.map_singleton, List.nodup_append]
  refine ⟨hn, List.nodup_singleton _, fun k hk k' hk' => ?_⟩
  obtain ⟨y, hy, rfl⟩ := List.mem_map.1 hk
  rw [List.mem_singleton.1 hk']
  exact hne y hy

theorem forall_mem_append_singleton {ρ : Type} {P : ρ → Prop} {l : List ρ} {x : ρ} (hl : ∀ y ∈ l, P y) (hx : P x) :
    ∀ y ∈ l ++ [x], P y :=
  List.forall_mem_append.2 ⟨hl, List.forall_mem_singleton.2 hx⟩

/-- **A lease is admitted** under a free id, for the next attempt of an assignment, in a session of its worker. -/
theorem schema_insertLease {l : LeaseRow} (hk : SchemaOk t) (hid : l.leaseId ∉ t.leases.map (·.leaseId))
    (hattempt : ∀ m ∈ t.leases, m.assignmentId = l.assignmentId → m.attempt ≠ l.attempt)
    (ha : ∃ a ∈ t.assignments, a.assignmentId = l.assignmentId)
    (hs : ∃ s ∈ t.sessions, s.workerId = l.workerId ∧ s.workerSessionId = l.workerSessionId)
    (hpos : 0 < l.attempt) (ht : l.issuedAt < l.expiresAt) : SchemaOk (insertLease l t) := by
  have hl := hk.leases
  have hsome : ∀ {P : LeaseRow → Prop}, (∃ m ∈ t.leases, P m) → ∃ m ∈ t.leases ++ [l], P m := by
    rintro P ⟨m, hm, hp⟩
    exact ⟨m, List.mem_append_left _ hm, hp⟩
  exact {
    run := { hk.run with }
    policies := { hk.policies with }
    sessions := { hk.sessions with }
    groups := { hk.groups with }
    assignments := { hk.assignments with
      currentLease := fun a hm j hj => hsome (hk.assignments.currentLease a hm j hj) }
    leases := {
      key := nodup_map_append LeaseRow.leaseId hl.key fun m hm he => hid (he ▸ List.mem_map_of_mem hm)
      attempt := nodup_map_append (fun l : LeaseRow => (l.assignmentId, l.attempt)) hl.attempt fun m hm he =>
        hattempt m hm (congrArg Prod.fst he) (congrArg Prod.snd he)
      assignment := forall_mem_append_singleton hl.assignment ha
      session := forall_mem_append_singleton hl.session hs
      attemptPos := forall_mem_append_singleton hl.attemptPos hpos
      times := forall_mem_append_singleton hl.times ht }
    results := { hk.results with attempt := fun r hr => hsome (hk.results.attempt r hr) }
    failures := { hk.failures with attempt := fun r hr => hsome (hk.failures.attempt r hr) }
    outcomes := { hk.outcomes with attempt := fun o ho j hj => hsome (hk.outcomes.attempt o ho j hj) }
    scheduler := { hk.scheduler with }
    sources := { hk.sources with }
    cancellations := { hk.cancellations with lease := fun c hc => hsome (hk.cancellations.lease c hc) }
    requests := { hk.requests with lease := fun r hr j hj => hsome (hk.requests.lease r hr j hj) }
    batches := { hk.batches with }
    processed := { hk.processed with } }

end Aether
