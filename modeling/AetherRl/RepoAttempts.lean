import AetherRl.RepoSound
/-!
# RepoAttempts — assignments and their lease attempts

What a sound state says of an assignment's row and its rows in `lease_attempts`: the state column, the current lease,
the one active attempt and the attempt numbers agree.
-/
namespace Aether

open Tables

/-- The attempts of an assignment, in the order they were granted. -/
def Tables.attempts (t : Tables) (i : OpaqueId) : List LeaseRow := t.leases.filter (fun l => decide (l.assignmentId = i))

/-- The attempts whose lease is active. -/
def Tables.activeAttempts (t : Tables) (i : OpaqueId) : List LeaseRow :=
  (t.attempts i).filter (fun l => decide (l.state = .active))

section
variable {now : Time} {d : Db} {a : AssignmentRow}

/-- **An assignment held under a lease has one active attempt**, that lease's. -/
theorem activeAttempts_held {i : OpaqueId} (ha : a ∈ d.assignments) (h : (d.lifeOf a).Held i) :
    ∃ l, d.activeAttempts a.assignmentId = [l] ∧ l.leaseId = i := by
  obtain ⟨l, hl, hi, hs⟩ := h.lease
  have hx := life?_of_mem d.ok ha
  have hmem : ∀ m ∈ d.activeAttempts a.assignmentId, m = l := by
    intro m hm
    simp only [activeAttempts, attempts, List.mem_filter, decide_eq_true_eq] at hm
    have hmi := h.only m ((mem_life_leases hx).2 hm.1) hm.2
    exact Rows.eq_of_key _ d.ok.leases.key hm.1.1 ((mem_life_leases hx).1 hl).1 (hmi.trans hi.symm)
  have hl' : l ∈ d.activeAttempts a.assignmentId := by
    simp only [activeAttempts, attempts, List.mem_filter, decide_eq_true_eq]
    exact ⟨(mem_life_leases hx).1 hl, hs⟩
  have hn : (d.activeAttempts a.assignmentId).Nodup :=
    (List.Nodup.of_map _ d.ok.leases.key).filter _ |>.filter _
  exact ⟨l, Rows.eq_singleton hn hl' hmem, hi⟩

/-- An assignment no lease holds has no active attempt. -/
theorem activeAttempts_idle (ha : a ∈ d.assignments) (h : (d.lifeOf a).Idle) : d.activeAttempts a.assignmentId = [] := by
  rw [activeAttempts, List.filter_eq_nil_iff]
  intro l hl
  have hx := life?_of_mem d.ok ha
  simp only [attempts, List.mem_filter, decide_eq_true_eq] at hl
  simpa using h.closed l ((mem_life_leases hx).2 hl)

end

/-! ## A small coordinator -/

namespace Sample

def hexDigit (n : Nat) : Char := "0123456789abcdef".toList.getD n '0'

/-- A digest of the right shape that tells inputs of up to 32 bytes without trailing zeros apart. -/
def sha256 (bytes : Bytes) : Digest :=
  "sha256:" ++ String.ofList ((bytes.flatMap (fun b => [hexDigit (b.toNat / 16), hexDigit (b.toNat % 16)]) ++
    List.replicate 64 '0').take 64)

def utf8 (s : String) : Bytes := s.toList.map (fun c => c.toNat.toUInt8)

def codec : Codec where
  sha256 := sha256
  identityBytes i := [i.policyVersion.toUInt8 + 1]
  requestBytes r := utf8 r.requestId ++ [r.availableSlots.toUInt8]
  failureBytes e := utf8 e.leaseId
  resultEnvelopeBytes e := utf8 e.leaseId
  decodeResultEnvelope _ := none
  legacyResultBytes e := utf8 e.leaseId
  decodeLegacyResult _ := none

/-- The `n`-th reading of the clock is `n`. -/
def env : Env where
  codec := codec
  clock n := n
  clock_mono := fun _ _ h => Nat.cast_le.2 h
  retryBaseSeconds := 1
  retryMaxSeconds := 60
  base_pos := by decide +kernel
  max_pos := by decide +kernel

def policy : PolicyManifest := ⟨"run", 0, "base", none, 0, "policy-0"⟩

def worker : WorkerRegistration := ⟨"worker", "session", ⟨"base", "runtime", 1, 1, 1, "{}"⟩⟩

def source : Repo.EnvironmentSourceSpec where
  sourceId := "source"
  kind := .train
  environment := ⟨"environment", "1"⟩
  tasks := ["task"]
  sampling := "{}"
  groupSize := 1
  maxAttempts := 3
  resultSizeLimitBytes := 1024
  assignmentTimeoutSeconds := none
  weight := 1
  enabled := true
  tasks_ne := by decide
  groupSize_pos := by decide
  maxAttempts_pos := by decide
  sizeLimit_pos := by decide
  timeout_pos := fun _ h => absurd h (Option.not_mem_none _)
  weight_pos := by decide +kernel

def request : LeaseRequest := ⟨"request", "worker", "session", 1, [], 1, 0, .nil, by decide, by decide +kernel⟩

def draws : Repo.Draws := ⟨"lease-a", fun n => "id-" ++ toString n, "lease-b"⟩

/-- A call of a process that lives through it. -/
def step (c : Call) : Step := ⟨c, none, 0⟩

/-- A run that ends with an assignment leased to the worker's request. -/
def leased : List Step :=
  [.initializeRun policy, .configureScheduler 1 0, .registerWorker worker, .registerSchedulerSource source,
    .validateLeaseRequest request, .leaseOrCreateNextCompatible request 60 draws (fun _ => true)].map step

end Sample

/-! ## Every reached state -/

/-- **The lease state machine**: in every reached state an assignment is leased exactly when it has a current lease,
exactly when it has one active attempt, which is then the current lease's; its attempts are numbered from one without
gap; and an assignment that waits has an attempt left. -/
theorem leased_iff_one_active_attempt (env : Env) (steps : List Step) :
    ∀ a ∈ (reached env steps).db.assignments,
      (a.state = .leased ↔ a.currentLeaseId ≠ none) ∧
      (a.currentLeaseId ≠ none ↔ ((reached env steps).db.activeAttempts a.assignmentId).length = 1) ∧
      (∀ l ∈ (reached env steps).db.activeAttempts a.assignmentId, a.currentLeaseId = some l.leaseId) ∧
      ((reached env steps).db.attempts a.assignmentId).map (·.attempt) = List.range' 1 a.attemptCount ∧
      a.attemptCount ≤ a.maxAttempts ∧
      (a.state = .pending ∨ a.state = .retryWait → a.attemptCount < a.maxAttempts) := by
  intro a ha
  have hw := (reached_sound env steps).wf _ _ (life?_of_mem (reached env steps).db.ok ha)
  have hleft : a.state = .pending ∨ a.state = .retryWait → a.attemptCount < a.maxAttempts := by
    intro hs
    refine (hw.waiting ?_).left
    show a.state.waiting = true
    rcases hs with hs | hs <;> rw [hs] <;> rfl
  refine ⟨?_, ?_, ?_, hw.numbered.attempts, hw.numbered.bound, hleft⟩
  all_goals by_cases hs : a.state = .leased
  · obtain ⟨i, hi⟩ := hw.held hs
    have hc : a.currentLeaseId = some i := hi.current
    simp [hs, hc]
  · have hc : a.currentLeaseId = none := (hw.idle hs).current
    simp [hs, hc]
  · obtain ⟨i, hi⟩ := hw.held hs
    obtain ⟨l, hl, _⟩ := activeAttempts_held ha hi
    have hc : a.currentLeaseId = some i := hi.current
    simp [hc, hl]
  · have hc : a.currentLeaseId = none := (hw.idle hs).current
    simp [hc, activeAttempts_idle ha (hw.idle hs)]
  · obtain ⟨i, hi⟩ := hw.held hs
    obtain ⟨l, hl, hli⟩ := activeAttempts_held ha hi
    intro m hm
    rw [hl, List.mem_singleton] at hm
    rw [hm, hli]
    exact hi.current
  · intro m hm
    rw [activeAttempts_idle ha (hw.idle hs)] at hm
    exact absurd hm List.not_mem_nil

theorem one_active_attempt_of_leased : ∃ a ∈ (reached Sample.env Sample.leased).db.assignments,
    a.state = .leased ∧ ((reached Sample.env Sample.leased).db.activeAttempts a.assignmentId).length = 1 := by
  have hrun : ∃ a ∈ (reached Sample.env Sample.leased).db.assignments, a.state = .leased := by decide +kernel
  obtain ⟨a, ha, hs⟩ := hrun
  have h := leased_iff_one_active_attempt Sample.env Sample.leased a ha
  exact ⟨a, ha, hs, h.2.1.1 (h.1.1 hs)⟩

end Aether
