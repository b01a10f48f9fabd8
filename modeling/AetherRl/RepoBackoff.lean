import AetherRl.RepoErrors
import AetherRl.RepoCreations
import AetherRl.RepoRecovery
/-!
# RepoBackoff — the delays of the retries

The delay of the `n`-th attempt doubles and is then capped; the power is converted to a float, which the base is, before
the cap, so it is computed up to the 1024th attempt and no further.  An assignment is leased no more often than it was created to be: in a
run that asks for at most 1024 attempts, no expiry and no failure computes a delay that is not there.
-/
namespace Aether

open Txn
open Tables Repo

/-! ## The delay of one attempt -/

/-- **The powers that convert.** -/
theorem maxFloat_lt_iff {n : Nat} : maxFloat < 2 ^ n ↔ 1024 ≤ n := by
  have hbelow : 2 ^ 1023 ≤ maxFloat := Nat.le_sub_of_add_le (by decide +kernel)
  have habove : maxFloat < 2 ^ 1024 := Nat.sub_lt (by decide +kernel) (by decide +kernel)
  constructor
  · intro h
    by_contra hn
    have hle : 2 ^ n ≤ 2 ^ 1023 := Nat.pow_le_pow_right Nat.two_pos (Nat.le_of_lt_succ (not_le.1 hn))
    exact absurd h (not_lt.2 (hle.trans hbelow))
  · intro h
    exact habove.trans_le (Nat.pow_le_pow_right Nat.two_pos h)

/-- `min(retry_max_seconds, retry_base_seconds * 2 ** n)`, computed exactly. -/
def cappedDelay (env : Env) (n : Nat) : Time := min env.retryMaxSeconds (env.retryBaseSeconds * ((2 ^ n : Nat) : Time))

theorem cappedDelay_mono (env : Env) {m n : Nat} (h : m ≤ n) : cappedDelay env m ≤ cappedDelay env n := by
  have hp : ((2 ^ m : Nat) : Time) ≤ ((2 ^ n : Nat) : Time) := by
    exact_mod_cast Nat.pow_le_pow_right Nat.two_pos h
  exact min_le_min_left _ (mul_le_mul_of_nonneg_left hp env.base_pos.le)

/-- **The delay of an attempt**: there up to the 1024th. -/
theorem retryDelay_succ (env : Env) (n : Nat) :
    retryDelay env (n + 1) = if 1024 ≤ n then .error .overflow else .ok (cappedDelay env n) := by
  by_cases h : 1024 ≤ n
  · simp only [retryDelay, if_pos (maxFloat_lt_iff.2 h), if_pos h]
  · simp only [retryDelay, if_neg (fun hn => h (maxFloat_lt_iff.1 hn)), if_neg h]
    rfl

theorem retryDelay_of_le (env : Env) {n : Nat} (h : n ≤ 1024) : retryDelay env n ≠ .error .overflow := by
  cases n with
  | zero => simp [retryDelay]
  | succ n => simp [retryDelay_succ, Nat.lt_of_succ_le h]

/-- The delays of `n` attempts: each is there and at most the maximum, and none is shorter than an earlier one. -/
structure BacksOff (env : Env) (n : Nat) : Prop where
  defined : ∀ k, 1 ≤ k → k ≤ n → ∃ delay, retryDelay env k = .ok delay ∧ delay ≤ env.retryMaxSeconds
  nondecreasing : ∀ j k, 1 ≤ j → j ≤ k → k ≤ n → ∀ x y, retryDelay env j = .ok x → retryDelay env k = .ok y → x ≤ y

/-- **Up to 1024 attempts back off, and no more.** -/
theorem backsOff_iff (env : Env) (n : Nat) : BacksOff env n ↔ n ≤ 1024 := by
  constructor
  · intro h
    by_contra hn
    obtain ⟨delay, hd, _⟩ := h.defined 1025 (by omega) (by omega)
    simp [retryDelay_succ] at hd
  · intro hn
    have hok : ∀ k, 1 ≤ k → k ≤ n → retryDelay env k = .ok (cappedDelay env (k - 1)) := by
      intro k h₁ hk
      obtain ⟨m, rfl⟩ := Nat.exists_eq_add_of_le' h₁
      rw [retryDelay_succ, if_neg (by omega), Nat.add_sub_cancel]
    refine ⟨fun k h₁ hk => ⟨_, hok k h₁ hk, min_le_left _ _⟩, fun j k h₁ hjk hk x y hx hy => ?_⟩
    rw [hok j h₁ (hjk.trans hk), Except.ok.injEq] at hx
    rw [hok k (h₁.trans hjk) hk, Except.ok.injEq] at hy
    rw [← hx, ← hy]
    exact cappedDelay_mono env (by omega)

/-! ## The attempts a run asks for -/

/-- The `max_attempts` a call asks for. -/
def Call.maxAttempts : Call → Option Nat
  | .createGroup _ n => some n
  | .registerSchedulerSource spec => some spec.maxAttempts
  | _ => none

/-- Every assignment there is, and every one a source will make, may be attempted `n` times at most. -/
structure Capped (n : Nat) (d : Db) : Prop where
  assignments : ∀ a ∈ d.assignments, a.maxAttempts ≤ n
  sources : ∀ s ∈ d.sources, s.maxAttempts ≤ n

section
variable {n : Nat} {now : Time} {d d' : Db} {env : Env}

theorem Capped.of_fixed (h : Capped n d) (ha : d'.assignments.map AssignmentRow.fixed = d.assignments.map AssignmentRow.fixed)
    (hs : ∀ s ∈ d'.sources, s.maxAttempts ≤ n) : Capped n d' := by
  refine ⟨fun a hm => ?_, hs⟩
  obtain ⟨b, hb, hf⟩ := List.mem_map.1 (ha ▸ List.mem_map_of_mem hm)
  have hmax : b.maxAttempts = a.maxAttempts := congrArg (·.maxAttempts) hf
  exact hmax ▸ h.assignments b hb

/-- A creation's assignments have the attempts it was asked for. -/
theorem Capped.created (h : Capped n d) {g : GroupRow} {as : List RolloutAssignment} {m : Nat} (hm : m ≤ n)
    (hc : Created d.toTables d'.toTables g (as.map (newRow env m))) (hs : ∀ s ∈ d'.sources, s.maxAttempts ≤ n) :
    Capped n d' := by
  refine ⟨fun a ha => ?_, hs⟩
  rw [hc.assignments, List.mem_append] at ha
  rcases ha with ha | ha
  · exact h.assignments a ha
  · obtain ⟨_, _, rfl⟩ := List.mem_map.1 ha
    exact hm

/-- **`create_next_group` creates what its source was registered with.** -/
theorem createNext_capped {kind : Option Kind} {ids : Nat → OpaqueId} {t : Time} {r : Option CreatedGroup}
    (hl : d.Logged) (h : Capped n d) (hc : CreateNext env kind ids t d r d') : Capped n d' := by
  cases hc with
  | idle => exact h
  | existing source hs g hg =>
    rw [hl.find_none d.ok.sources.key (mem_of_served hs)] at hg
    cases hg
  | made source hs hg active ha hid hd task htask r _ hm =>
    obtain ⟨⟨as, _, hcr⟩, _, hsrc⟩ := returns_newGroup hm
    refine h.created (h.sources source (mem_of_served hs)) hcr fun s hmem => ?_
    rw [hsrc, Rows.mem_set] at hmem
    rcases hmem with ⟨s₀, hmem, _, rfl⟩ | ⟨hmem, _⟩
    · exact h.sources s₀ hmem
    · exact h.sources s hmem

theorem register_capped {spec : EnvironmentSourceSpec} (hn : spec.maxAttempts ≤ n) (h : Capped n d)
    (hc : Commits (registerSchedulerSourceBody spec) d d') : Capped n d' := by
  obtain ⟨_, hc⟩ := hc
  have ha := writes_registerSchedulerSourceBody (S := [.sources]) spec (by decide) _ _ _ hc .fixedAssignments (by decide)
  simp only [registerSchedulerSourceBody, returns_bind, returns_tables] at hc
  obtain ⟨_, d₀, ⟨rfl, rfl⟩, hc⟩ := hc
  split at hc
  · rw [returns_raiseIf] at hc
    rw [hc.2]
    exact h
  · rw [returns_exec] at hc
    refine h.of_fixed ha fun s hm => ?_
    have hsrc : d'.sources = d₀.sources ++ [spec.row (minVirtualFinish d₀.toTables) 0] := by rw [hc]; rfl
    rw [hsrc, List.mem_append, List.mem_singleton] at hm
    rcases hm with hm | rfl
    · exact h.sources s hm
    · exact hn

/-- **A commit asks for no more attempts than its call does.** -/
theorem commit_capped {c : Call} (hn : ∀ m ∈ c.maxAttempts, m ≤ n) (hl : d.Logged) (h : Capped n d)
    (hc : Commit env now d d' c) : Capped n d' := by
  by_cases hw : ∀ k ∈ [Table.fixedAssignments, .sources], k ∉ c.writes
  · have hs : d'.sources = d.sources := commit_rows hc .sources (hw _ (by decide))
    exact h.of_fixed (commit_rows hc .fixedAssignments (hw _ (by decide))) (hs ▸ h.sources)
  cases c
  case registerSchedulerSource spec => exact register_capped (hn _ rfl) h hc
  case createNextGroup =>
    obtain ⟨_, hc⟩ := hc
    exact createNext_capped hl h (returns_createNextGroupBody hc)
  case createGroup as m =>
    obtain ⟨first, rest, rfl, hi, hg, u, hc⟩ := hc
    obtain ⟨hcr, _, hsrc⟩ := returns_createGroupBody hi (groupId_of_inputs hg) hc
    exact h.created (hn m rfl) hcr (hsrc ▸ h.sources)
  case leaseOrCreateNextCompatible =>
    rcases hc with ⟨_, _, _, hc⟩ | ⟨_, hc⟩ | ⟨_, hc⟩
    · have hrows := writes_leaseNextBody (S := .requests :: .fixedLeases :: reapTables) env _ _ _ now (by decide)
        (by decide) (by decide) _ _ _ hc
      have hs : d'.sources = d.sources := hrows .sources (by decide)
      exact h.of_fixed (hrows .fixedAssignments (by decide)) (hs ▸ h.sources)
    · have hrows := fun k => writes_leaseRequestCanGenerateBody (S := []) _ _ _ _ _ hc k List.not_mem_nil
      have hs : d'.sources = d.sources := hrows .sources
      exact h.of_fixed (hrows .fixedAssignments) (hs ▸ h.sources)
    · exact createNext_capped hl h (returns_createNextGroupBody hc)
  all_goals exact absurd (by simp only [Call.writes]; decide) hw

/-- **An assignment is attempted no more often than it may be.** -/
theorem Sound.attempts_le (hs : Sound now d.toTables) (h : Capped n d) {a : AssignmentRow} (ha : a ∈ d.assignments) :
    a.attemptCount ≤ n := by
  have hx := life?_of_assignment (Rows.get_of_mem _ d.ok.assignments.key ha)
  exact (hs.wf _ _ hx).numbered.bound.trans (h.assignments a ha)

end

/-! ## Expiry, failure and recovery -/

/-- The three methods that reap leases do not overflow. -/
structure NeverOverflows (env : Env) (w : World) : Prop where
  expire : (expireLeases env w).1 ≠ .error .overflow
  fail : ∀ e, (acceptFailure env e w).1 ≠ .error .overflow
  recover : ∀ artifacts, (recover env artifacts w).1 ≠ .error .overflow

section
variable {now : Time} {d : Db} {env : Env} {w : World}

theorem mem_expiredLeases {t : Tables} {x : ExpiredLease} (hx : x ∈ expiredLeases t now) :
    x.assignment ∈ t.assignments := by
  rw [expiredLeases, Rows.mem_orderBy, List.mem_filterMap] at hx
  obtain ⟨l, _, hx⟩ := hx
  obtain ⟨a, ha, hx⟩ := Option.bind_eq_some_iff.1 hx
  split at hx
  · rw [← Option.some.inj hx]
    exact Rows.mem_of_get _ ha
  · cases hx

theorem spares_expireLeasesBody_of_capped (hs : Sound now d.toTables) (h : Capped 1024 d) (t : Time) :
    Spares .overflow (expireLeasesBody env t) d :=
  spares_expireLeasesBody computed_overflow env fun _ hx => retryDelay_of_le env (hs.attempts_le h (mem_expiredLeases hx))

theorem spares_expireBody_of_capped (hs : Sound now d.toTables) (h : Capped 1024 d) :
    Spares .overflow (expireBody env now) d := by
  simp only [expireBody, spares_bind]
  refine ⟨spares_reconcileStaleWork computed_overflow, fun _ s hr => ?_⟩
  have hs' : Sound now s.toTables := (reconcileStaleWork_sound hs hr).1.1
  have hrows := writes_reconcileStaleWork (S := reapTables) now (List.Subset.refl _) _ _ _ hr
  have hsrc : s.sources = d.sources := hrows .sources (by decide)
  exact spares_expireLeasesBody_of_capped hs' (h.of_fixed (hrows .fixedAssignments (by decide)) (hsrc ▸ h.sources)) now

theorem spares_existingFailure {e : Error} (he : e.Computed) (f : FailureEnvelope) (digest : Digest) :
    Spares e (existingFailure f digest) d := by
  simp only [existingFailure, spares_bind, spares_tables, true_and]
  intro t s _
  split
  · exact spares_pure _
  · simp [he.ne (.conflict _) not_false]

theorem spares_validateActiveEnvelope {e : Error} (he : e.Computed) (k : EnvelopeKey) (t : Time) :
    Spares e (validateActiveEnvelope k t) d := by
  simp [validateActiveEnvelope, spares_assignment he, he.ne (.conflict _) not_false, he.ne (.invalidState _) not_false]

theorem spares_failLease {e : Error} (he : e.Computed) (f : FailureEnvelope) (digest : Digest) {a : AssignmentRow}
    (hd : retryDelay env a.attemptCount ≠ .error e) (t : Time) : Spares e (failLease env f digest a t) d := by
  simp only [failLease, spares_bind, spares_tables, true_and]
  refine ⟨spares_exec he _, fun _ s _ _ s _ => ?_⟩
  split
  · simp [spares_exec he]
  · exact spares_retryOrTerminal he env hd _ _ _

theorem spares_acceptFailureBody (hs : Sound now d.toTables) (h : Capped 1024 d) (f : FailureEnvelope) (digest : Digest)
    (t : Time) : Spares .overflow (acceptFailureBody env f digest t) d := by
  simp only [acceptFailureBody, spares_bind]
  refine ⟨spares_existingFailure computed_overflow f digest, fun found s hf => ?_⟩
  split
  · exact spares_pure _
  · simp only [spares_bind]
    refine ⟨spares_validateActiveEnvelope computed_overflow _ _, fun x s' hv => ?_⟩
    have hsame : s.assignments = d.assignments :=
      writes_existingFailure (S := []) f digest _ _ _ hf .assignments List.not_mem_nil
    have hm : x.1 ∈ d.assignments := hsame ▸ Rows.mem_of_get _ (returns_validateActiveEnvelope hv).2.1
    refine ⟨spares_failLease computed_overflow f digest (retryDelay_of_le env (hs.attempts_le h hm)) t, fun _ s _ => ?_⟩
    exact ⟨spares_exec computed_overflow _, fun _ s _ => ⟨spares_recomputeGroup computed_overflow _, fun _ s _ => spares_pure _⟩⟩

/-! ### Recovery -/

theorem wp_unlink {f : Spool → Spool} {e : Error} (hc : Error.crash ≠ e) :
    Wp (spoolStep fun s _ => .ok (f s)) (fun _ w' => w'.db = w.db ∧ w'.reads = w.reads) (fun e' _ => e' ≠ e) w := by
  unfold spoolStep Wp
  rcases durable_cases (fun w => (Except.ok (), { w with spool := f w.spool })) w with h | ⟨n, h⟩
  · simpa only [h] using hc
  · simp only [h, and_self]

/-- A row that does not verify is corrupt. -/
theorem verifyResultRow_error {s : Spool} {r : ResultRow} {e : Error} (h : verifyResultRow env s r = .error e) :
    ∃ what, e = .artifactCorruption what := by
  unfold verifyResultRow at h
  split at h
  · exact ⟨_, (Except.error.inj h).symm⟩
  · split at h
    · exact ⟨_, (Except.error.inj h).symm⟩
    · split at h
      · exact ⟨_, (Except.error.inj h).symm⟩
      · split at h
        · exact ⟨_, (Except.error.inj h).symm⟩
        · split at h
          · exact ⟨_, (Except.error.inj h).symm⟩
          · cases h

/-- The world is sound, and its assignments are attempted 1024 times at most. -/
def Backed (env : Env) (w : World) : Prop := w.Sound env ∧ Capped 1024 w.db

theorem Backed.unlink (h : Backed env w) (f : Spool → Spool) :
    Wp (spoolStep fun s _ => .ok (f s)) (fun _ => Backed env) (fun e _ => e ≠ .overflow) w := by
  refine (wp_unlink (by decide)).imp (fun _ w' hw => ?_) fun _ _ he => he
  unfold Backed World.Sound World.now
  rw [hw.1, hw.2]
  exact h

theorem expireLeases_spared (h : Backed env w) :
    Wp (expireLeases env) (fun _ _ => True) (fun e _ => e ≠ .overflow) w := by
  simp only [expireLeases, wp_bind, wp_readClock]
  exact wp_transaction_spares (fun _ _ _ _ => trivial) (spares_expireBody_of_capped (sound_clock h.1) h.2) (by decide)

theorem acceptFailure_spared (h : Backed env w) (f : FailureEnvelope) :
    Wp (acceptFailure env f) (fun _ _ => True) (fun e _ => e ≠ .overflow) w := by
  simp only [acceptFailure, wp_bind]
  refine (wp_select _).2 ⟨fun found d _ => ?_, fun e he => ?_⟩
  · split
    · trivial
    · simp only [wp_bind, wp_readClock]
      refine wp_transaction_spares (fun _ _ _ _ => trivial) ?_ (by decide)
      exact spares_acceptFailureBody (sound_clock h.1) h.2 f _ _
  · rintro rfl
    exact spares_existingFailure computed_overflow f _ he

theorem recover_spared (h : Backed env w) (artifacts : Artifacts) :
    Wp (recover env artifacts) (fun _ _ => True) (fun e _ => e ≠ .overflow) w := by
  simp only [recover, wp_bind]
  show Wp (Txn.each (w.spool.incoming.map Prod.fst) unlinkTemporary) _ _ w
  refine (wp_each (I := Backed env) (E := fun e _ => e ≠ .overflow) (fun name _ w' hw' => hw'.unlink _) h).imp
    (fun _ w₁ h₁ => ?_) fun _ _ h => h
  refine (wp_select _).2 ⟨fun t d ht => ?_, fun e he => by cases he⟩
  show Wp (Repo.ofExcept (t.results.mapM (verifyResultRow env w₁.spool))) _ _ w₁
  refine wp_ofExcept.2 ⟨fun referenced _ => ?_, fun e he => ?_⟩
  · refine (wp_select _).2 ⟨fun _ _ _ => ?_, fun e he => ?_⟩
    · refine (wp_each (I := Backed env) (E := fun e _ => e ≠ .overflow) (fun name _ w' hw' => hw'.unlink _) h₁).imp
        (fun _ w₂ h₂ => ?_) fun _ _ h => h
      refine wp_transaction_spares (fun _ d₃ n h₃ => ?_) (spares_exec computed_overflow _) (by decide)
      have hrows := writes_setResults (S := [.results]) unclaim (by decide) fixed_unclaim _ _ _ h₃
      have hsrc : d₃.sources = w₂.db.sources := hrows .sources (by decide)
      have hb : Backed env { w₂ with db := d₃, crashAfter := n } :=
        ⟨(steady_setResults fixed_unclaim w₂.db _ d₃ h₂.1 h₃).1,
          h₂.2.of_fixed (hrows .fixedAssignments (by decide)) (hsrc ▸ h₂.2.sources)⟩
      refine (expireLeases_spared hb).imp (fun _ w₄ _ => ?_) fun _ _ h => h
      exact wp_transaction_spares (fun _ _ _ _ => trivial) (spares_recomputeGroups computed_overflow) (by decide)
    · rintro rfl
      exact spares_forEach _ _ (fun row _ s => by simp [verifyPolicyRow]) he
  · obtain ⟨r, _, hr⟩ := mapM_error he
    obtain ⟨what, rfl⟩ := verifyResultRow_error hr
    simp

theorem Backed.neverOverflows (h : Backed env w) : NeverOverflows env w where
  expire := (expireLeases_spared h).spared
  fail e := (acceptFailure_spared h e).spared
  recover artifacts := (recover_spared h artifacts).spared

end

/-! ## Every run -/

/-- The run asks for at most `n` attempts of any assignment. -/
def AsksAtMost (n : Nat) (steps : List Step) : Prop := ∀ s ∈ steps, ∀ m ∈ s.call.maxAttempts, m ≤ n

theorem capped_empty (n : Nat) : Capped n Db.empty :=
  ⟨fun _ h => absurd h List.not_mem_nil, fun _ h => absurd h List.not_mem_nil⟩

theorem reached_capped (env : Env) {n : Nat} {steps : List Step} (h : AsksAtMost n steps) :
    Capped n (reached env steps).db :=
  (runFrom_holds (I := fun _ d => d.Logged ∧ Capped n d) (R := fun _ _ => True) (fun _ _ _ _ h => h) (fun _ => trivial)
    (fun _ _ _ _ _ => trivial) steps World.fresh (fun s hs _ _ _ hi hc =>
      ⟨⟨(commit_logStep hi.1 hc).logged hi.1, commit_capped (h s hs) hi.1 hi.2 hc⟩, trivial⟩)
    ⟨logged_empty, capped_empty n⟩).1.2

/-- **Up to 1024 attempts the backoff is total**, its base being a float: the delays of `n` attempts are defined, at most
the maximum and in order when `n` is at most 1024 and for no larger `n`; and in every state of a run that asks for no
more attempts than that, neither an expiry nor a failure nor a recovery overflows, wherever the process may die. -/
theorem backoff_total_iff (env : Env) :
    (∀ n, BacksOff env n ↔ n ≤ 1024) ∧
    ∀ steps, AsksAtMost 1024 steps → ∀ crashAfter torn,
      NeverOverflows env { reached env steps with crashAfter := crashAfter, torn := torn } :=
  ⟨backsOff_iff env, fun steps h crashAfter torn =>
    have hb : Backed env { reached env steps with crashAfter := crashAfter, torn := torn } :=
      ⟨reached_sound env steps, reached_capped env h⟩
    hb.neverOverflows⟩

/-- A run whose one group may be attempted twice. -/
theorem backoff_total_leased :
    NeverOverflows Sample.env { reached Sample.env Sample.leased with crashAfter := some 0, torn := 0 } := by
  refine (backoff_total_iff Sample.env).2 Sample.leased (fun s hs m hm => ?_) (some 0) 0
  have hall : Sample.leased.all (fun s => s.call.maxAttempts.all (fun m => decide (m ≤ 1024))) = true := by decide +kernel
  exact of_decide_eq_true (Option.all_eq_true _ _ |>.1 (List.all_eq_true.1 hall s hs) m hm)

/-- **1025 attempts do not back off**: the delay of the last one is not there, whatever the cap. -/
theorem delay_overflows : retryDelay Sample.env 1025 = .error .overflow ∧ ¬ BacksOff Sample.env 1025 := by
  constructor
  · rw [retryDelay_succ, if_pos (le_refl 1024)]
  · rw [backsOff_iff]
    omega

end Aether
