import AetherRl.RepoCall
/-!
# RepoCommit — a call is a chain of commits

`Commit` lists, call by call, the transactions a call may commit, each at the reading of the clock it was given.
Whatever a call does, returning, raising or dying on the way, its world moves along `Link`s: readings of the clock and
durable steps on the spool, which leave the database alone, and commits.  So an invariant of every commit is one of
every run.
-/
namespace Aether

open Txn (Returns Keeps method_bind)
open Repo
open Relation (ReflTransGen)

/-- The last reading of the clock. -/
def World.now (env : Env) (w : World) : Time := env.clock (w.reads - 1)

/-- The body commits, with some answer. -/
def Commits {α : Type} (m : Body α) (d d' : Db) : Prop := ∃ a, Returns m d a d'

/-- **What a call may commit at `now`.** -/
def Commit (env : Env) (now : Time) (d d' : Db) : Call → Prop
  | .initializeRun p => p.policyVersion = 0 ∧ Commits (initializeRunBody p (env.codec.policyManifestDigest p)) d d'
  | .recordPolicy m path onDisk => ∃ verified, prepareTrainedPolicyRecord env m onDisk = .ok verified ∧
      Commits (recordPolicyInTransaction env verified path) d d'
  | .recordAndActivatePolicy m path onDisk => ∃ verified, prepareTrainedPolicyRecord env m onDisk = .ok verified ∧
      Commits (recordAndActivateBody env verified path now) d d'
  | .activatePolicy i artifacts => Commits (activatePolicyBody env i artifacts now) d d'
  | .configureScheduler lag preference => Commits (configureSchedulerBody lag preference now) d d'
  | .registerWorker r => Commits (registerWorkerBody r now) d d'
  | .recordHeartbeat h duration => Commits (heartbeatBody h duration now) d d'
  | .validateLeaseRequest r => Commits (validateLeaseRequestBody r (env.codec.requestDigest r) now) d d'
  | .markLeaseRequestNoWork i => Commits (markLeaseRequestNoWorkBody i now) d d'
  | .associateOfferedLease r offered => ∃ t, Commits (associateBody r offered [(offered, t)] now) d d'
  | .associateOfferedLeases r offered => ∃ first rest times, offered = first :: rest ∧
      Commits (associateBody r first (offered.zip times) now) d d'
  | .releaseUnofferedLease i => Commits (releaseUnofferedLeaseBody i now) d d'
  | .registerSchedulerSource spec => Commits (registerSchedulerSourceBody spec) d d'
  | .createNextGroup kind ids artifacts => Commits (createNextGroupBody env kind ids artifacts now) d d'
  | .createGroup as n => ∃ first rest, as = first :: rest ∧
      Rows.orderBy id (as.map (·.groupIndex)) = List.range first.groupSize ∧
      (∀ a ∈ rest, groupInputs env a = groupInputs env first) ∧ Commits (createGroupBody env first as n) d d'
  | .leaseNextCompatible r duration i => 0 < duration ∧ Commits (leaseNextBody env r duration i now) d d'
  | .leaseOrCreateNextCompatible r duration draws artifacts =>
      (0 < duration ∧ ∃ i, Commits (leaseNextBody env r duration i now) d d') ∨
      Commits (leaseRequestCanGenerateBody r now) d d' ∨
      Commits (createNextGroupBody env none draws.group artifacts now) d d'
  | .createLease i worker session l duration =>
      Commits (expireBody env now) d d' ∨
      (0 < duration ∧ Commits (createLeaseBody i worker session l duration now) d d')
  | .renewLease r => Commits (renewBody r now) d d'
  | .expireLeases => Commits (expireBody env now) d d'
  | .acceptResult e _ => ∃ digest path size, Commits (acceptResultBody e digest path size now) d d'
  | .acceptFailure e => Commits (acceptFailureBody env e (env.codec.sha256 (env.codec.failureBytes e)) now) d d'
  | .claimPendingResults n => Commits (claimPendingResultsBody n) d d'
  | .markResultProcessed i => Commits (markResultProcessedBody i) d d'
  | .recordProcessedGroup g => Commits (recordProcessedGroupBody g now) d d'
  | .discardProcessedRollouts ms => Commits (discardBody ms) d d'
  | .recordTrainingBatch b => Commits (recordTrainingBatchBody b now) d d'
  | .recover _ => Commits (exec (Tables.setResults unclaim)) d d' ∨ Commits (expireBody env now) d d' ∨
      Commits recomputeGroups d d'

/-- One link: the database stays, or one transaction commits. -/
inductive Link (env : Env) (c : Call) (w w' : World) : Prop
  | idle (hd : w'.db = w.db) (hr : w.reads ≤ w'.reads)
  | commit (h : Commit env (w.now env) w.db w'.db c) (hr : w'.reads = w.reads)

abbrev Links (env : Env) (c : Call) : World → World → Prop := ReflTransGen (Link env c)

section
variable {env : Env} {c : Call} {α β : Type}

theorem Links.bind {x : Method α} {f : α → Method β} (hx : Keeps (Links env c) x) (hf : ∀ a, Keeps (Links env c) (f a)) :
    Keeps (Links env c) (x >>= f) := Keeps.bind (fun _ _ _ h₁ h₂ => h₁.trans h₂) hx hf

theorem Links.bind_at {x : Method α} {f : α → Method β} {w : World} (hx : Links env c w (x w).2)
    (hf : ∀ a, Keeps (Links env c) (f a)) : Links env c w ((x >>= f) w).2 :=
  Keeps.bind_at (fun _ _ _ h₁ h₂ => h₁.trans h₂) hx hf

theorem Links.pure (a : α) : Keeps (Links env c) (pure a : Method α) := Keeps.pure (fun _ => .refl) a

theorem Links.throw (e : Error) : Keeps (Links env c) (throw e : Method α) := Keeps.throw (fun _ => .refl) e

theorem Links.each {f : α → Method Unit} (l : List α) (h : ∀ a, Keeps (Links env c) (f a)) :
    Keeps (Links env c) (Txn.each l f) :=
  Keeps.each (fun _ => .refl) (fun _ _ _ h₁ h₂ => h₁.trans h₂) l (fun a _ => h a)

/-! ### Steps that leave the database alone -/

/-- The method neither writes the database nor reads the clock. -/
abbrev Offline (m : Method α) : Prop := Keeps (fun w w' => w'.db = w.db ∧ w'.reads = w.reads) m

theorem Offline.links {m : Method α} (h : Offline m) : Keeps (Links env c) m :=
  fun w => .single (.idle (h w).1 (h w).2.ge)

theorem offline_raiseUnless (p : Prop) [Decidable p] (e : Error) : Offline (raiseUnless p e) := by
  intro w
  unfold raiseUnless
  split <;> exact ⟨rfl, rfl⟩

theorem offline_select (body : Body α) : Offline (select body) := by
  intro w
  unfold select
  split <;> exact ⟨rfl, rfl⟩

theorem offline_durable {f : World → Except Error α × World} (hf : Offline f) : Offline (durable f) := by
  intro w
  rcases durable_cases f w with h | ⟨n, h⟩ <;> rw [h]
  · exact ⟨rfl, rfl⟩
  · exact hf { w with crashAfter := n }

theorem offline_spoolStep (f : Spool → Nat → Except Error Spool) : Offline (spoolStep f) := by
  refine offline_durable fun w => ?_
  split <;> exact ⟨rfl, rfl⟩

theorem offline_tryFinally {body : Method α} {cleanup : Method Unit} (hb : Offline body) (hc : Offline cleanup) :
    Offline (tryFinally body cleanup) := by
  intro w
  have h₁ := hb w
  unfold tryFinally
  split
  · rename_i w' h
    rw [h] at h₁
    exact h₁
  · rename_i r w' _ h
    rw [h] at h₁
    have h₂ := hc w'
    split <;> rename_i h' <;> rw [h'] at h₂ <;> exact ⟨h₂.1.trans h₁.1, h₂.2.trans h₁.2⟩

theorem offline_bind {x : Method α} {f : α → Method β} (hx : Offline x) (hf : ∀ a, Offline (f a)) :
    Offline (x >>= f) :=
  Keeps.bind (fun _ _ _ h₁ h₂ => ⟨h₂.1.trans h₁.1, h₂.2.trans h₁.2⟩) hx hf

theorem offline_publishResult (env : Env) (d : Digest) (data : Bytes) (suffix temporary : String) :
    Offline (publishResult env d data suffix temporary) := by
  unfold publishResult
  refine offline_bind (offline_raiseUnless _ _) fun _ => offline_bind (offline_raiseUnless _ _) fun _ => ?_
  refine offline_bind (offline_spoolStep _) fun _ => offline_bind (offline_tryFinally ?_ (offline_spoolStep _)) fun _ =>
    fun _ => ⟨rfl, rfl⟩
  exact offline_bind (offline_spoolStep _) fun _ => offline_bind (offline_spoolStep _) fun _ => offline_spoolStep _

theorem offline_ofExcept (r : Except Error α) : Offline (Repo.ofExcept r) := by
  cases r <;> exact fun _ => ⟨rfl, rfl⟩

theorem offline_readSpool : Offline readSpool := fun _ => ⟨rfl, rfl⟩

/-! ### Readings and commits -/

/-- **What follows a reading of the clock starts at it.** -/
theorem Links.clocked {f : Time → Method α}
    (h : ∀ w, Links env c w (f (w.now env) w).2) : Keeps (Links env c) (readClock env >>= f) := by
  intro w
  have hi : Link env c w { w with reads := w.reads + 1 } := .idle rfl (Nat.le_succ _)
  exact .trans (.single hi) (h { w with reads := w.reads + 1 })

/-- **A transaction commits its body or leaves the database alone.** -/
theorem Links.committedAt {body : Body α} {w : World}
    (h : ∀ d', Commits body w.db d' → Commit env (w.now env) w.db d' c) : Links env c w (transaction body w).2 := by
  have hreads : (transaction body w).2.reads = w.reads := by
    unfold transaction
    split
    · rfl
    · rename_i a d _
      rcases durable_cases (fun w => (.ok a, { w with db := d })) w with h | ⟨n, h⟩ <;> rw [h]
  rcases transaction_db body w with hd | hd
  · exact .single (.idle hd hreads.ge)
  · exact .single (.commit (h _ hd) hreads)

theorem Links.committed {body : Body α} (h : ∀ d d' now, Commits body d d' → Commit env now d d' c) :
    Keeps (Links env c) (transaction body) := fun _ => Links.committedAt (fun _ => h _ _ _)

theorem Links.answered {m : Method α} (h : Keeps (Links env c) m) : Keeps (Links env c) (answered m) :=
  Links.bind h fun _ => Links.pure ()

/-- Most calls: read the clock, commit one body. -/
theorem Links.clockedCommit {body : Time → Body α} (h : ∀ d d' now, Commits (body now) d d' → Commit env now d d' c) :
    Keeps (Links env c) (readClock env >>= fun now => transaction (body now)) :=
  Links.clocked fun _ => Links.committedAt (fun _ => h _ _ _)

theorem raiseUnless_bind {p : Prop} [Decidable p] {e : Error} {f : Unit → Method α} :
    (raiseUnless p e >>= f) = if p then f () else throw e := by
  unfold raiseUnless
  split
  · exact pure_bind () f
  · rfl

theorem Links.raiseUnless {p : Prop} [Decidable p] {e : Error} {f : Unit → Method α}
    (h : p → Keeps (Links env c) (f ())) : Keeps (Links env c) (raiseUnless p e >>= f) := by
  rw [raiseUnless_bind]
  split
  · rename_i hp
    exact h hp
  · exact Links.throw e

end

/-! ## Every call -/

section
variable {env : Env} {c : Call}

theorem links_expireLeases (h : ∀ d d' now, Commits (expireBody env now) d d' → Commit env now d d' c) :
    Keeps (Links env c) (expireLeases env) := Links.clockedCommit h

theorem links_readClocks : ∀ n, Keeps (Links env c) (readClocks env n)
  | 0 => Links.pure []
  | n + 1 => Links.clocked fun w => (Links.bind (links_readClocks n) fun _ => Links.pure _) w

theorem links_leaseNextCompatible (r : LeaseRequest) (duration : Time) (i : OpaqueId)
    (h : ∀ d d' now, 0 < duration → Commits (leaseNextBody env r duration i now) d d' → Commit env now d d' c) :
    Keeps (Links env c) (leaseNextCompatible env r duration i) := by
  refine Links.raiseUnless fun hd => Links.clocked fun w => Links.bind_at (Links.committedAt fun d' => h _ _ _ hd) ?_
  intro answer
  split
  · exact Links.pure _
  · exact Links.pure _
  · split
    · exact Links.pure _
    · exact Links.throw _

theorem links_createNextGroup (kind : Option Kind) (ids : Nat → OpaqueId) (artifacts : Artifacts)
    (h : ∀ d d' now, Commits (createNextGroupBody env kind ids artifacts now) d d' → Commit env now d d' c) :
    Keeps (Links env c) (createNextGroup env kind ids artifacts) := Links.clockedCommit h

end

/-- **A call is a chain of its commits.** -/
theorem perform_links (env : Env) (c : Call) : Keeps (Links env c) (perform env c) := by
  cases c <;> simp only [perform]
  case initializeRun p => exact Links.raiseUnless fun hp => Links.committed fun _ _ _ h => ⟨hp, h⟩
  case recordPolicy m path onDisk =>
    unfold recordPolicy
    split
    · exact Links.throw _
    · rename_i hp
      exact Links.committed fun _ _ _ h => ⟨_, hp, h⟩
  case recordAndActivatePolicy m path onDisk =>
    unfold recordAndActivatePolicy
    split
    · exact Links.answered (Links.throw _)
    · rename_i hp
      refine Links.answered (Links.clocked fun _ => Links.bind_at (Links.committedAt fun _ h => ⟨_, hp, h⟩) fun _ => ?_)
      exact Links.pure _
  case activatePolicy i artifacts => exact Links.answered (Links.clockedCommit fun _ _ _ h => h)
  case configureScheduler lag p => exact Links.raiseUnless fun _ => Links.clockedCommit fun _ _ _ h => h
  case registerWorker r => exact Links.answered (Links.clockedCommit fun _ _ _ h => h)
  case recordHeartbeat b duration =>
    exact Links.answered (Links.raiseUnless fun _ => Links.clockedCommit fun _ _ _ h => h)
  case validateLeaseRequest r => exact Links.answered (Links.clockedCommit fun _ _ _ h => h)
  case markLeaseRequestNoWork i => exact Links.answered (Links.clockedCommit fun _ _ _ h => h)
  case associateOfferedLease r offered =>
    refine Links.answered (Links.clocked fun _ => ?_)
    exact Links.clockedCommit (c := .associateOfferedLease r offered) (fun _ _ _ h => ⟨_, h⟩) _
  case associateOfferedLeases r offered =>
    unfold associateOfferedLeases
    split
    · exact Links.throw _
    · refine Links.bind (links_readClocks _) fun times => Links.clocked fun _ => ?_
      exact Links.bind_at (Links.committedAt fun _ h => ⟨_, _, times, rfl, h⟩) fun _ => Links.pure _
  case releaseUnofferedLease i => exact Links.clockedCommit fun _ _ _ h => h
  case registerSchedulerSource spec => exact Links.committed fun _ _ _ h => h
  case createNextGroup kind ids artifacts =>
    exact Links.answered (links_createNextGroup kind ids artifacts fun _ _ _ h => h)
  case createGroup as n =>
    refine Links.raiseUnless fun _ => ?_
    split
    · exact Links.throw _
    · rename_i first rest
      refine Links.raiseUnless fun hi => Links.raiseUnless fun hg => Links.raiseUnless fun _ => ?_
      exact Links.committed fun _ _ _ h => ⟨first, rest, rfl, hi, hg, h⟩
  case leaseNextCompatible r duration i =>
    exact Links.answered (links_leaseNextCompatible r duration i fun _ _ _ hd h => ⟨hd, h⟩)
  case leaseOrCreateNextCompatible r duration draws artifacts =>
    refine Links.answered (Links.bind ?_ fun found => ?_)
    · exact links_leaseNextCompatible r duration _ fun _ _ _ hd h => Or.inl ⟨hd, _, h⟩
    split
    · exact Links.pure _
    refine Links.bind (Links.clockedCommit fun _ _ _ h => Or.inr (Or.inl h)) fun can => ?_
    split
    · refine Links.bind (links_createNextGroup none draws.group artifacts fun _ _ _ h => Or.inr (Or.inr h)) fun made => ?_
      split
      · exact Links.pure _
      · exact links_leaseNextCompatible r duration _ fun _ _ _ hd h => Or.inl ⟨hd, _, h⟩
    · exact Links.pure _
  case createLease i worker session l duration =>
    refine Links.answered (Links.raiseUnless fun hd => Links.bind (links_expireLeases fun _ _ _ h => Or.inl h) fun _ => ?_)
    refine Links.clocked fun _ => Links.bind_at (Links.committedAt fun _ h => Or.inr ⟨hd, h⟩) fun answer => ?_
    split
    · exact Links.throw _
    · split
      · exact Links.pure _
      · exact Links.throw _
  case renewLease r =>
    refine Links.answered (Links.raiseUnless fun _ => Links.clocked fun _ => ?_)
    refine Links.bind_at (Links.committedAt fun _ h => h) fun answer => ?_
    split
    · exact Links.pure _
    · split
      · exact Links.pure _
      · exact Links.throw _
  case expireLeases => exact Links.answered (links_expireLeases fun _ _ _ h => h)
  case acceptResult e temporary =>
    refine Links.answered (Links.bind (offline_select _).links fun t => ?_)
    dsimp only
    refine Links.bind (offline_select _).links fun found => ?_
    split
    · exact Links.bind (offline_publishResult _ _ _ _ _).links fun _ => Links.pure _
    · refine Links.clocked fun w => Links.bind (offline_select _).links (fun _ => ?_) w
      refine Links.bind (offline_publishResult _ _ _ _ _).links fun path => ?_
      exact Links.clockedCommit fun _ _ _ h => ⟨_, _, _, h⟩
  case acceptFailure e =>
    refine Links.answered (Links.bind (offline_select _).links fun found => ?_)
    split
    · exact Links.pure _
    · exact Links.clockedCommit fun _ _ _ h => h
  case claimPendingResults n => exact Links.answered (Links.raiseUnless fun _ => Links.committed fun _ _ _ h => h)
  case markResultProcessed i => exact Links.committed fun _ _ _ h => h
  case recordProcessedGroup g => exact Links.clockedCommit fun _ _ _ h => h
  case discardProcessedRollouts ms => exact Links.raiseUnless fun _ => Links.committed fun _ _ _ h => h
  case recordTrainingBatch b => exact Links.raiseUnless fun _ => Links.clockedCommit fun _ _ _ h => h
  case recover artifacts =>
    refine Links.bind offline_readSpool.links fun spool => ?_
    refine Links.bind (Links.each _ fun name => (offline_spoolStep _).links) fun _ => ?_
    refine Links.bind (offline_select _).links fun t => Links.bind offline_readSpool.links fun spool => ?_
    refine Links.bind (offline_ofExcept _).links fun referenced => Links.bind (offline_select _).links fun _ => ?_
    refine Links.bind (Links.each _ fun name => (offline_spoolStep _).links) fun _ => ?_
    refine Links.bind (Links.committed fun _ _ _ h => Or.inl h) fun _ => ?_
    refine Links.bind (links_expireLeases fun _ _ _ h => Or.inr (Or.inl h)) fun _ => ?_
    exact Links.committed fun _ _ _ h => Or.inr (Or.inr h)

/-! ## Runs -/

theorem World.now_mono (env : Env) {w w' : World} (h : w.reads ≤ w'.reads) : w.now env ≤ w'.now env :=
  env.clock_mono (Nat.sub_le_sub_right h 1)

section
variable {env : Env} {I : Time → Db → Prop} {R : Db → Db → Prop}

/-- **What every commit of a call keeps, the call keeps**, at its clock. -/
theorem perform_holds {c : Call} (hmono : ∀ now later d, now ≤ later → I now d → I later d) (hr : ∀ d, R d d)
    (ht : ∀ a b c, R a b → R b c → R a c)
    (hc : ∀ now d d', I now d → Commit env now d d' c → I now d' ∧ R d d')
    {w w' : World} (h : Links env c w w') (hw : I (w.now env) w.db) : I (w'.now env) w'.db ∧ R w.db w'.db := by
  induction h with
  | refl => exact ⟨hw, hr _⟩
  | @tail w₁ w₂ _ hl ih =>
    cases hl with
    | idle hd hreads =>
      rw [hd]
      exact ⟨hmono _ _ _ (World.now_mono env hreads) ih.1, ih.2⟩
    | commit h hreads =>
      obtain ⟨h₁, h₂⟩ := hc _ _ _ ih.1 h
      have hn : w₂.now env = w₁.now env := by rw [World.now, hreads]; rfl
      rw [hn]
      exact ⟨h₁, ht _ _ _ ih.2 h₂⟩

theorem step_holds {s : Step} (hmono : ∀ now later d, now ≤ later → I now d → I later d) (hr : ∀ d, R d d)
    (ht : ∀ a b c, R a b → R b c → R a c)
    (hc : ∀ now d d', I now d → Commit env now d d' s.call → I now d' ∧ R d d') {w : World} (hw : I (w.now env) w.db) :
    I ((s.run env w).now env) (s.run env w).db ∧ R w.db (s.run env w).db := by
  have hl := perform_links env s.call { w with crashAfter := s.crashAfter, torn := s.torn }
  have h := perform_holds hmono hr ht hc hl hw
  exact h

/-- **What every commit keeps, every run keeps**, from any world that has it. -/
theorem runFrom_holds (hmono : ∀ now later d, now ≤ later → I now d → I later d) (hr : ∀ d, R d d)
    (ht : ∀ a b c, R a b → R b c → R a c) : ∀ (steps : List Step) (w : World),
    (∀ s ∈ steps, ∀ now d d', I now d → Commit env now d d' s.call → I now d' ∧ R d d') → I (w.now env) w.db →
    I ((runFrom env w steps).now env) (runFrom env w steps).db ∧ R w.db (runFrom env w steps).db
  | [], w, _, hw => ⟨hw, hr _⟩
  | s :: steps, w, hc, hw => by
    obtain ⟨h₁, h₂⟩ := step_holds hmono hr ht (hc s List.mem_cons_self) hw
    obtain ⟨h₃, h₄⟩ := runFrom_holds hmono hr ht steps (s.run env w)
      (fun s' hs => hc s' (List.mem_cons_of_mem _ hs)) h₁
    exact ⟨h₃, ht _ _ _ h₂ h₄⟩

end

end Aether
