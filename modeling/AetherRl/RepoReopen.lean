import AetherRl.RepoAdmits
import AetherRl.RepoRecovery
/-!
# RepoReopen — the state a recovery leaves

A recovery that is not cut short empties `incoming`, keeps in `results` the files the accepted rows name and no other,
and puts back the claims of the processor that died.  What it does after that moves no file and no acceptance, so it does
not matter how expiry ends.
-/
namespace Aether

open Txn (Keeps Wp Returns returns_bind returns_pure returns_raiseIf method_bind wp_bind wp_pure bind_of_returns)
open Tables Repo

variable {env : Env} {w w' : World} {α β : Type} {now : Time} {d d' : Db}

/-! ## Policies verify -/

/-- A policy's row says what its manifest says. -/
def PolicyRow.Owned (c : Codec) (p : PolicyRow) : Prop :=
  p.manifest.policyId = p.policyId ∧ p.manifest.policyVersion = p.policyVersion ∧
    c.policyManifestDigest p.manifest = p.manifestDigest

theorem owned_append {l l' : List PolicyRow} {m : PolicyManifest} {path : Option String}
    (hl : ∀ p ∈ l, p.Owned env.codec) (he : l' = l ++ [policyRow env m path]) : ∀ p ∈ l', p.Owned env.codec := by
  intro p hp
  rw [he, List.mem_append, List.mem_singleton] at hp
  rcases hp with hp | rfl
  · exact hl p hp
  · exact ⟨rfl, rfl, rfl⟩

theorem owned_recordPolicy {m : PolicyManifest} {path : String} {u : Unit} (hf : ∀ p ∈ d.policies, p.Owned env.codec)
    (h : Returns (recordPolicyInTransaction env m path) d u d') : ∀ p ∈ d'.policies, p.Owned env.codec := by
  rcases returns_recordPolicyInTransaction h with rfl | hpol
  · exact hf
  · exact owned_append hf hpol

/-- **Every policy is recorded from its manifest.** -/
theorem commit_owned {c : Call} (hf : ∀ p ∈ d.policies, p.Owned env.codec) (h : Commit env now d d' c) :
    ∀ p ∈ d'.policies, p.Owned env.codec := by
  by_cases hc : .policies ∈ c.writes
  · cases c
    case initializeRun m =>
      obtain ⟨hm, u, h⟩ := h
      rcases returns_initializeRunBody h with rfl | ⟨_, hpol⟩
      · exact hf
      · exact owned_append hf (hpol hm)
    case recordPolicy =>
      obtain ⟨_, _, _, h⟩ := h
      exact owned_recordPolicy hf h
    case recordAndActivatePolicy =>
      obtain ⟨_, _, _, h⟩ := h
      simp only [recordAndActivateBody, returns_bind] at h
      obtain ⟨_, d₁, h₁, h₂⟩ := h
      exact (returns_activate h₂).2.1 ▸ owned_recordPolicy hf h₁
    all_goals exact absurd hc (by simp only [Call.writes]; decide)
  · have hpol : d'.policies = d.policies := commit_rows h .policies hc
    exact hpol ▸ hf

theorem reached_owned (env : Env) (steps : List Step) : ∀ p ∈ (reached env steps).db.policies, p.Owned env.codec :=
  (runFrom_holds (I := fun _ d => ∀ p ∈ d.policies, p.Owned env.codec) (R := fun _ _ => True) (fun _ _ _ _ h => h)
    (fun _ => trivial) (fun _ _ _ _ _ => trivial) steps World.fresh
    (fun _ _ _ _ _ hf h => ⟨commit_owned hf h, trivial⟩) fun _ hp => absurd hp List.not_mem_nil).1

/-- The policies verify when their artifacts do. -/
theorem policies_verify (env : Env) {artifacts : Artifacts} (hown : ∀ p ∈ d.policies, p.Owned env.codec)
    (hart : ∀ p ∈ d.policies, 0 < p.policyVersion → artifacts p = true) :
    Returns (Txn.forEach (Rows.orderBy (·.policyVersion) (d.policies.filter (fun p => decide (0 < p.policyVersion))))
      (verifyPolicyRow env artifacts)) d () d := by
  refine Txn.returns_forEach_checks fun p hp => ?_
  rw [Rows.mem_orderBy, List.mem_filter, decide_eq_true_eq] at hp
  obtain ⟨hi, hv, hd⟩ := hown p hp.1
  rw [verifyPolicyRow, returns_raiseIf]
  refine ⟨?_, rfl⟩
  simp [hi, hv, hd, hart p hp.1 hp.2]

/-! ## Unlinking -/

/-- A step on the spool of a process that does not die in it. -/
theorem spoolStep_ok {f : Spool → Nat → Except Error Spool} {s : Spool} (hw : w.crashAfter = none)
    (h : f w.spool w.torn = .ok s) : spoolStep f w = (.ok (), { w with spool := s }) := by
  unfold spoolStep durable
  split
  · dsimp only
    rw [h]
  all_goals
    rename_i hc
    rw [hw] at hc
    cases hc

/-- Taking names out one by one. -/
theorem filter_names (n : String) (ns : List String) (files : List (String × Bytes)) :
    (files.filter (fun f => decide (f.1 ≠ n))).filter (fun f => decide (f.1 ∉ ns)) =
      files.filter (fun f => decide (f.1 ∉ n :: ns)) := by
  rw [List.filter_filter]
  refine List.filter_congr fun f _ => ?_
  simp [Bool.and_comm]

theorem each_unlinkTemporary : ∀ (names : List String) {w : World}, w.crashAfter = none →
    Txn.each names unlinkTemporary w =
      (.ok (), { w with spool := { w.spool with incoming := w.spool.incoming.filter (fun f => decide (f.1 ∉ names)) } })
  | [], w, _ => by
    simp only [List.not_mem_nil, not_false_eq_true, decide_true, List.filter_true]
    rfl
  | n :: ns, w, hw => by
    rw [Txn.each, method_bind, unlinkTemporary, spoolStep_ok hw rfl]
    refine (each_unlinkTemporary ns (by exact hw)).trans ?_
    simp only [filter_names]

theorem each_unlinkResult : ∀ (names : List String) {w : World}, w.crashAfter = none →
    Txn.each names unlinkResult w =
      (.ok (), { w with spool := { w.spool with results := w.spool.results.filter (fun f => decide (f.1 ∉ names)) } })
  | [], w, _ => by
    simp only [List.not_mem_nil, not_false_eq_true, decide_true, List.filter_true]
    rfl
  | n :: ns, w, hw => by
    rw [Txn.each, method_bind, unlinkResult, spoolStep_ok hw rfl]
    refine (each_unlinkResult ns (by exact hw)).trans ?_
    simp only [filter_names]

/-! ## The recovered state -/

/-- The names the accepted rows refer to. -/
def Tables.resultNames (t : Tables) : List String := t.results.filterMap (fun r => resolveResult r.artifactPath)

/-- What a recovery leaves of `w`: the files its rows name, and the rows with no claim. -/
structure RecoveredFrom (w w' : World) : Prop where
  incoming : w'.spool.incoming = []
  results : w'.spool.results = w.spool.results.filter (fun f => decide (f.1 ∈ w.db.resultNames))
  rows : w'.db.results = w.db.results.map unclaim

theorem wp_each_nil {f : α → Method Unit} {Q : Unit → World → Prop} {E : Error → World → Prop} :
    Wp (Txn.each [] f) Q E w ↔ Q () w := Iff.rfl

theorem wp_of_eq {m : Method α} {a : α} {Q : α → World → Prop} {E : Error → World → Prop} (h : m w = (.ok a, w'))
    (hq : Q a w') : Wp m Q E w := by
  unfold Wp
  rw [h]
  exact hq

/-- What follows a transaction that keeps the results table is as good as where it stood. -/
theorem recoveredFrom_transaction {w₁ : World} {body : Body α} {S : List Table} (hw : Txn.Writes Db.rows S body)
    (hS : .results ∉ S) (h : RecoveredFrom w w₁) :
    Wp (transaction body) (fun _ => RecoveredFrom w) (fun _ => RecoveredFrom w) w₁ := by
  refine wp_transaction (fun a d n hret => ⟨h.incoming, h.results, ?_⟩) fun _ => h
  exact (hw _ a d hret .results hS).trans h.rows

variable {sent : ResultEnvelope → Prop}

/-- **A recovery that is not cut short reconciles the spool with the accepted rows**, however expiry ends. -/
theorem recover_reconciles (hc : env.codec.Faithful sent) (h : Stored env sent w) (hw : w.crashAfter = none)
    (hown : ∀ p ∈ w.db.policies, p.Owned env.codec) {artifacts : Artifacts}
    (hart : ∀ p ∈ w.db.policies, 0 < p.policyVersion → artifacts p = true) :
    RecoveredFrom w (recover env artifacts w).2 := by
  refine Wp.ended ?_
  simp only [recover, wp_bind]
  show Wp (Txn.each (w.spool.incoming.map Prod.fst) unlinkTemporary) _ _ w
  refine wp_of_eq (each_unlinkTemporary _ hw) ?_
  have hempty : w.spool.incoming.filter (fun f => decide (f.1 ∉ w.spool.incoming.map Prod.fst)) = [] := by
    rw [List.filter_eq_nil_iff]
    intro f hf
    simp [List.mem_map_of_mem hf]
  rw [hempty]
  refine (wp_select _).2 ⟨fun t d ht => ?_, fun err he => by cases he⟩
  rw [returns_tables] at ht
  obtain ⟨rfl, rfl⟩ := ht
  show Wp (Repo.ofExcept (w.db.results.mapM (verifyResultRow env { w.spool with incoming := [] }))) _ _ _
  have hverify : ∀ r ∈ w.db.results, ∃ name, verifyResultRow env { w.spool with incoming := [] } r = .ok name := by
    intro r hr
    obtain ⟨e, he, ha, hf⟩ := h.rows r hr
    exact ⟨_, verifyResultRow_stored (w := { w with spool := { w.spool with incoming := [] } }) hc he ha hf⟩
  obtain ⟨referenced, href⟩ := Txn.mapM_exists hverify
  have hnames : ∀ name, name ∈ referenced ↔ name ∈ w.db.resultNames := by
    intro name
    rw [resultNames, List.mem_filterMap]
    constructor
    · intro hmem
      obtain ⟨r, hr, hok⟩ := (Txn.mapM_mem href).1 name hmem
      exact ⟨r, hr, verifyResultRow_ok hok⟩
    · rintro ⟨r, hr, hres⟩
      obtain ⟨name', hmem, hok⟩ := (Txn.mapM_mem href).2 r hr
      rw [verifyResultRow_ok hok, Option.some.injEq] at hres
      exact hres ▸ hmem
  refine wp_ofExcept.2 ⟨fun names hok => ?_, fun err he => by rw [href] at he; cases he⟩
  rw [href, Except.ok.injEq] at hok
  subst hok
  have hpol := policies_verify env (d := w.db) hown hart
  refine (wp_select _).2 ⟨fun _ d _ => ?_, fun err he => by cases hpol.symm.trans he⟩
  refine wp_of_eq (each_unlinkResult _ hw) ?_
  refine wp_of_eq (transaction_ok hw ((returns_exec _ _ ⟨_, schema_setResults w.db.ok fixed_unclaim⟩ ()).2 rfl)) ?_
  rw [Repo.expireLeases, wp_bind, wp_readClock]
  refine (recoveredFrom_transaction (S := reapTables) (writes_expireBody env _ (List.Subset.refl _)) (by decide)
    ⟨rfl, ?_, rfl⟩).imp (fun _ w₁ h₁ => ?_) fun _ _ h₁ => h₁
  · show w.spool.results.filter _ = _
    refine List.filter_congr fun f hf => ?_
    have hfm := List.mem_map_of_mem (f := Prod.fst) hf
    by_cases hin : f.1 ∈ referenced
    · simp [hin, (hnames f.1).1 hin]
    · have hno : f.1 ∉ w.db.resultNames := fun hn => hin ((hnames f.1).2 hn)
      simp [hfm, hin, hno]
  · exact recoveredFrom_transaction (S := [.groups]) (writes_recomputeGroups (by decide)) (by decide) h₁

/-! ## Submitting again -/

/-- The world with a temporary file. -/
def World.writing (w : World) (temporary : String) (data : Bytes) : World :=
  { w with spool := { w.spool with incoming := w.spool.incoming ++ [(temporary, data)] } }

theorem tryFinally_ok {body : Method α} {cleanup : Method Unit} {w₁ w₂ : World} {a : α} (hb : body w = (.ok a, w₁))
    (hc : cleanup w₁ = (.ok (), w₂)) : tryFinally body cleanup w = (.ok a, w₂) := by
  unfold tryFinally
  rw [hb]
  simp only [hc]

theorem bind_ok {x : Method α} {f : α → Method β} {a : α} (h : x w = (.ok a, w')) : (x >>= f) w = f a w' := by
  rw [method_bind, h]

/-- **Publishing what is there changes nothing.** -/
theorem publishResult_again {digest : Digest} {data : Bytes} {suffix temporary : String} (hw : w.crashAfter = none)
    (hd : digestMatches digest = true) (hs : suffix = ".json" ∨ suffix = ".msgpack")
    (hfresh : Spool.read w.spool.incoming temporary = none)
    (hfile : w.result? (hexOf digest ++ suffix) = some data) (hsha : env.codec.sha256 data = digest) :
    publishResult env digest data suffix temporary w = (.ok (resultsPrefix ++ (hexOf digest ++ suffix)), w) := by
  have hread : Spool.read w.spool.results (hexOf digest ++ suffix) = some data := hfile
  have hout : ∀ f ∈ w.spool.incoming, f.1 ≠ temporary := Spool.read_eq_none.1 hfresh
  have hset : ∀ g x, Rows.set Prod.fst temporary g (w.spool.incoming ++ [(temporary, x)]) =
      w.spool.incoming ++ [g (temporary, x)] := by
    intro g x
    have hold : Rows.set Prod.fst temporary g w.spool.incoming = w.spool.incoming := Rows.set_of_not_mem _ hout
    rw [Rows.set] at hold ⊢
    rw [List.map_append, hold]
    simp
  have hcreate : createTemporary temporary w = (.ok (), w.writing temporary []) :=
    spoolStep_ok hw (by rw [hfresh]; rfl)
  have htorn : writeTorn temporary data (w.writing temporary []) = (.ok (), w.writing temporary (data.take w.torn)) := by
    refine (spoolStep_ok (w := w.writing temporary []) hw rfl).trans ?_
    simp only [World.writing, hset]
  have hwhole : writeWhole temporary data (w.writing temporary (data.take w.torn)) =
      (.ok (), w.writing temporary data) := by
    refine (spoolStep_ok (w := w.writing temporary (data.take w.torn)) hw rfl).trans ?_
    simp only [World.writing, hset]
  have hlink : linkResult env digest temporary (hexOf digest ++ suffix) data (w.writing temporary data) =
      (.ok (), w.writing temporary data) := by
    refine spoolStep_ok hw ?_
    simp only [World.writing, hread]
    exact if_pos ⟨trivial, hsha⟩
  have hunlink : unlinkTemporary temporary (w.writing temporary data) = (.ok (), w) := by
    refine (spoolStep_ok (w := w.writing temporary data) hw rfl).trans ?_
    have hkeep : (w.spool.incoming ++ [(temporary, data)]).filter (fun f => decide (f.1 ≠ temporary)) =
        w.spool.incoming := by
      rw [List.filter_append, List.filter_eq_self.2 fun f hf => decide_eq_true (hout f hf)]
      simp
    simp only [World.writing, hkeep]
  unfold publishResult
  rw [raiseUnless_bind, if_pos hd, raiseUnless_bind, if_pos hs, bind_ok hcreate,
    bind_ok (tryFinally_ok ((bind_ok htorn).trans ((bind_ok hwhole).trans hlink)) hunlink)]
  rfl

/-- **The envelope of an accepted row is answered as a duplicate**, and nothing changes. -/
theorem acceptResult_duplicate {r : ResultRow} {e : ResultEnvelope} {temporary : String}
    (hc : env.codec.Faithful sent) (h : Stored env sent w) (he : sent e) (hw : w.crashAfter = none)
    (hr : r ∈ w.db.results) (ha : r.Accepts env.codec e)
    (hf : w.result? (env.codec.resultName e) = some (env.codec.resultEnvelopeBytes e))
    (hfresh : Spool.read w.spool.incoming temporary = none) :
    acceptResult env e temporary w = (.ok ⟨r.assignmentId, r.envelopeDigest, true, true⟩, w) := by
  have hrow : w.db.result? e.assignmentId = some r :=
    (Rows.get_eq_some _ w.db.ok.results.key).2 ⟨hr, ha.assignment⟩
  have hexisting : Returns (existingTerminal e.assignmentId e.leaseId (env.codec.envelopeDigest e)) w.db
      (some ⟨e.assignmentId, env.codec.envelopeDigest e, true, true⟩) w.db := by
    unfold existingTerminal
    simp only [returns_bind, returns_tables]
    refine ⟨_, w.db, ⟨rfl, rfl⟩, ?_⟩
    rw [hrow]
    simp only [returns_bind, returns_raiseIf, returns_pure]
    exact ⟨(), w.db, ⟨by simp [ha.lease, ha.digest], rfl⟩, trivial, rfl⟩
  have hselect : ∀ {β : Type} {body : Body β} {b : β}, Returns body w.db b w.db → select body w = (.ok b, w) := by
    intro β body b hb
    unfold select
    rw [show body w.db = .ok (b, w.db) from hb]
  have htables : select tables w = (.ok w.db.toTables, w) := rfl
  unfold acceptResult
  rw [bind_ok htables, h.encoding e]
  change (select (existingTerminal e.assignmentId e.leaseId (env.codec.envelopeDigest e)) >>= _) w = _
  rw [bind_ok (hselect hexisting)]
  dsimp only
  change (publishResult env (env.codec.envelopeDigest e) (env.codec.resultEnvelopeBytes e) ".msgpack" temporary >>= _) w = _
  rw [bind_ok (publishResult_again hw (hc.digest e he) (Or.inr rfl) hfresh hf rfl)]
  rw [ha.assignment, ha.digest]
  rfl

/-- **Any other envelope of an accepted assignment is rejected**, and nothing changes. -/
theorem acceptResult_conflict {r : ResultRow} {e e' : ResultEnvelope} {temporary : String}
    (hc : env.codec.Faithful sent) (h : Stored env sent w) (hs : sent e) (hs' : sent e') (hr : r ∈ w.db.results)
    (ha : r.Accepts env.codec e) (he : e' ≠ e) (hid : e'.assignmentId = e.assignmentId) :
    acceptResult env e' temporary w =
      (.error (.conflict "assignment already has a different accepted result"), w) := by
  have hrow : w.db.result? e'.assignmentId = some r :=
    (Rows.get_eq_some _ w.db.ok.results.key).2 ⟨hr, ha.assignment.trans hid.symm⟩
  have hdigest : r.envelopeDigest ≠ env.codec.envelopeDigest e' := by
    intro hd
    rw [ha.digest] at hd
    exact he (hc.unique hs hs' hd).symm
  have hexisting : existingTerminal e'.assignmentId e'.leaseId (env.codec.envelopeDigest e') w.db =
      .error (.conflict "assignment already has a different accepted result") := by
    unfold existingTerminal
    rw [bind_of_returns ((returns_tables w.db w.db _).2 ⟨rfl, rfl⟩), hrow]
    dsimp only
    rw [Txn.raiseIf, if_pos (Or.inr hdigest)]
    rfl
  have htables : select tables w = (.ok w.db.toTables, w) := rfl
  unfold acceptResult
  rw [bind_ok htables, h.encoding e']
  change (select (existingTerminal e'.assignmentId e'.leaseId (env.codec.envelopeDigest e')) >>= _) w = _
  rw [method_bind, select, hexisting]

/-! ## A second recovery -/

theorem unclaim_unclaim (r : ResultRow) : unclaim (unclaim r) = unclaim r := by
  by_cases h : r.processingState = .processing <;> simp [unclaim, h]

/-- What a recovered world keeps through another recovery. -/
def Settled (w w' : World) : Prop := w'.spool = w.spool ∧ w'.db.results = w.db.results

theorem settled_transaction {w₁ : World} {body : Body α} (hb : ∀ d a d', d.results = w.db.results →
    Returns body d a d' → d'.results = w.db.results) (h : Settled w w₁) :
    Wp (transaction body) (fun _ => Settled w) (fun _ => Settled w) w₁ :=
  wp_transaction (fun a d _ hret => ⟨h.1, hb _ a d h.2 hret⟩) fun _ => h

/-- **Recovering a recovered world moves no file and no row**, wherever it ends. -/
theorem recover_settled (env : Env) (hin : w.spool.incoming = [])
    (hfiles : ∀ f ∈ w.spool.results, f.1 ∈ w.db.resultNames) (hrows : w.db.results.map unclaim = w.db.results)
    (artifacts : Artifacts) : Settled w (recover env artifacts w).2 := by
  refine Wp.ended ?_
  simp only [recover, wp_bind]
  show Wp (Txn.each (w.spool.incoming.map Prod.fst) unlinkTemporary) _ _ w
  rw [hin, List.map_nil, wp_each_nil]
  have hw : Settled w w := ⟨rfl, rfl⟩
  refine (wp_select _).2 ⟨fun t d ht => ?_, fun err _ => hw⟩
  rw [returns_tables] at ht
  obtain ⟨rfl, rfl⟩ := ht
  show Wp (Repo.ofExcept (w.db.results.mapM (verifyResultRow env w.spool))) _ _ w
  refine wp_ofExcept.2 ⟨fun referenced href => ?_, fun err _ => hw⟩
  refine (wp_select _).2 ⟨fun _ d _ => ?_, fun err _ => hw⟩
  have hnone : (w.spool.results.map Prod.fst).filter (fun name => decide (name ∉ referenced)) = [] := by
    rw [List.filter_eq_nil_iff]
    intro name hname
    obtain ⟨f, hf, rfl⟩ := List.mem_map.1 hname
    obtain ⟨r, hr, hres⟩ := List.mem_filterMap.1 (hfiles f hf)
    obtain ⟨name', hmem, hok⟩ := (Txn.mapM_mem href).2 r hr
    rw [verifyResultRow_ok hok, Option.some.injEq] at hres
    simp [hres ▸ hmem]
  rw [hnone, wp_each_nil]
  refine (settled_transaction (fun d _ d' hd hret => ?_) hw).imp (fun _ w₁ h₁ => ?_) fun _ _ h₁ => h₁
  · rw [returns_exec] at hret
    rw [hret, setResults_results, hd, hrows]
  rw [Repo.expireLeases, wp_bind, wp_readClock]
  replace h₁ : Settled w { w₁ with reads := w₁.reads + 1 } := h₁
  refine (settled_transaction (fun d a d' hd hret => ?_) h₁).imp (fun _ w₂ h₂ => ?_) fun _ _ h₂ => h₂
  · have hkeep := writes_expireBody (S := reapTables) env _ (List.Subset.refl _) d a d' hret .results (by decide)
    exact Eq.trans hkeep hd
  refine settled_transaction (fun d a d' hd hret => ?_) h₂
  have hkeep := writes_recomputeGroups (S := [.groups]) (by decide) d a d' hret .results (by decide)
  exact Eq.trans hkeep hd

/-! ## Every run -/

/-- What a run reaches when it is reopened: the last step is a recovery that is not cut short. -/
def reopened (env : Env) (steps : List Step) (artifacts : Artifacts) : World :=
  reached env (steps ++ [⟨.recover artifacts, none, 0⟩])

/-- **No acceptance is taken back.** -/
theorem runFrom_results (env : Env) (steps : List Step) (w : World) :
    w.db.results.map ResultRow.fixed <+: (runFrom env w steps).db.results.map ResultRow.fixed := by
  refine (runFrom_holds (I := fun _ _ => True)
    (R := fun d d' => d.results.map ResultRow.fixed <+: d'.results.map ResultRow.fixed) (fun _ _ _ _ h => h)
    (fun _ => List.prefix_rfl) (fun _ _ _ => List.IsPrefix.trans) steps w (fun s _ now d d' _ h => ⟨trivial, ?_⟩) trivial).2
  by_cases hc : .fixedResults ∈ s.call.writes
  · cases hcall : s.call <;> rw [hcall] at hc h
    case acceptResult =>
      obtain ⟨digest, path, size, _, h⟩ := h
      rcases returns_acceptResultBody_results h with hres | hres
      · exact hres ▸ List.prefix_rfl
      · rw [hres, List.map_append]
        exact List.prefix_append _ _
    all_goals exact absurd hc (by simp only [Call.writes]; decide)
  · have hsame : d'.results.map ResultRow.fixed = d.results.map ResultRow.fixed := commit_rows h .fixedResults hc
    exact hsame ▸ List.prefix_rfl

/-- **What an accepted row means from then on**: submitting its envelope again is answered as a duplicate, any other of
its assignment is rejected, and neither changes the database or the spool. -/
def Resubmits (env : Env) (known : ResultEnvelope → Prop) (w : World) (r : ResultRow) (e : ResultEnvelope) : Prop :=
  ∀ temporary, Spool.read w.spool.incoming temporary = none →
    acceptResult env e temporary { w with crashAfter := none } =
      (.ok ⟨r.assignmentId, r.envelopeDigest, true, true⟩, { w with crashAfter := none }) ∧
    ∀ e', known e' → e'.assignmentId = r.assignmentId → e' ≠ e → acceptResult env e' temporary w =
      (.error (.conflict "assignment already has a different accepted result"), w)

theorem resubmits_of_stored (hc : env.codec.Faithful sent) (h : Stored env sent w) {r : ResultRow} {e : ResultEnvelope}
    (hr : r.fixed ∈ w.db.results.map ResultRow.fixed) (he : sent e) (ha : r.Accepts env.codec e) :
    Resubmits env sent w r e := by
  intro temporary hfresh
  obtain ⟨row, hrow, hfix⟩ := List.mem_map.1 hr
  have harow := ha.of_fixed hfix
  obtain ⟨e', he', ha', hf⟩ := h.rows row hrow
  rw [← hc.unique he he' (harow.digest.symm.trans ha'.digest)] at hf
  have hid : r.assignmentId = row.assignmentId := (congrArg (·.assignmentId) hfix).symm
  have hdig : r.envelopeDigest = row.envelopeDigest := (congrArg (·.envelopeDigest) hfix).symm
  constructor
  · rw [hid, hdig]
    exact acceptResult_duplicate (w := { w with crashAfter := none }) hc (h.same rfl rfl) he rfl hrow harow hf hfresh
  · intro e'' hs'' he'' hne
    exact acceptResult_conflict hc h he hs'' hrow harow hne (he''.trans ha.assignment)

namespace Sample

def result : ResultEnvelope :=
  ⟨"id-1", 1, "lease-b", "worker", "session", "policy-0", sha256 [1], 5, "{}"⟩

/-- The coordinator that reads its one result back. -/
def readsBack : Env :=
  { Sample.env with codec := { Sample.codec with
      decodeResultEnvelope := fun bytes => if bytes = utf8 "lease-b" then some result else none } }

/-- The result is accepted, and a recovery dies at its first durable step. -/
def accepted : List Step :=
  leased ++ [step (.acceptResult result "t0"), ⟨.recover (fun _ => true), some 0, 0⟩]

end Sample

/-- **Accepted results survive every crash**: whatever a run did and wherever its process died, after the reopening every
accepted row has its file, of its size and digest, and every file is a row's; no acceptance the run had committed at any
point is lost; from then on its envelope is answered as a duplicate and any other is rejected, and another recovery moves
no file and no row. -/
theorem results_survive_crashes (env : Env) (known : ResultEnvelope → Prop) (hc : env.codec.Faithful known)
    (steps : List Step) (hs : ∀ e, Sent steps e → known e) (artifacts : Artifacts)
    (hart : ∀ p ∈ (reached env steps).db.policies, 0 < p.policyVersion → artifacts p = true) :
    (∀ r ∈ (reopened env steps artifacts).db.results, ∃ name data, resolveResult r.artifactPath = some name ∧
      (reopened env steps artifacts).result? name = some data ∧ data.length = r.sizeBytes ∧
      env.codec.sha256 data = r.envelopeDigest) ∧
    (∀ f ∈ (reopened env steps artifacts).spool.results, ∃ r ∈ (reopened env steps artifacts).db.results,
      resolveResult r.artifactPath = some f.1) ∧
    (∀ before, before <+: steps → ∀ r ∈ (reached env before).db.results,
      r.fixed ∈ (reopened env steps artifacts).db.results.map ResultRow.fixed) ∧
    (∀ r ∈ (reopened env steps artifacts).db.results, ∃ e, Sent steps e ∧ r.assignmentId = e.assignmentId ∧
      r.envelopeDigest = env.codec.envelopeDigest e ∧ ∀ more, (∀ e, Sent more e → known e) →
        Resubmits env known (runFrom env (reopened env steps artifacts) more) r e) ∧
    (∀ (again : Step) artifacts', again.call = .recover artifacts' →
      (again.run env (reopened env steps artifacts)).spool = (reopened env steps artifacts).spool ∧
      (again.run env (reopened env steps artifacts)).db.results = (reopened env steps artifacts).db.results) := by
  have hrun : reopened env steps artifacts =
      (recover env artifacts { reached env steps with crashAfter := none, torn := 0 }).2 :=
    runFrom_append env _ steps [⟨.recover artifacts, none, 0⟩]
  have hcs := hc.mono hs
  have hstored : Stored env (Sent steps) { reached env steps with crashAfter := none, torn := 0 } :=
    (reached_stored hcs steps fun _ he => he).same rfl rfl
  have hfrom := recover_reconciles hcs hstored rfl (reached_owned env steps) hart
  have hafter := stored_recover hcs hstored artifacts
  rw [← hrun] at hfrom hafter
  have hnames : (reopened env steps artifacts).db.resultNames = (reached env steps).db.resultNames := by
    rw [resultNames, hfrom.rows, List.filterMap_map, resultNames]
    refine List.filterMap_congr fun r _ => ?_
    rw [Function.comp_apply, show (unclaim r).artifactPath = r.artifactPath from
      congrArg (·.artifactPath) (fixed_unclaim r)]
  have hfiles : ∀ f ∈ (reopened env steps artifacts).spool.results, f.1 ∈ (reopened env steps artifacts).db.resultNames := by
    intro f hf
    rw [hfrom.results, List.mem_filter, decide_eq_true_eq] at hf
    rw [hnames]
    exact hf.2
  refine ⟨fun r hr => ?_, fun f hf => ?_, fun before hb r hr => ?_, fun r hr => ?_, fun again artifacts' hcall => ?_⟩
  · obtain ⟨e, he, ha, hf⟩ := hafter.rows r hr
    exact ⟨_, _, resolveResult_accepted hcs he ha, hf, ha.size.symm, ha.digest.symm⟩
  · obtain ⟨r, hr, hres⟩ := List.mem_filterMap.1 (hfiles f hf)
    exact ⟨r, hr, hres⟩
  · obtain ⟨after, rfl⟩ := hb
    have hgrow := runFrom_results env (after ++ [⟨.recover artifacts, none, 0⟩]) (reached env before)
    have happ : reopened env (before ++ after) artifacts =
        runFrom env (reached env before) (after ++ [⟨.recover artifacts, none, 0⟩]) := by
      rw [reopened, List.append_assoc, reached, runFrom_append]
      rfl
    rw [happ]
    exact hgrow.subset (List.mem_map_of_mem hr)
  · obtain ⟨e, he, ha, _⟩ := hafter.rows r hr
    refine ⟨e, he, ha.assignment, ha.digest, fun more hmore => ?_⟩
    have hlater := reached_stored hc ((steps ++ [⟨.recover artifacts, none, 0⟩]) ++ more) fun e he => by
      obtain ⟨s, hmem, temporary, hcall⟩ := he
      rcases List.mem_append.1 hmem with hmem | hmem
      · rcases List.mem_append.1 hmem with hmem | hmem
        · exact hs e ⟨s, hmem, temporary, hcall⟩
        · rw [List.mem_singleton.1 hmem] at hcall
          cases hcall
      · exact hmore e ⟨s, hmem, temporary, hcall⟩
    rw [reached, runFrom_append] at hlater
    exact resubmits_of_stored hc hlater ((runFrom_results env more _).subset (List.mem_map_of_mem hr)) (hs e he) ha
  · have hsettled := recover_settled env
      (w := { reopened env steps artifacts with crashAfter := again.crashAfter, torn := again.torn }) hfrom.incoming
      hfiles (by
        show (reopened env steps artifacts).db.results.map unclaim = _
        rw [hfrom.rows, List.map_map]
        exact List.map_congr_left fun r _ => unclaim_unclaim r) artifacts'
    have hperform : again.run env (reopened env steps artifacts) = (recover env artifacts'
        { reopened env steps artifacts with crashAfter := again.crashAfter, torn := again.torn }).2 := by
      rw [Step.run, hcall]
      rfl
    rw [hperform]
    exact hsettled

/-- The file of the one accepted result is there after the reopening. -/
theorem sample_result_survives :
    ∃ r ∈ (reopened Sample.readsBack Sample.accepted (fun _ => true)).db.results, ∃ name data,
      resolveResult r.artifactPath = some name ∧
      (reopened Sample.readsBack Sample.accepted (fun _ => true)).result? name = some data ∧
      data.length = r.sizeBytes ∧ Sample.readsBack.codec.sha256 data = r.envelopeDigest := by
  have hfaithful : Sample.readsBack.codec.Faithful (· = Sample.result) := by
    refine ⟨?_, ?_, ?_⟩
    · rintro e e' rfl rfl _
      rfl
    · rintro e rfl
      decide +kernel
    · rintro e rfl
      decide +kernel
  have hsent : ∀ e, Sent Sample.accepted e → e = Sample.result := by
    rintro e ⟨s, hs, temporary, hcall⟩
    simp only [Sample.accepted, Sample.leased, List.map_cons, List.map_nil, Sample.step, List.cons_append,
      List.nil_append, List.mem_cons, List.not_mem_nil, or_false] at hs
    rcases hs with rfl | rfl | rfl | rfl | rfl | rfl | rfl | rfl <;> cases hcall
    rfl
  have hrun : ∃ r, r ∈ (reopened Sample.readsBack Sample.accepted (fun _ => true)).db.results := by
    have hlen : 0 < (reopened Sample.readsBack Sample.accepted (fun _ => true)).db.results.length := by decide +kernel
    exact List.exists_mem_of_length_pos hlen
  obtain ⟨r, hr⟩ := hrun
  exact ⟨r, hr, (results_survive_crashes Sample.readsBack (· = Sample.result) hfaithful Sample.accepted hsent
    (fun _ => true) (fun _ _ _ => rfl)).1 r hr⟩

end Aether
