import Mathlib.Data.List.Induction
import AetherRl.RepoSpool
import AetherRl.RepoPolicies
/-!
# RepoRecovery — accepted results survive every crash

`Stored` is what every run keeps of the two stores: each accepted row has its file, with the bytes of the envelope a
call of the run sent.  The file is linked before its row is committed, recovery unlinks only what no row names, and
nothing else touches the results directory.
-/
namespace Aether

open Txn (Keeps Wp Returns returns_bind returns_pure method_bind wp_bind wp_pure)
open Tables Repo

variable {env : Env} {w w' : World} {α β : Type}

/-! ## Calls that leave the spool alone -/

/-- The method does not touch the spool. -/
abbrev Dry (m : Method α) : Prop := Keeps (fun w w' => w'.spool = w.spool) m

theorem dry_pure (a : α) : Dry (pure a : Method α) := fun _ => rfl

theorem dry_throw (e : Error) : Dry (throw e : Method α) := fun _ => rfl

theorem dry_bind {x : Method α} {f : α → Method β} (hx : Dry x) (hf : ∀ a, Dry (f a)) : Dry (x >>= f) :=
  Keeps.bind (fun _ _ _ h₁ h₂ => h₂.trans h₁) hx hf

theorem dry_raiseUnless (p : Prop) [Decidable p] (e : Error) : Dry (raiseUnless p e) := by
  unfold raiseUnless
  split
  · exact dry_pure ()
  · exact dry_throw e

theorem dry_readClock (env : Env) : Dry (readClock env) := fun _ => rfl

theorem dry_readClocks (env : Env) : ∀ n, Dry (readClocks env n)
  | 0 => dry_pure []
  | n + 1 => dry_bind (dry_readClock env) fun _ => dry_bind (dry_readClocks env n) fun _ => dry_pure _

theorem dry_transaction (body : Body α) : Dry (transaction body) := by
  intro w
  unfold transaction
  cases hb : body w.db with
  | error e => rfl
  | ok p =>
    obtain ⟨a, d⟩ := p
    simp only
    rcases durable_cases (fun w => (.ok a, { w with db := d })) w with h | ⟨n, h⟩ <;> rw [h]

theorem dry_clocked {f : Time → Body α} : Dry (readClock env >>= fun now => transaction (f now)) :=
  dry_bind (dry_readClock env) fun _ => dry_transaction _

theorem dry_answered {m : Method α} (h : Dry m) : Dry (answered m) := dry_bind h fun _ => dry_pure ()

theorem dry_select (body : Body α) : Dry (select body) := by
  intro w
  unfold select
  split <;> rfl

theorem dry_leaseNextCompatible (r : LeaseRequest) (duration : Time) (i : OpaqueId) :
    Dry (leaseNextCompatible env r duration i) := by
  refine dry_bind (dry_raiseUnless _ _) fun _ => dry_bind (dry_readClock env) fun _ => ?_
  refine dry_bind (dry_transaction _) fun answer => ?_
  split
  · exact dry_pure _
  · exact dry_pure _
  · split
    · exact dry_pure _
    · exact dry_throw _

/-- The calls that write files. -/
def Call.writesFiles : Call → Bool
  | .acceptResult _ _ | .recover _ => true
  | _ => false

/-- **Only results and recovery touch the spool.** -/
theorem perform_dry (env : Env) {c : Call} (hc : c.writesFiles = false) : Dry (perform env c) := by
  cases c <;> simp only [Call.writesFiles, Bool.true_eq_false] at hc <;> simp only [perform]
  case initializeRun => exact dry_bind (dry_raiseUnless _ _) fun _ => dry_transaction _
  case recordPolicy =>
    unfold recordPolicy
    split
    · exact dry_throw _
    · exact dry_transaction _
  case recordAndActivatePolicy =>
    unfold recordAndActivatePolicy
    split
    · exact dry_answered (dry_throw _)
    · exact dry_answered (dry_bind (dry_readClock env) fun _ => dry_bind (dry_transaction _) fun _ => dry_pure _)
  case createGroup as n =>
    refine dry_bind (dry_raiseUnless _ _) fun _ => ?_
    split
    · exact dry_throw _
    · refine dry_bind (dry_raiseUnless _ _) fun _ => dry_bind (dry_raiseUnless _ _) fun _ => ?_
      exact dry_bind (dry_raiseUnless _ _) fun _ => dry_transaction _
  case associateOfferedLease =>
    exact dry_answered (dry_bind (dry_readClock env) fun _ => dry_clocked)
  case associateOfferedLeases =>
    unfold associateOfferedLeases
    split
    · exact dry_throw _
    · refine dry_bind (dry_readClocks env _) fun _ => dry_bind (dry_readClock env) fun _ => ?_
      exact dry_bind (dry_transaction _) fun _ => dry_pure _
  case leaseNextCompatible => exact dry_answered (dry_leaseNextCompatible _ _ _)
  case leaseOrCreateNextCompatible =>
    refine dry_answered (dry_bind (dry_leaseNextCompatible _ _ _) fun found => ?_)
    split
    · exact dry_pure _
    refine dry_bind dry_clocked fun can => ?_
    split
    · refine dry_bind dry_clocked fun made => ?_
      split
      · exact dry_pure _
      · exact dry_leaseNextCompatible _ _ _
    · exact dry_pure _
  case createLease =>
    refine dry_answered (dry_bind (dry_raiseUnless _ _) fun _ => dry_bind dry_clocked fun _ => ?_)
    refine dry_bind (dry_readClock env) fun _ => dry_bind (dry_transaction _) fun answer => ?_
    split
    · exact dry_throw _
    · split
      · exact dry_pure _
      · exact dry_throw _
  case renewLease =>
    refine dry_answered (dry_bind (dry_raiseUnless _ _) fun _ => dry_bind (dry_readClock env) fun _ => ?_)
    refine dry_bind (dry_transaction _) fun answer => ?_
    split
    · exact dry_pure _
    · split
      · exact dry_pure _
      · exact dry_throw _
  case acceptFailure =>
    refine dry_answered (dry_bind (dry_select _) fun found => ?_)
    split
    · exact dry_pure _
    · exact dry_clocked
  case configureScheduler => exact dry_bind (dry_raiseUnless _ _) fun _ => dry_clocked
  case recordHeartbeat => exact dry_answered (dry_bind (dry_raiseUnless _ _) fun _ => dry_clocked)
  case claimPendingResults => exact dry_answered (dry_bind (dry_raiseUnless _ _) fun _ => dry_transaction _)
  case discardProcessedRollouts => exact dry_bind (dry_raiseUnless _ _) fun _ => dry_transaction _
  case recordTrainingBatch => exact dry_bind (dry_raiseUnless _ _) fun _ => dry_clocked
  case releaseUnofferedLease | recordProcessedGroup => exact dry_clocked
  case registerSchedulerSource | markResultProcessed => exact dry_transaction _
  all_goals exact dry_answered dry_clocked

/-! ## What the two stores hold -/

def Codec.envelopeDigest (c : Codec) (e : ResultEnvelope) : Digest := c.sha256 (c.resultEnvelopeBytes e)

/-- The name of an envelope's file. -/
def Codec.resultName (c : Codec) (e : ResultEnvelope) : String := hexOf (c.envelopeDigest e) ++ ".msgpack"

/-- What the code relies on of SHA-256 and of the encoding, for the envelopes that are `known`: no collision, a digest of
the usual text, and an encoding that reads back. -/
structure Codec.Faithful (c : Codec) (known : ResultEnvelope → Prop) : Prop where
  collision : ∀ e e', known e → known e' → c.envelopeDigest e = c.envelopeDigest e' →
    c.resultEnvelopeBytes e = c.resultEnvelopeBytes e'
  digest : ∀ e, known e → digestMatches (c.envelopeDigest e) = true
  decode : ∀ e, known e → c.decodeResultEnvelope (c.resultEnvelopeBytes e) = some e

/-- The row is an acceptance of `e`. -/
structure ResultRow.Accepts (c : Codec) (r : ResultRow) (e : ResultEnvelope) : Prop where
  assignment : r.assignmentId = e.assignmentId
  lease : r.leaseId = e.leaseId
  digest : r.envelopeDigest = c.envelopeDigest e
  size : r.sizeBytes = (c.resultEnvelopeBytes e).length
  path : r.artifactPath = resultsPrefix ++ c.resultName e

/-- **Every accepted row is of an envelope that was sent**, and its file has the envelope's bytes; no file has others. -/
structure Stored (env : Env) (sent : ResultEnvelope → Prop) (w : World) : Prop where
  rows : ∀ r ∈ w.db.results, ∃ e, sent e ∧ r.Accepts env.codec e ∧
    w.result? (env.codec.resultName e) = some (env.codec.resultEnvelopeBytes e)
  files : ∀ f ∈ w.spool.results, ∃ e, sent e ∧ f.2 = env.codec.resultEnvelopeBytes e

theorem ResultRow.Accepts.of_fixed {c : Codec} {r r' : ResultRow} {e : ResultEnvelope} (h : r.Accepts c e)
    (hf : r'.fixed = r.fixed) : r'.Accepts c e :=
  ⟨(congrArg (·.assignmentId) hf).trans h.assignment, (congrArg (·.leaseId) hf).trans h.lease,
    (congrArg (·.envelopeDigest) hf).trans h.digest, (congrArg (·.sizeBytes) hf).trans h.size,
    (congrArg (·.artifactPath) hf).trans h.path⟩

variable {sent sent' : ResultEnvelope → Prop}

theorem Codec.Faithful.mono {c : Codec} (h : c.Faithful sent') (hs : ∀ e, sent e → sent' e) : c.Faithful sent :=
  ⟨fun e e' he he' => h.collision e e' (hs e he) (hs e' he'), fun e he => h.digest e (hs e he),
    fun e he => h.decode e (hs e he)⟩

/-- **Envelopes of one digest are one.** -/
theorem Codec.Faithful.unique {c : Codec} (h : c.Faithful sent) {e e' : ResultEnvelope} (he : sent e) (he' : sent e')
    (hd : c.envelopeDigest e = c.envelopeDigest e') : e = e' := by
  have hread := congrArg c.decodeResultEnvelope (h.collision e e' he he' hd)
  rw [h.decode e he, h.decode e' he'] at hread
  exact Option.some.inj hread

theorem Stored.mono (h : Stored env sent w) (hs : ∀ e, sent e → sent' e) : Stored env sent' w := by
  refine ⟨fun r hr => ?_, fun f hf => ?_⟩
  · obtain ⟨e, he, ha, hf⟩ := h.rows r hr
    exact ⟨e, hs e he, ha, hf⟩
  · obtain ⟨e, he, hd⟩ := h.files f hf
    exact ⟨e, hs e he, hd⟩

/-- **The same acceptances, every file kept, and new ones only of envelopes that were sent.** -/
theorem Stored.kept (h : Stored env sent w) (hr : w'.db.results.map ResultRow.fixed = w.db.results.map ResultRow.fixed)
    (hf : w.FilesKept w') (hn : ∀ f ∈ w'.spool.results, f ∈ w.spool.results ∨
      ∃ e, sent e ∧ f.2 = env.codec.resultEnvelopeBytes e) : Stored env sent w' := by
  refine ⟨fun r' hr' => ?_, fun f hfm => (hn f hfm).elim (h.files f) id⟩
  have hm : r'.fixed ∈ w.db.results.map ResultRow.fixed := hr ▸ List.mem_map_of_mem hr'
  obtain ⟨r, hmem, he⟩ := List.mem_map.1 hm
  obtain ⟨e, hs, ha, hd⟩ := h.rows r hmem
  exact ⟨e, hs, ha.of_fixed he.symm, hf _ _ hd⟩

/-- The same acceptances and the same files. -/
theorem Stored.same (h : Stored env sent w) (hr : w'.db.results.map ResultRow.fixed = w.db.results.map ResultRow.fixed)
    (hf : w'.spool.results = w.spool.results) : Stored env sent w' :=
  h.kept hr (.of_results hf) fun _ hfm => Or.inl (hf ▸ hfm)

/-! ## Names -/

theorem endsWith_json (s : String) : endsWith (s ++ ".msgpack") ".json" = false := by
  rw [endsWith, String.toList_append, Bool.eq_false_iff, Ne, List.isSuffixOf_iff_suffix]
  intro h
  have hk : (s.toList ++ ".msgpack".toList).getLast? = some 'k' := by simp
  have hn : (s.toList ++ ".msgpack".toList).getLast? = some 'n' := by
    obtain ⟨p, hp⟩ := h
    rw [← hp]
    simp
  rw [hk] at hn
  cases hn

/-- **The path of an accepted row names its file.** -/
theorem resolveResult_path {d : Digest} (hd : digestMatches d = true) :
    resolveResult (resultsPrefix ++ (hexOf d ++ ".msgpack")) = some (hexOf d ++ ".msgpack") := by
  have hslash : '/' ∉ (hexOf d ++ ".msgpack").toList := by
    rw [String.toList_append, List.mem_append, not_or]
    refine ⟨fun h => ?_, by decide⟩
    rw [hexOf, String.toList_ofList] at h
    rw [digestMatches, Bool.and_eq_true, List.all_eq_true] at hd
    have hc := hd.2 '/' h
    revert hc
    decide
  have hne : (hexOf d ++ ".msgpack").toList ≠ [] := by
    rw [String.toList_append]
    exact List.append_ne_nil_of_right_ne_nil _ (by decide)
  unfold resolveResult
  rw [String.toList_append, List.drop_left' (by rfl)]
  simp only [List.isPrefixOf_iff_prefix, List.prefix_append, true_and]
  rw [if_pos ⟨hslash, hne⟩, String.ofList_toList]

/-! ## Accepting -/

/-- Every row is of the current encoding, so an envelope is encoded as it. -/
theorem Stored.encoding (h : Stored env sent w) (e : ResultEnvelope) :
    resultEncoding env w.db.toTables e = (env.codec.resultEnvelopeBytes e, ".msgpack") := by
  unfold resultEncoding
  rw [if_neg]
  rw [Option.any_eq_true]
  rintro ⟨r, hr, hjson⟩
  obtain ⟨e', _, ha, _⟩ := h.rows r (Rows.mem_of_get _ hr)
  rw [ha.path, Codec.resultName, ← String.append_assoc, endsWith_json] at hjson
  cases hjson

/-- **What an acceptance adds**: nothing, or the row of its envelope. -/
theorem returns_acceptResultBody_results {e : ResultEnvelope} {digest : Digest} {path : String} {size : Nat} {now : Time}
    {d d' : Db} {r : AcceptanceRecord} (h : Returns (acceptResultBody e digest path size now) d r d') :
    d'.results = d.results ∨ d'.results = d.results ++ [acceptedRow e digest path size now] := by
  rcases returns_acceptResultBody h with ⟨rfl, _⟩ | ⟨_, _, a, d₁, _, _, ht, hg⟩
  · exact Or.inl rfl
  · have hsame : d'.results = d₁.results :=
      writes_recomputeGroup (S := [.groups]) a.groupId (by decide) d₁ () d' hg .results (by decide)
    exact Or.inr (by rw [hsame, ht]; rfl)

theorem wp_keeping {m : Method α} {Q : α → World → Prop} {E : Error → World → Prop} {R : World → World → Prop}
    (h : Wp m Q E w) (hk : Keeps R m) :
    Wp m (fun a w' => Q a w' ∧ R w w') (fun e w' => E e w' ∧ R w w') w := by
  have hr := hk w
  unfold Wp at *
  split at h <;> rename_i hw <;> rw [hw] at hr <;> exact ⟨h, hr⟩

/-- **An acceptance keeps the stores in step**: the file is there before its row is. -/
theorem stored_acceptResult (hc : env.codec.Faithful sent) (h : Stored env sent w) {e : ResultEnvelope} (he : sent e)
    (temporary : String) : Stored env sent (acceptResult env e temporary w).2 := by
  refine Wp.ended ?_
  simp only [acceptResult, wp_bind]
  refine (wp_select _).2 ⟨fun t d ht => ?_, fun err _ => h⟩
  rw [returns_tables] at ht
  obtain ⟨rfl, rfl⟩ := ht
  rw [h.encoding e]
  dsimp only
  refine (wp_select _).2 ⟨fun found d _ => ?_, fun err _ => h⟩
  -- what a publication of the envelope leaves, from any world of these rows and files
  have hpub : ∀ w₁ : World, Stored env sent w₁ → Wp
      (publishResult env (env.codec.envelopeDigest e) (env.codec.resultEnvelopeBytes e) ".msgpack" temporary)
      (fun path w' => path = resultsPrefix ++ env.codec.resultName e ∧ Stored env sent w' ∧
        w'.result? (env.codec.resultName e) = some (env.codec.resultEnvelopeBytes e))
      (fun _ w' => Stored env sent w') w₁ := by
    intro w₁ h₁
    have hdb := wp_keeping (wp_publishResult env (env.codec.envelopeDigest e) (env.codec.resultEnvelopeBytes e) ".msgpack"
      temporary w₁) (offline_publishResult env _ _ _ _)
    have hstored : ∀ {w' : World}, w₁.Publishes (env.codec.resultEnvelopeBytes e) w' → w'.db = w₁.db → Stored env sent w' :=
      fun hp hd => h₁.kept (by rw [hd]) hp.kept fun f hf => (hp.new f hf).imp id fun hb => ⟨e, he, hb⟩
    refine hdb.imp (fun path w' hw => ?_) fun _ w' hw => hstored hw.1 hw.2.1
    obtain ⟨⟨hp, hpath, stored, hfile, hsame⟩, hd, _⟩ := hw
    refine ⟨hpath, hstored hp hd, hfile.trans (congrArg some ?_)⟩
    rcases hsame with hsame | hsame
    · exact hsame
    · have hmem : ∃ f ∈ w'.spool.results, f.2 = stored := by
        obtain ⟨f, hf, hfs⟩ := Option.map_eq_some_iff.1 (show Spool.read w'.spool.results _ = some stored from hfile)
        exact ⟨f, Rows.mem_of_get _ hf, hfs⟩
      obtain ⟨f, hf, rfl⟩ := hmem
      obtain ⟨e', he', hb⟩ := (hstored hp hd).files f hf
      rw [hb] at hsame ⊢
      exact hc.collision e' e he' he hsame
  cases found with
  | some duplicate =>
    rw [wp_bind]
    exact (hpub w h).imp (fun _ w' hw => hw.2.1) fun _ w' hw => hw
  | none =>
    simp only [wp_bind, wp_readClock]
    have hread : Stored env sent { w with reads := w.reads + 1 } := h.same rfl rfl
    refine (wp_select _).2 ⟨fun a d _ => ?_, fun err _ => hread⟩
    refine (hpub _ hread).imp (fun path w' hw => ?_) fun _ w' hw => hw
    obtain ⟨rfl, hstored, hfile⟩ := hw
    refine wp_transaction (fun r d n hret => ?_) fun err => hstored.same rfl rfl
    rcases returns_acceptResultBody_results hret with hres | hres
    · exact hstored.same (by rw [show _ = w'.db.results from hres]) rfl
    · refine ⟨fun row hrow => ?_, hstored.files⟩
      replace hrow : row ∈ d.results := hrow
      rw [hres, List.mem_append, List.mem_singleton] at hrow
      rcases hrow with hrow | rfl
      · exact hstored.rows row hrow
      · exact ⟨e, he, ⟨rfl, rfl, rfl, rfl, rfl⟩, hfile⟩

/-! ## Recovering -/

/-- **A loop keeps what each of its turns keeps**, and raises what a turn does. -/
theorem wp_each {f : α → Method Unit} {I : World → Prop} {E : Error → World → Prop} : ∀ {l : List α} {w : World},
    (∀ a ∈ l, ∀ w, I w → Wp (f a) (fun _ => I) E w) → I w → Wp (Txn.each l f) (fun _ => I) E w
  | [], _, _, hw => hw
  | a :: l, w, h, hw => by
    rw [Txn.each, wp_bind]
    refine (h a List.mem_cons_self w hw).imp (fun _ w' hw' => ?_) fun _ _ hw' => hw'
    exact wp_each (fun b hb => h b (List.mem_cons_of_mem _ hb)) hw'

theorem wp_ofExcept {r : Except Error α} {Q : α → World → Prop} {E : Error → World → Prop} :
    Wp (Repo.ofExcept r) Q E w ↔ (∀ a, r = .ok a → Q a w) ∧ ∀ e, r = .error e → E e w := by
  cases r <;> simp [Repo.ofExcept]

theorem resolveResult_accepted {r : ResultRow} {e : ResultEnvelope} (hc : env.codec.Faithful sent) (he : sent e)
    (ha : r.Accepts env.codec e) : resolveResult r.artifactPath = some (env.codec.resultName e) := by
  rw [ha.path]
  exact resolveResult_path (hc.digest e he)

/-- A row verifies to the name of its file. -/
theorem verifyResultRow_ok {s : Spool} {r : ResultRow} {name : String} (h : verifyResultRow env s r = .ok name) :
    resolveResult r.artifactPath = some name := by
  unfold verifyResultRow at h
  split at h
  · cases h
  · rename_i name' hname
    split at h
    · cases h
    · split at h
      · cases h
      · split at h
        · cases h
        · split at h
          · cases h
          · rw [hname, Except.ok.inj h]

/-- **The row of a stored envelope verifies.** -/
theorem verifyResultRow_stored {r : ResultRow} {e : ResultEnvelope} (hc : env.codec.Faithful sent) (he : sent e)
    (ha : r.Accepts env.codec e) (hf : w.result? (env.codec.resultName e) = some (env.codec.resultEnvelopeBytes e)) :
    verifyResultRow env w.spool r = .ok (env.codec.resultName e) := by
  have hname : endsWith (env.codec.resultName e) ".json" = false := endsWith_json _
  unfold verifyResultRow
  rw [resolveResult_accepted hc he ha]
  simp only
  rw [show Spool.read w.spool.results _ = some _ from hf]
  simp only
  rw [if_neg (by simp [ha.size, ha.digest, Codec.envelopeDigest]), hname]
  simp only [Bool.false_eq_true, if_false, hc.decode e he]
  rw [if_neg (by simp [ha.assignment, ha.lease])]

theorem stored_transaction {body : Body α} (hb : ∀ d a d', Returns body d a d' →
    d'.results.map ResultRow.fixed = d.results.map ResultRow.fixed) (h : Stored env sent w) :
    Wp (transaction body) (fun _ => Stored env sent) (fun _ => Stored env sent) w :=
  wp_transaction (fun a d _ hret => h.same (hb _ a d hret) rfl) fun _ => h

theorem fixed_of_writes {body : Body α} {S : List Table} (hw : Txn.Writes Db.rows S body) (hS : .fixedResults ∉ S)
    {d d' : Db} {a : α} (h : Returns body d a d') : d'.results.map ResultRow.fixed = d.results.map ResultRow.fixed :=
  hw d a d' h .fixedResults hS

/-- **Unlinking a name no row's path resolves to** keeps the stores in step. -/
theorem stored_unlinkResult {name : String} (hc : env.codec.Faithful sent) (h : Stored env sent w)
    (hno : ∀ r ∈ w.db.results, resolveResult r.artifactPath ≠ some name) :
    Wp (unlinkResult name) (fun _ w' => Stored env sent w' ∧ w'.db = w.db)
      (fun _ w' => Stored env sent w' ∧ w'.db = w.db) w := by
  refine wp_spoolStep (fun s n hs => ⟨⟨fun r hr => ?_, fun f hf => ?_⟩, rfl⟩) fun _ n => ⟨h.same rfl rfl, rfl⟩
  · obtain ⟨e, he, ha, hf⟩ := h.rows r hr
    refine ⟨e, he, ha, ?_⟩
    show Spool.read s.results _ = _
    rw [← Except.ok.inj hs]
    have hp : decide (env.codec.resultName e ≠ name) = true :=
      decide_eq_true fun hne => hno r hr (hne ▸ resolveResult_accepted hc he ha)
    exact (Spool.read_filter (p := fun n => decide (n ≠ name)) hp).trans hf
  · replace hf : f ∈ s.results := hf
    rw [← Except.ok.inj hs] at hf
    exact h.files f (List.mem_of_mem_filter hf)

/-- **Recovery keeps the stores in step**, wherever it ends. -/
theorem stored_recover (hc : env.codec.Faithful sent) (h : Stored env sent w) (artifacts : Artifacts) :
    Stored env sent (recover env artifacts w).2 := by
  refine Wp.ended ?_
  simp only [recover, wp_bind]
  show Wp (Txn.each (w.spool.incoming.map Prod.fst) unlinkTemporary) _ _ w
  refine (wp_each (I := Stored env sent) (E := fun _ => Stored env sent) (fun name _ w' hw' => ?_) h).imp (fun _ w₁ h₁ => ?_) fun _ _ h₁ => h₁
  · refine wp_spoolStep (fun s n hs => hw'.same rfl ?_) fun _ n => hw'.same rfl rfl
    rw [← Except.ok.inj hs]
  refine (wp_select _).2 ⟨fun t d ht => ?_, fun err _ => h₁⟩
  rw [returns_tables] at ht
  obtain ⟨rfl, rfl⟩ := ht
  show Wp (Repo.ofExcept (w₁.db.results.mapM (verifyResultRow env w₁.spool))) _ _ w₁
  refine wp_ofExcept.2 ⟨fun referenced href => ?_, fun err _ => h₁⟩
  refine (wp_select _).2 ⟨fun _ d _ => ?_, fun err _ => h₁⟩
  refine (wp_each (I := fun w' => Stored env sent w' ∧ w'.db = w₁.db) (E := fun _ w' => Stored env sent w' ∧ w'.db = w₁.db)
    (fun name hname w' hw' => ?_) ⟨h₁, rfl⟩).imp (fun _ w₂ h₂ => ?_) fun _ _ h₂ => h₂.1
  · have hout : name ∉ referenced := by
      have hf := (List.mem_filter.1 hname).2
      simpa using hf
    refine (stored_unlinkResult hc hw'.1 fun r hr hres => ?_).imp (fun _ w'' hw'' => ⟨hw''.1, hw''.2.trans hw'.2⟩)
      fun _ w'' hw'' => ⟨hw''.1, hw''.2.trans hw'.2⟩
    obtain ⟨name', hmem, hok⟩ := (Txn.mapM_mem href).2 r (hw'.2 ▸ hr)
    rw [verifyResultRow_ok hok, Option.some.injEq] at hres
    exact hout (hres ▸ hmem)
  refine (stored_transaction (fun d _ d' hret => ?_) h₂.1).imp (fun _ w₃ h₃ => ?_) fun _ _ h₃ => h₃
  · exact fixed_of_writes (S := [.results]) (writes_setResults _ (by decide) fixed_unclaim) (by decide) hret
  rw [Repo.expireLeases, wp_bind, wp_readClock]
  replace h₃ : Stored env sent { w₃ with reads := w₃.reads + 1 } := h₃.same rfl rfl
  refine (stored_transaction (fun d _ d' hret => ?_) h₃).imp (fun _ w₄ h₄ => ?_) fun _ _ h₄ => h₄
  · exact fixed_of_writes (S := reapTables) (writes_expireBody env _ (List.Subset.refl _)) (by decide) hret
  refine stored_transaction (fun d _ d' hret => ?_) h₄
  exact fixed_of_writes (S := [.groups]) (writes_recomputeGroups (by decide)) (by decide) hret

/-! ## Every run -/

/-- The envelopes a run sent. -/
def Sent (steps : List Step) (e : ResultEnvelope) : Prop := ∃ s ∈ steps, ∃ temporary, s.call = .acceptResult e temporary

/-- **A step keeps the stores in step.** -/
theorem stored_step (hc : env.codec.Faithful sent) (h : Stored env sent w) (s : Step)
    (hs : ∀ e temporary, s.call = .acceptResult e temporary → sent e) : Stored env sent (s.run env w) := by
  have h' : Stored env sent { w with crashAfter := s.crashAfter, torn := s.torn } := h.same rfl rfl
  by_cases hf : s.call.writesFiles = false
  · have hspool := perform_dry env hf { w with crashAfter := s.crashAfter, torn := s.torn }
    have hrows : ∀ k ∉ s.call.writes, (s.run env w).db.rows k = w.db.rows k := fun k hk =>
      (perform_holds (I := fun _ _ => True) (R := fun d d' => d'.rows k = d.rows k) (fun _ _ _ _ h => h) (fun _ => rfl)
        (fun _ _ _ h₁ h₂ => h₂.trans h₁) (fun _ _ _ _ h => ⟨trivial, commit_rows h k hk⟩)
        (perform_links env s.call { w with crashAfter := s.crashAfter, torn := s.torn }) trivial).2
    refine h.same (hrows .fixedResults ?_) (congrArg Spool.results hspool)
    revert hf
    cases s.call <;> simp only [Call.writesFiles, Bool.true_eq_false, Call.writes] <;> decide
  · unfold Step.run
    cases hcall : s.call <;> rw [hcall] at hf <;> try exact absurd rfl hf
    case acceptResult e temporary =>
      have ha := stored_acceptResult hc h' (hs e temporary hcall) temporary
      rw [← answered_snd] at ha
      exact ha
    case recover artifacts => exact stored_recover hc h' artifacts

/-- **Every reached world is in step.** -/
theorem reached_stored (hc : env.codec.Faithful sent) (steps : List Step) (hs : ∀ e, Sent steps e → sent e) :
    Stored env sent (reached env steps) := by
  induction steps using List.reverseRecOn with
  | nil => exact ⟨fun r hr => absurd hr List.not_mem_nil, fun f hf => absurd hf List.not_mem_nil⟩
  | append_singleton steps s ih =>
    have hrun : reached env (steps ++ [s]) = s.run env (reached env steps) := runFrom_append env _ steps [s]
    rw [hrun]
    refine stored_step hc (ih fun e ⟨s', hs', h⟩ => hs e ⟨s', List.mem_append_left _ hs', h⟩) s fun e temporary hcall => ?_
    exact hs e ⟨s, by simp, temporary, hcall⟩

end Aether
