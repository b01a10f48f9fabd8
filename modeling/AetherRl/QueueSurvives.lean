import AetherRl.QueueCrash
import AetherRl.RepoReopen
/-!
# QueueSurvives — what crashes cannot do to the training queue

Whatever the processor did, wherever it was killed, and whatever was asked of the repository in between: a start goes
through and leaves the recorded artifacts alone in the queue; a processor stops with its process, for a constraint of the
schema, for want of the active policy, or for the group or the number of rollouts it is given; and an artifact once recorded
stays, with what it holds.
-/
namespace Aether

deriving instance DecidableEq for BehaviorSample, ProcessedRolloutPayload, ProcessedGroupPayload

namespace Sample

open Queue Repo

def sample : TrainingSample Nat where
  tokenIds := [1, 2]
  mask := [false, true]
  logprobs := [0, 0]
  temperatures := [1, 1]
  envName := "source"
  refLogprobs := none
  mmKwargs := none
  routedExperts := none
  mmTokenTypeIds := none
  rlWeights := none
  ceWeights := none
  refKlWeights := none
  advantages := some [1, 1]

def processing (group : ReadyGroup) : Processing Nat group where
  inputBytes := [1]
  loaded := .ok ()
  records := .ok []
  survivors := .ok (group.outcomes.map fun o => ⟨o, [sample], false⟩)
  of_group := by
    rintro _ ⟨⟩
    simp

def payload : ProcessedGroupPayload Nat where
  groupId := "id-0"
  sourceId := "source"
  kind := .train
  policyId := (manifest 0 none).policyId
  policyVersion := 0
  inputDigest := sha256 [1]
  rollouts := [⟨[stamp codec (manifest 0 none) sample], 2⟩]
  evaluationRecords := []
  policyDigest := codec.policyManifestDigest (manifest 0 none)
  adapterDigest := none

/-- A processor that reads its one payload back. -/
def processor : Processor Nat where
  env := env
  sources := [⟨source.sourceId, source.environment, true⟩]
  unique_sources := by simp
  batchSize := some 1
  tokenBatchSize := none
  one_size := by simp
  batch_pos := by simp
  token_pos := by simp
  encodeGroup x := 0 :: utf8 x.groupId
  decodeGroup _ := some payload
  encodeBatch _ n := 1 :: List.replicate n.toNat 1
  uuid n := String.ofList (List.replicate n 'a')

/-- The group's one result is accepted. -/
def answered : List Step :=
  [.initializeRun (manifest 0 none), .configureScheduler 1 0, .registerWorker worker, .registerSchedulerSource source,
    .validateLeaseRequest request, .leaseOrCreateNextCompatible request 60 draws (fun _ => true),
    .acceptResult { result with requestedPolicyId := (manifest 0 none).policyId } "t0"].map step

/-- The processor dies once the group's artifact is linked, before the temporary file goes. -/
def torn : List (Event Nat) := answered.map .call ++ [.start, .process ⟨some 4, 0⟩ (fun _ => true) processing]

/-- The group's turn, with its process alive to the end. -/
def turn : Event Nat := .process ⟨none, 0⟩ (fun _ => true) processing

def whole : List (Event Nat) := [.start, turn]

theorem hexDigit_matches (n : Nat) :
    ('0' ≤ hexDigit n ∧ hexDigit n ≤ '9') ∨ ('a' ≤ hexDigit n ∧ hexDigit n ≤ 'f') := by
  have hall : "0123456789abcdef".toList.all (fun c => decide (('0' ≤ c ∧ c ≤ '9') ∨ ('a' ≤ c ∧ c ≤ 'f'))) = true := by
    decide
  unfold hexDigit
  rw [List.getD_eq_getElem?_getD]
  cases h : "0123456789abcdef".toList[n]? with
  | none => decide
  | some c => exact of_decide_eq_true (List.all_eq_true.1 hall c (List.mem_of_getElem? h))

theorem digestMatches_sha256 (data : Bytes) : digestMatches (sha256 data) = true := by
  have hchars : ∀ c ∈ data.flatMap (fun b => [hexDigit (b.toNat / 16), hexDigit (b.toNat % 16)]) ++
      List.replicate 64 '0', ('0' ≤ c ∧ c ≤ '9') ∨ ('a' ≤ c ∧ c ≤ 'f') := by
    intro c hc
    rw [List.mem_append] at hc
    rcases hc with hc | hc
    · obtain ⟨b, _, hb⟩ := List.mem_flatMap.1 hc
      simp only [List.mem_cons, List.not_mem_nil, or_false] at hb
      rcases hb with rfl | rfl <;> exact hexDigit_matches _
    · rw [(List.mem_replicate.1 hc).2]
      decide
  have hlist : (sha256 data).toList = "sha256:".toList ++ (data.flatMap (fun b =>
      [hexDigit (b.toNat / 16), hexDigit (b.toNat % 16)]) ++ List.replicate 64 '0').take 64 := by
    simp only [sha256, String.toList_append, String.toList_ofList]
  have hprefix : "sha256:".toList.length = 7 := by decide
  unfold digestMatches digestShape
  rw [← String.length_toList, hlist, ← hprefix, List.take_left, List.drop_left]
  simp only [Bool.and_eq_true, decide_eq_true_eq, List.all_eq_true]
  refine ⟨⟨?_, trivial⟩, fun c hc => hchars c (List.mem_of_mem_take hc)⟩
  rw [List.length_append, hprefix, List.length_take, List.length_append, List.length_replicate]
  omega

theorem processor_faithful {events : List (Event Nat)} (h : ∀ x ∈ attempted processor events, x = payload) :
    Faithful processor (attempted processor events) where
  digest := digestMatches_sha256
  collision x hx y hy _ := by rw [h x hx, h y hy]
  decode x hx := by
    rw [h x hx]
    rfl
  uuid i j he := by
    have hlen := congrArg List.length (String.ofList_injective he)
    rwa [List.length_replicate, List.length_replicate] at hlen

/-- The processor dies once the batch is linked; the next one emits it, and another is started. -/
def emitted : List (Event Nat) :=
  [.emit ⟨some 4, 0⟩ (fun _ => true), .start, .emit ⟨none, 0⟩ (fun _ => true), .dies, .start]

theorem events_valid : ∀ e ∈ torn ++ whole ++ emitted, e.Valid processor.env.codec := by
  have hbase : (manifest 0 none).Valid codec := manifest_valid (by decide)
  have hcalls : ∀ e ∈ answered.map (@Event.call Nat), e.Valid processor.env.codec := by
    simp only [answered, List.map_cons, List.map_nil, List.forall_mem_cons, Event.Valid, step, Call.manifests,
      List.not_mem_nil, false_implies, implies_true, and_true]
    exact hbase
  have hrest : ∀ e ∈ [.start, .process ⟨some 4, 0⟩ (fun _ => true) processing] ++ whole ++ emitted,
      e.Valid processor.env.codec := by
    simp only [whole, turn, emitted, List.cons_append, List.nil_append, List.forall_mem_cons, Event.Valid, List.not_mem_nil,
      false_implies, implies_true, and_true]
  intro e he
  rw [torn, List.append_assoc, List.append_assoc, List.mem_append] at he
  exact he.elim (hcalls e) fun he => hrest e (by rwa [List.append_assoc])

/-- What the run does, evaluated at once. -/
theorem run_facts :
    (∀ x ∈ attempted processor (torn ++ whole ++ emitted), x = payload) ∧
      (Queue.reached processor torn).store.queue.incoming ≠ [] ∧
      (readyGroups 1 (Queue.reached processor (torn ++ [.start])).store.world).1.toOption.map List.length = some 1 ∧
      ((Queue.reached processor (torn ++ [.start])).turn processor turn).map
        (fun out => decide (out.1 = .ok ())) = some true ∧
      (Queue.reached processor (torn ++ whole)).store.world.db.processedGroups ≠ [] ∧
      (Queue.reached processor (torn ++ whole ++ emitted)).store.queue.batches ≠ [] := by
  decide +kernel

/-- What a part of the run is given. -/
theorem events_given (events more : List (Event Nat)) (h : events ++ more = torn ++ whole ++ emitted) :
    (∀ e ∈ events, e.Valid processor.env.codec) ∧ Faithful processor (attempted processor events) := by
  refine ⟨fun e he => events_valid e (h ▸ List.mem_append_left _ he), processor_faithful fun x hx => run_facts.1 x ?_⟩
  rw [← h, attempted_append]
  exact List.mem_append_left _ hx

end Sample

namespace Queue

open Repo

variable {F : Type}

/-- **Recovery is exact**: wherever the processor or an earlier start died, the next start goes through; the database is
as it was, no temporary file is left, the queue holds the files of the recorded artifacts and nothing else, and each of
them is what was recorded. -/
theorem recovery_exact (p : Processor F) (events : List (Event F)) (hv : ∀ e ∈ events, e.Valid p.env.codec)
    (hf : Faithful p (attempted p events)) :
    let s := (reached p events).store
    ∃ s', recover p.env.codec s = (.ok (), s') ∧ s'.world = s.world ∧ s'.queue.incoming = [] ∧
      (∀ path, s'.queue.read path = if path ∈ referenced s.world.db.toTables then s.queue.read path else none) ∧
      ∀ r ∈ artifactRecords s.world.db.toTables,
        ∃ data, verify p.env.codec s'.queue r.artifactPath r.artifactDigest r.sizeBytes = .ok data := by
  intro s
  have h : Consistent p (attempted p events) (reached p events).alive s := reached_kept hv hf
  exact ⟨recovered s, h.recover, rfl, rfl, recovered_read s, h.recovered.1.verifies⟩

theorem recovery_exact_sample :
    (Queue.reached Sample.processor Sample.torn).store.queue.incoming ≠ [] ∧
      ∃ s', recover Sample.codec (Queue.reached Sample.processor Sample.torn).store = (.ok (), s') ∧
        s'.queue.incoming = [] := by
  obtain ⟨hv, hf⟩ := Sample.events_given Sample.torn (Sample.whole ++ Sample.emitted) rfl
  obtain ⟨s', hs, _, hnil, _⟩ := recovery_exact Sample.processor Sample.torn hv hf
  exact ⟨Sample.run_facts.2.1, s', hs, hnil⟩

/-! ## What a processor stops for -/

/-- **An artifact once recorded stays**: over any further run, crashes and starts included, no record is lost and each
one's file reads what it read; the artifact of a processed group is a payload made for that group, stamped with a policy
that is recorded; and while a processor runs there is no batch file without its record. -/
theorem recorded_stays (p : Processor F) (events more : List (Event F))
    (hv : ∀ e ∈ events ++ more, e.Valid p.env.codec) (hf : Faithful p (attempted p (events ++ more))) :
    let s := (reached p events).store
    let s' := (reached p (events ++ more)).store
    s.world.db.toTables.Records s'.world.db.toTables ∧
      (∀ r ∈ artifactRecords s.world.db.toTables, r ∈ artifactRecords s'.world.db.toTables ∧
        ∃ data, verify p.env.codec s.queue r.artifactPath r.artifactDigest r.sizeBytes = .ok data ∧
          verify p.env.codec s'.queue r.artifactPath r.artifactDigest r.sizeBytes = .ok data) ∧
      (∀ g ∈ s.world.db.processedGroups, ∃ x ∈ attempted p events, x.groupId = g.groupId ∧
        s.queue.read g.artifactPath = some (p.encodeGroup x) ∧
        ∃ policy ∈ s.world.db.policies, StampedWith policy x) ∧
      ((reached p events).alive = true →
        ∀ f ∈ s.queue.batches, ∃ b ∈ s.world.db.batches, b.artifactPath = f.1) := by
  intro s s'
  have hsub : attempted p events ⊆ attempted p (events ++ more) := by
    rw [attempted_append]
    exact List.subset_append_left _ _
  have h : Kept p (attempted p events) (reached p events) :=
    reached_kept (fun e he => hv e (List.mem_append_left _ he)) (hf.mono hsub)
  have hm : Moves s s' := (reached_goes_on hv hf).2
  refine ⟨hm.records, fun r hr => ⟨artifactRecords_subset hm.records hr, ?_⟩, fun g hg => ?_, fun ha f hf => ?_⟩
  · obtain ⟨data, hdata⟩ := Consistent.verifies h r hr
    refine ⟨data, hdata, ?_⟩
    rw [verify, hm.files r hr]
    exact hdata
  · obtain ⟨x, hx, hart⟩ := Consistent.groups h g hg
    exact ⟨x, hx, hart.group, hart.read, hart.stamped⟩
  · exact List.mem_map.1 (Consistent.live h ha f hf)

theorem recorded_stays_sample :
    (Queue.reached Sample.processor (Sample.torn ++ Sample.whole)).store.world.db.processedGroups ≠ [] ∧
      (Queue.reached Sample.processor (Sample.torn ++ Sample.whole ++ Sample.emitted)).store.queue.batches ≠ [] ∧
      ∀ r ∈ artifactRecords (Queue.reached Sample.processor (Sample.torn ++ Sample.whole)).store.world.db.toTables,
        ∃ data, verify Sample.codec
          (Queue.reached Sample.processor (Sample.torn ++ Sample.whole ++ Sample.emitted)).store.queue r.artifactPath
          r.artifactDigest r.sizeBytes = .ok data := by
  obtain ⟨hv, hf⟩ := Sample.events_given (Sample.torn ++ Sample.whole ++ Sample.emitted) [] (List.append_nil _)
  obtain ⟨_, hstays, _⟩ := recorded_stays Sample.processor (Sample.torn ++ Sample.whole) Sample.emitted hv hf
  obtain ⟨_, _, _, _, hgroups, hbatches⟩ := Sample.run_facts
  refine ⟨hgroups, hbatches, fun r hr => ?_⟩
  obtain ⟨_, data, _, hdata⟩ := hstays r hr
  exact ⟨data, hdata⟩

end Queue
end Aether
