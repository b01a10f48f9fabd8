import AetherRl.HandoffLineage
/-!
# HandoffRestart — starting again

A trainer that is started finds the active version's checkpoint, and trains on the batches after it, each once and in
order.  A coordinator that is started publishes whatever is left to publish, and what a publication was cut short after
does not stand in the way of the next.
-/
namespace Aether
namespace Handoff

variable {p : Training} {c : Config} {s s' : State p} {models : Nat → p.Model} {last : Nat} {t : Trainer p}
  {d d' : Disk p}

/-! ## A run with one crash -/

namespace Sample

/-- One rank, whose batches are single numbers and whose model remembers them. -/
def training : Training where
  Batch := Nat
  Micro := Nat
  Model := List Nat
  Adapter := List Nat
  Noise := Unit
  decode data := data.head?.map UInt8.toNat
  prepareBatch batch := some [[batch]]
  stamp _ micro := micro
  initial _ := []
  update model grid _ := model ++ grid.flatten
  adapter model := model
  sha256 data := if data = [7] then "seven" else "other"
  policy version _ := if version = 1 then "first" else "later"
  publishes version _ := decide (1 ≤ version)

instance inhabitedNoise : Inhabited training.Noise := ⟨()⟩

theorem keepLast_pos : ∀ k ∈ some 1, 1 ≤ k := by simp

def config : Config := ⟨1, some 1, keepLast_pos, none, 1, rfl⟩

/-- The next operations of the coordinator, and of the trainer. -/
def coordinates (n : Nat) (artifact : Bytes) : List (Event training) := List.replicate n (.coordinator artifact ())
def works (n : Nat) : List (Event training) := List.replicate n (.trainer ())

/-- The coordinator starts a trainer, records a batch and exports it; the trainer is about to train on it. -/
def begun : List (Event training) :=
  .boot :: coordinates 6 [] ++ .recordBatch 1 "seven" :: coordinates 3 [7] ++ works 8

/-- It trains and marks its checkpoint; both go down, and the coordinator starts again. -/
def restarted : List (Event training) := begun ++ works 8 ++ [.halt, .boot]

/-- What is ready is published, and the next trainer has found its run. -/
def resumed : List (Event training) := restarted ++ coordinates 14 [7] ++ works 1

end Sample

/-! ## Trainers that start -/

/-- A trainer that has not loaded its checkpoint yet. -/
def TrainerPhase.starts : TrainerPhase p → Bool
  | .discover | .load => true
  | _ => false

theorem resumeOf_inj {m n : Nat} (h : resumeOf m = resumeOf n) : m = n := by
  rw [resumeOf, resumeOf] at h
  split at h <;> split at h <;> simp_all

theorem TrainerOk.resumeStep (h : TrainerOk c d models last t) (hp : t.phase.starts = true) :
    t.resumeStep = resumeOf last := by
  rw [TrainerOk] at h
  cases hphase : t.phase <;> rw [hphase] at h hp <;> try cases hp
  case discover => exact h.1
  case load => exact h.1

/-- A starting trainer resumes at the active version. -/
def Resumes (s : State p) : Prop :=
  ∀ t ∈ s.trainer, t.phase.starts = true → t.resumeStep = resumeOf s.records.active

theorem Resumes.active {s : State p} (h : Sound c s models last) (hr : Resumes s) (ht : t ∈ s.trainer)
    (hp : t.phase.starts = true) : s.records.active = last :=
  resumeOf_inj ((hr t ht hp).symm.trans ((h.trainer t ht).resumeStep hp))

theorem Sound.coordinatorNext_trainer {artifact : Bytes} {noise : p.Noise} (h : Sound c s models last)
    (hn : s.coordinatorNext c artifact noise = some s') :
    s'.trainer = s.trainer ∨ s.coordinator.phase = .launch ∧ s'.records = s.records := by
  have hco := h.coordinator
  rw [CoordinatorOk] at hco
  rw [State.coordinatorNext] at hn
  cases hp : s.coordinator.phase with
  | down | failed => rw [hp] at hn; cases hn
  | starting publishing =>
    rw [hp] at hn hco
    obtain ⟨⟨s₁, r⟩, hnext, rfl⟩ := Option.map_eq_some_iff.1 hn
    exact Or.inl (published_next h.kept hco.2 hnext).trainer
  | publishing publishing =>
    rw [hp] at hn hco
    obtain ⟨⟨s₁, r⟩, hnext, rfl⟩ := Option.map_eq_some_iff.1 hn
    exact Or.inl (published_next h.kept hco hnext).trainer
  | exporting records | serviceExporting records =>
    rw [hp] at hn hco
    cases records with
    | nil =>
      cases hn
      exact Or.inl rfl
    | cons record records =>
      obtain ⟨s₁, hnext, rfl⟩ := Option.map_eq_some_iff.1 hn
      first
        | exact Or.inl (kept_export h.kept (hco record (List.mem_cons_self ..)) hnext).2.2.2.1
        | exact Or.inl (kept_export h.kept (hco.2.2.2.2 record (List.mem_cons_self ..)) hnext).2.2.2.1
  | launch =>
    rw [hp] at hn
    dsimp only at hn
    split at hn <;> cases hn <;> exact Or.inr ⟨rfl, rfl⟩
  | pruning | runConfig | process | query =>
    rw [hp] at hn
    cases hn
    exact Or.inl rfl

/-- The trainer that comes out of an operation, if any does, is past its start. -/
def Started (o : Outcome p) : Prop := ∀ t ∈ o.2, t.phase.starts = false

theorem started_none : Started (d, none) := fun _ h => by cases h

theorem started_some (h : t.phase.starts = false) : Started (d, some t) := fun _ ht => by
  cases ht
  exact h

theorem started_load : Started (t.load d) := by
  rw [Trainer.load]
  split
  · exact started_some rfl
  · split
    · exact started_none
    · exact started_some rfl

theorem started_poll {o : Outcome p} (hp : t.phase = .wait) (ho : t.poll d = some o) : Started o := by
  rw [Trainer.poll] at ho
  split at ho
  · cases ho
  · split at ho
    · cases ho
      exact started_some (by rw [hp]; rfl)
    · cases ho
      exact started_some rfl

/-- The trainers that start were starting, or are new. -/
theorem next_starts {noise : p.Noise} {o : Outcome p} {t' : Trainer p} (ho : t.next d c noise = some o) (ht' : t' ∈ o.2)
    (hp : t'.phase.starts = true) : t.phase = .discover ∧ t'.resumeStep = t.resumeStep := by
  by_contra hnot
  refine absurd hp (Bool.not_eq_true _ ▸ (?_ : Started o) t' ht')
  rw [Trainer.next] at ho
  cases hphase : t.phase <;> rw [hphase] at ho <;> simp only [Option.some.injEq, reduceCtorEq] at ho <;> try subst ho
  case discover =>
    obtain ⟨resume, _, rfl⟩ := Option.map_eq_some_iff.1 ho
    cases ht'
    exact absurd ⟨hphase, rfl⟩ hnot
  case load => exact started_load
  case wait => exact started_poll hphase ho
  case setup | train | clean => exact started_some rfl
  case receive =>
    obtain ⟨micro, _, rfl⟩ := Option.map_eq_some_iff.1 ho
    exact started_some rfl
  case pack | broadcastFiles | notify | checkpointFiles | markStable =>
    first
      | rw [Trainer.pack] | rw [Trainer.broadcastFiles] | rw [Trainer.notify] | rw [Trainer.checkpointFiles]
      | rw [Trainer.markStable]
    split
    · exact started_none
    · exact started_some rfl
  case send | broadcast | checkpoint | advance =>
    first | rw [Trainer.send] | rw [Trainer.broadcast] | rw [Trainer.checkpoint] | rw [Trainer.advance]
    split
    · exact started_some rfl
    · exact started_some rfl

theorem resumes_next {e : Event p} (h : Sound c s models last) (hr : Resumes s) (hn : State.next c s e = some s') :
    Resumes s' := by
  have hsame : s'.records = s.records → s'.trainer = s.trainer → Resumes s' := fun hrec htr t ht hp => by
    rw [hrec]
    exact hr t (htr ▸ ht) hp
  have hnone : s'.trainer = none → Resumes s' := fun htr t ht => by rw [htr] at ht; cases ht
  cases e with
  | coordinator artifact noise =>
    intro t ht hp
    have h' := h.coordinatorNext hn
    rw [(h'.trainer t ht).resumeStep hp]
    obtain htr | ⟨hlaunch, hrec⟩ := h.coordinatorNext_trainer hn
    · have hactive := hr.active h (htr ▸ ht) hp
      rw [le_antisymm h'.kept.active_le (hactive ▸ (moves_next h hn).active)]
    · have hco := h.coordinator
      rw [CoordinatorOk, hlaunch] at hco
      rw [hrec, hco.2.1]
  | trainer noise =>
    obtain ⟨o, ho, rfl⟩ := Option.map_eq_some_iff.1 hn
    obtain ⟨t, ht, ho⟩ := Option.bind_eq_some_iff.1 ho
    intro t' ht' hp
    obtain ⟨hphase, hresume⟩ := next_starts ho ht' hp
    exact hresume.trans (hr t ht (by rw [hphase]; rfl))
  | tear adapter saved =>
    obtain ⟨d, _, rfl⟩ := Option.map_eq_some_iff.1 hn
    exact hsame rfl rfl
  | recordBatch sizeBytes artifactDigest =>
    rw [State.next] at hn
    split at hn <;> cases hn
    exact fun t ht hp => hr t ht hp
  | removeBroadcast step left | removeCheckpoint step left =>
    rw [State.next] at hn
    split at hn
    · split at hn <;> cases hn
      exact hsame rfl rfl
    · cases hn
  | coordinatorFails | boot =>
    rw [State.next] at hn
    split at hn <;> cases hn <;> exact hsame rfl rfl
  | trainerDies =>
    obtain ⟨t, _, rfl⟩ := Option.map_eq_some_iff.1 hn
    exact hnone rfl
  | halt =>
    cases hn
    exact hnone rfl

theorem resumes_reached [Inhabited p.Noise] (c : Config) (events : List (Event p)) :
    ∃ models last, Sound c (State.reached c events : State p) models last ∧
      Resumes (State.reached c events : State p) := by
  refine Machine.drive_invariant (I := fun s => ∃ models last, Sound c s models last ∧ Resumes s) ?_ events ?_
  · rintro s e s' ⟨models, last, h, hr⟩ hn
    obtain ⟨models', last', _, h'⟩ := sound_next h hn
    exact ⟨models', last', h', resumes_next h hr hn⟩
  · obtain ⟨models, last, h⟩ := sound_reached (p := p) c []
    exact ⟨models, last, h, fun t ht => by cases ht⟩

/-- A trainer's load gives it the model the active version was published from, and the step after that version. -/
structure Loads (s : State p) (t t' : Trainer p) : Prop where
  load : (t.load s.disk).2 = some t'
  progress : t'.progress = s.records.active + 1
  runProgress : t'.runProgress = t'.progress
  checkpoint : 1 ≤ s.records.active →
    s.disk.checkpoints s.records.active = some ⟨some (t'.model, s.records.active), true⟩
  policy : 1 ≤ s.records.active →
    (s.records.active, p.policy s.records.active (p.adapter t'.model)) ∈ s.records.policies

/-- **A trainer that is started never misses its checkpoint**, and begins where the published policies end. -/
theorem restart_loads [Inhabited p.Noise] (c : Config) (events : List (Event p)) :
    ∀ t ∈ (State.reached c events : State p).trainer, t.phase = .load →
      ∃ t', Loads (State.reached c events) t t' := by
  obtain ⟨models, last, h, hr⟩ := resumes_reached c events
  have hk := h.kept
  intro t ht hp
  have hactive := hr.active h ht (by rw [hp]; rfl)
  have hok := h.trainer t ht
  rw [TrainerOk, hp] at hok
  obtain ⟨hresume, _, _, hprogress, _, hrun⟩ := hok
  by_cases hlast : last = 0
  · rw [hlast] at hactive hresume hrun
    have hnone : ¬ 1 ≤ (State.reached c events : State p).records.active := by omega
    have hload : (t.load (State.reached c events).disk).2 = some (t.goes .setup) := by
      rw [Trainer.load, hresume]
      rfl
    exact ⟨_, hload, by rw [hactive]; exact hprogress, hrun.trans hprogress.symm, fun h1 => absurd h1 hnone,
      fun h1 => absurd h1 hnone⟩
  · have h1 := Nat.one_le_iff_ne_zero.2 hlast
    have hc := hk.checkpoints last h1 hk.active_le le_rfl
    have hload : (t.load (State.reached c events).disk).2 =
        some { t with model := models last, progress := last + 1, phase := .setup } := by
      rw [Trainer.load, hresume, resumeOf, if_neg hlast]
      simp only [hc, Option.bind_some]
    refine ⟨_, hload, by rw [hactive], hrun, fun _ => by rw [hactive]; exact hc, fun _ => ?_⟩
    rw [hk.policies, hactive]
    refine List.mem_map.2 ⟨last - 1, List.mem_range.2 (by omega), ?_⟩
    rw [Nat.sub_add_cancel h1]
    rfl

set_option maxRecDepth 4096 in
theorem restart_loads_sample :
    ∃ t', Loads (State.reached Sample.config Sample.resumed) ⟨.load, some 1, [], 1, 2, false, none, 1, 1⟩ t' :=
  restart_loads Sample.config Sample.resumed ⟨.load, some 1, [], 1, 2, false, none, 1, 1⟩ rfl rfl

/-! ## The order of the batches -/

/-- The grid an operation trains on, if it trains. -/
def TrainerPhase.trains : TrainerPhase p → Option (List (List p.Micro))
  | .train microBatches => some microBatches
  | _ => none

/-- The grids the present trainer has trained on, oldest first, after one more event. -/
def trainedOn (s : State p) (h : List (List (List p.Micro))) : Event p → List (List (List p.Micro))
  | .trainer _ => h ++ (s.trainer.bind fun t => t.phase.trains).toList
  | .coordinator _ _ =>
    match s.coordinator.phase with
    | .launch => []
    | _ => h
  | _ => h

/-- One event, and what it adds to the trainer's history. -/
def nextTrained (c : Config) (s : State p × List (List (List p.Micro))) (e : Event p) :
    Option (State p × List (List (List p.Micro))) :=
  (State.next c s.1 e).map fun s' => (s', trainedOn s.1 s.2 e)

/-- The state the events lead to, with the grids its trainer has trained on. -/
def reachedTrained (c : Config) (events : List (Event p)) : State p × List (List (List p.Micro)) :=
  Machine.drive (nextTrained c) (State.start p, []) events

theorem reachedTrained_fst (c : Config) (events : List (Event p)) :
    (reachedTrained c events).1 = State.reached c events := by
  rw [State.reached, reachedTrained, Machine.drive, Machine.drive]
  generalize State.start p = s
  generalize ([] : List (List (List p.Micro))) = h
  induction events generalizing s h with
  | nil => rfl
  | cons e events ih =>
    rw [List.foldl_cons, List.foldl_cons, nextTrained]
    cases State.next c s e with
    | none => exact ih s h
    | some s' => exact ih s' (trainedOn s h e)

/-- The step a trainer resumed after. -/
def Trainer.resumed (t : Trainer p) : Nat := t.resumeStep.getD 0

theorem resumeOf_getD (last : Nat) : (resumeOf last).getD 0 = last := by
  rw [resumeOf]
  split
  · rename_i h
    rw [h]
    rfl
  · rfl

/-- A trainer that has trained `n` times is where `n` steps after its resume step lead. -/
def Trainer.Counts (t : Trainer p) (n : Nat) : Prop :=
  match t.phase with
  | .discover | .load => n = 0
  | .setup | .wait | .pack _ | .send _ _ | .receive | .train _ => t.resumed + n + 1 = t.progress
  | .broadcast | .broadcastFiles | .notify | .clean | .checkpoint | .checkpointFiles | .markStable | .advance =>
    t.resumed + n = t.progress
  | .finished => True

/-- **The step counter moves with the trainings.** -/
theorem counts_next {noise : p.Noise} {o : Outcome p} {t' : Trainer p} {n : Nat}
    (h : Kept c s.records s.published d models last) (ht : TrainerOk c d models last t) (hc : t.Counts n)
    (ho : t.next d c noise = some o) (ht' : t' ∈ o.2) :
    t'.resumeStep = t.resumeStep ∧ t'.Counts (n + t.phase.trains.toList.length) := by
  rw [TrainerOk] at ht
  rw [Trainer.Counts] at hc
  rw [Trainer.next] at ho
  cases hp : t.phase <;> rw [hp] at ho hc ht <;> simp only [Option.some.injEq, reduceCtorEq] at ho <;> try subst ho
  case discover =>
    obtain ⟨resume, _, rfl⟩ := Option.map_eq_some_iff.1 ho
    cases ht'
    exact ⟨rfl, hc⟩
  case load =>
    have hresumed : t.resumed = last := by rw [Trainer.resumed, ht.1, resumeOf_getD]
    rw [Trainer.load, ht.1] at ht'
    by_cases hlast : last = 0
    · rw [resumeOf, if_pos hlast] at ht'
      cases ht'
      refine ⟨rfl, ?_⟩
      change t.resumed + n + 1 = t.progress
      rw [hresumed, hc, hlast, ht.2.2.2.1]
    · rw [resumeOf, if_neg hlast] at ht'
      simp only [h.checkpoints last (Nat.one_le_iff_ne_zero.2 hlast) h.active_le le_rfl, Option.bind_some] at ht'
      cases ht'
      refine ⟨?_, ?_⟩
      · rw [ht.1, resumeOf, if_neg hlast]
      · change last + n + 1 = last + 1
        rw [hc]
  case setup =>
    cases ht'
    exact ⟨rfl, hc⟩
  case wait =>
    rw [Trainer.poll] at ho
    split at ho
    · cases ho
    · split at ho
      · cases ho
        cases ht'
        refine ⟨rfl, ?_⟩
        rw [Trainer.Counts, hp]
        exact hc
      · cases ho
        cases ht'
        exact ⟨rfl, hc⟩
  case pack =>
    rw [Trainer.pack] at ht'
    split at ht' <;> cases ht'
    exact ⟨rfl, hc⟩
  case send =>
    rw [Trainer.send] at ht'
    split at ht' <;> cases ht' <;> exact ⟨rfl, hc⟩
  case receive =>
    obtain ⟨micro, _, rfl⟩ := Option.map_eq_some_iff.1 ho
    cases ht'
    exact ⟨rfl, hc⟩
  case train =>
    cases ht'
    exact ⟨rfl, hc⟩
  case broadcast =>
    rw [Trainer.broadcast] at ht'
    split at ht' <;> cases ht' <;> exact ⟨rfl, hc⟩
  case broadcastFiles =>
    rw [Trainer.broadcastFiles] at ht'
    split at ht' <;> cases ht'
    exact ⟨rfl, hc⟩
  case notify =>
    rw [Trainer.notify] at ht'
    split at ht' <;> cases ht'
    exact ⟨rfl, hc⟩
  case clean =>
    cases ht'
    exact ⟨rfl, hc⟩
  case checkpoint =>
    rw [Trainer.checkpoint] at ht'
    split at ht' <;> cases ht' <;> exact ⟨rfl, hc⟩
  case checkpointFiles =>
    rw [Trainer.checkpointFiles] at ht'
    split at ht' <;> cases ht'
    exact ⟨rfl, hc⟩
  case markStable =>
    rw [Trainer.markStable] at ht'
    split at ht' <;> cases ht'
    exact ⟨rfl, hc⟩
  case advance =>
    rw [Trainer.advance] at ht'
    split at ht'
    · cases ht'
      exact ⟨rfl, trivial⟩
    · cases ht'
      refine ⟨rfl, ?_⟩
      change t.resumed + n + 1 = t.progress + 1
      rw [hc]

/-- What holds of a trainer's history. -/
def Ordered (c : Config) (s : State p) (h : List (List (List p.Micro))) : Prop :=
  ∀ t ∈ s.trainer, t.Counts h.length ∧ ∀ (k : Nat) grid, h[k]? = some grid →
    gridAt c s.disk (t.resumed + k + 1) = some grid

theorem ordered_next {h : List (List (List p.Micro))} {e : Event p} (hs : Sound c s models last) (ho : Ordered c s h)
    (hn : State.next c s e = some s') : Ordered c s' (trainedOn s h e) := by
  have hm := moves_next hs hn
  have hsame : s'.trainer = s.trainer → Ordered c s' h := fun htr t ht => by
    obtain ⟨hc, hg⟩ := ho t (htr ▸ ht)
    exact ⟨hc, fun k grid hk => gridAt_mono (hm.rollouts _) (hg k grid hk)⟩
  have hnone : s'.trainer = none → ∀ h', Ordered c s' h' := fun htr h' t ht => by rw [htr] at ht; cases ht
  cases e with
  | coordinator artifact noise =>
    obtain htr | ⟨hlaunch, _⟩ := hs.coordinatorNext_trainer hn
    · by_cases hlaunch : s.coordinator.phase = .launch
      · have hco := hs.coordinator
        rw [CoordinatorOk, hlaunch] at hco
        exact hnone (htr.trans hco.1) _
      · have hh : trainedOn s h (.coordinator artifact noise) = h := by
          rw [trainedOn]
          split
          · exact absurd ‹_› hlaunch
          · rfl
        rw [hh]
        exact hsame htr
    · have hh : trainedOn s h (.coordinator artifact noise) = [] := by rw [trainedOn, hlaunch]
      rw [hh]
      intro t ht
      rw [State.next, State.coordinatorNext, hlaunch] at hn
      have hco := hs.coordinator
      rw [CoordinatorOk, hlaunch] at hco
      dsimp only at hn
      split at hn
      · cases hn
        rw [State.coordinatorGoes_trainer, hco.1] at ht
        cases ht
      · cases hn
        cases ht
        exact ⟨rfl, fun k grid hk => by cases hk⟩
  | trainer noise =>
    obtain ⟨o, hnext, rfl⟩ := Option.map_eq_some_iff.1 hn
    obtain ⟨t, ht, hnext⟩ := Option.bind_eq_some_iff.1 hnext
    obtain ⟨hc, hg⟩ := ho t ht
    have hok := hs.trainer t ht
    intro t' ht'
    obtain ⟨hresume, hc'⟩ := counts_next hs.kept hok hc hnext ht'
    have hresumed : t'.resumed = t.resumed := by rw [Trainer.resumed, Trainer.resumed, hresume]
    rw [hresumed]
    have hold : ∀ (k : Nat) grid, h[k]? = some grid →
        gridAt c (s.trainerOutcome o).disk (t.resumed + k + 1) = some grid :=
      fun k grid hk => gridAt_mono (hm.rollouts _) (hg k grid hk)
    rw [trainedOn, ht, Option.bind_some]
    refine ⟨by rw [List.length_append]; exact hc', fun k grid hk => ?_⟩
    by_cases hlt : k < h.length
    · rw [List.getElem?_append_left hlt] at hk
      exact hold k grid hk
    · rw [List.getElem?_append_right (Nat.le_of_not_lt hlt)] at hk
      have hmem := List.mem_of_getElem? hk
      rw [Option.mem_toList] at hmem
      have hphase : t.phase = .train grid := by
        cases hp : t.phase <;> rw [hp] at hmem <;> cases hmem
        rfl
      rw [TrainerOk, hphase] at hok
      rw [Trainer.Counts, hphase] at hc
      rw [hphase, TrainerPhase.trains, Option.toList_some, List.getElem?_singleton] at hk
      have hlen : k - h.length < 1 := by
        by_contra hge
        rw [if_neg (by omega)] at hk
        cases hk
      have hstep : t.resumed + k + 1 = last + 1 := by
        have := hok.1.progress
        omega
      rw [hstep]
      exact gridAt_mono (hm.rollouts _) hok.2.2.2.2.2
  | tear adapter saved =>
    obtain ⟨d, _, rfl⟩ := Option.map_eq_some_iff.1 hn
    exact hsame rfl
  | recordBatch sizeBytes artifactDigest =>
    rw [State.next] at hn
    split at hn <;> cases hn
    exact hsame rfl
  | removeBroadcast step left | removeCheckpoint step left =>
    rw [State.next] at hn
    split at hn
    · split at hn <;> cases hn
      exact hsame rfl
    · cases hn
  | coordinatorFails | boot =>
    rw [State.next] at hn
    split at hn <;> cases hn <;> exact hsame rfl
  | trainerDies =>
    obtain ⟨t, _, rfl⟩ := Option.map_eq_some_iff.1 hn
    exact hnone rfl _
  | halt =>
    cases hn
    exact hnone rfl _

/-- What a trainer has trained on is the batches after its resume step, in order, each from a file with the recorded
size and digest; and where it trains on the next, its four other counters agree with `progress.step` on the step. -/
structure InOrder (c : Config) (s : State p) (t : Trainer p) (history : List (List (List p.Micro))) : Prop where
  trained : ∀ (k : Nat) grid, history[k]? = some grid → gridAt c s.disk (t.resumed + k + 1) = some grid
  recorded : ∀ k < history.length, ∃ data r, s.disk.rollouts (t.resumed + k + 1) = some data ∧
    s.records.batches[t.resumed + k]? = some r ∧ r.step = t.resumed + k + 1 ∧ data.length = r.sizeBytes ∧
    p.sha256 data = r.artifactDigest
  progress : ∀ microBatches, t.phase = .train microBatches → t.progress = t.resumed + history.length + 1
  grid : ∀ microBatches, t.phase = .train microBatches → gridAt c s.disk t.progress = some microBatches
  counters : ∀ microBatches, t.phase = .train microBatches → t.runProgress = t.progress + 1 ∧
    t.received = some (t.progress + 1) ∧ t.sent = t.progress + 1 ∧ t.receiving = t.progress + 1
  unpublished : ∀ microBatches, t.phase = .train microBatches → s.records.active < t.progress

/-- **In every run a trainer's history is in order.** -/
theorem ordered_reached [Inhabited p.Noise] (c : Config) (events : List (Event p)) :
    ∃ models last, Sound c (State.reached c events : State p) models last ∧
      Ordered c (State.reached c events) (reachedTrained c events).2 := by
  rw [← reachedTrained_fst]
  refine Machine.drive_invariant
    (I := fun s : State p × List (List (List p.Micro)) => ∃ models last, Sound c s.1 models last ∧ Ordered c s.1 s.2)
    ?_ events ?_
  · rintro ⟨s, h⟩ e ⟨s', h'⟩ ⟨models, last, hs, ho⟩ hn
    obtain ⟨s₁, hnext, heq⟩ := Option.map_eq_some_iff.1 hn
    cases heq
    obtain ⟨models', last', _, hs'⟩ := sound_next hs hnext
    exact ⟨models', last', hs', ordered_next hs ho hnext⟩
  · obtain ⟨models, last, h⟩ := sound_reached (p := p) c []
    exact ⟨models, last, h, fun t ht => by cases ht⟩

/-- **A trainer trains on the batches after its resume step, each once and in order**, whenever their files appeared and
however often its predecessors had trained on them. -/
theorem trains_in_order [Inhabited p.Noise] (c : Config) (events : List (Event p)) :
    ∀ t ∈ (State.reached c events : State p).trainer,
      InOrder c (State.reached c events) t (reachedTrained c events).2 := by
  obtain ⟨models, last, h, ho⟩ := ordered_reached (p := p) c events
  intro t ht
  obtain ⟨hc, hg⟩ := ho t ht
  have hok := h.trainer t ht
  have htrain : ∀ microBatches, t.phase = .train microBatches → t.Taken last ∧ t.sent = last + 2 ∧
      t.receiving = last + 2 ∧ gridAt c (State.reached c events).disk (last + 1) = some microBatches := by
    intro microBatches hp
    rw [TrainerOk, hp] at hok
    obtain ⟨htaken, _, _, hsent, hreceiving, hgrid⟩ := hok
    exact ⟨htaken, hsent, hreceiving, hgrid⟩
  refine ⟨hg, fun k hk => ?_, fun microBatches hp => ?_, fun microBatches hp => ?_, fun microBatches hp => ?_,
    fun microBatches hp => ?_⟩
  · obtain ⟨batch, hbatch, _⟩ := Option.bind_eq_some_iff.1 (hg k _ (List.getElem?_eq_getElem hk))
    obtain ⟨data, hdata, _⟩ := Option.bind_eq_some_iff.1 hbatch
    obtain ⟨r, hr, hstep, hsize, hdigest⟩ := h.kept.recorded hdata
    exact ⟨data, r, hdata, hr, hstep, hsize, hdigest⟩
  · rw [Trainer.Counts, hp] at hc
    exact hc.symm
  · obtain ⟨htaken, _, _, hgrid⟩ := htrain microBatches hp
    rw [htaken.progress]
    exact hgrid
  · obtain ⟨htaken, hsent, hreceiving, _⟩ := htrain microBatches hp
    rw [htaken.progress]
    exact ⟨htaken.runProgress, htaken.received, hsent, hreceiving⟩
  · rw [(htrain microBatches hp).1.progress]
    exact Nat.lt_succ_of_le h.kept.active_le

set_option maxRecDepth 4096 in
theorem trains_in_order_sample :
    InOrder Sample.config (State.reached Sample.config Sample.begun)
      ⟨.train [[(7 : Nat)]], none, [], 1, 2, true, some 2, 2, 2⟩ (reachedTrained Sample.config Sample.begun).2 :=
  trains_in_order Sample.config Sample.begun ⟨.train [[(7 : Nat)]], none, [], 1, 2, true, some 2, 2, 2⟩ rfl

/-! ## Publishing goes on -/

/-- What an operation of a publication needs of `publish_lora_policy`. -/
def Publishing.Goes : Publishing p → Prop
  | .publish version stateDict => p.publishes version stateDict = true
  | _ => True

/-- **No operation of a publication raises**, `publish_lora_policy` and the distribution apart. -/
theorem publishNext_isSome {publishing : Publishing p} (h : Kept c s.records s.published s.disk models last)
    (hp : PublishingOk s models last publishing) : (s.publishNext publishing).isSome = true ↔ publishing.Goes := by
  have taken {x : Option (State p × (Publishing p ⊕ Bool))} (hx : x.isSome = true) : x.isSome = true ↔ True :=
    ⟨fun _ => trivial, fun _ => hx⟩
  cases publishing with
  | look | prune => exact taken rfl
  | publish version stateDict =>
    rw [State.publishNext, Publishing.Goes]
    split
    · rename_i hpublishes
      exact ⟨fun _ => hpublishes, fun _ => rfl⟩
    · rename_i hraises
      exact ⟨fun h => absurd h Bool.false_ne_true, fun h => absurd h hraises⟩
  | broadcast | checkpoint =>
    rw [State.publishNext]
    split <;> exact taken rfl
  | load version =>
    obtain ⟨rfl, hle⟩ := hp
    rw [State.publishNext, h.broadcasts _ (Nat.lt_succ_self _) hle]
    exact taken rfl
  | activate version policy =>
    obtain ⟨rfl, hle, rfl, _⟩ := hp
    obtain ⟨records', hrecords, _⟩ := h.activate hle
    rw [State.publishNext, hrecords]
    exact taken rfl

/-- **A version is published with one adapter only, and publishing never runs into what it did before**: whatever a
publication was cut short after, every operation of the next one succeeds, `publish_lora_policy` and the distribution
where they take the adapter. -/
theorem publishes_again [Inhabited p.Noise] (c : Config) (events : List (Event p)) :
    (∀ q ∈ (State.reached c events : State p).published, ∀ q' ∈ (State.reached c events : State p).published,
      q.1 = q'.1 → q = q') ∧
    ∀ publishing, (State.reached c events : State p).coordinator.phase = .starting publishing ∨
        (State.reached c events : State p).coordinator.phase = .publishing publishing →
      (((State.reached c events : State p).publishNext publishing).isSome = true ↔ publishing.Goes) := by
  obtain ⟨models, last, h⟩ := sound_reached c events
  have hk := h.kept
  refine ⟨fun q hq q' hq' he => ?_, fun publishing hp => ?_⟩
  · obtain ⟨_, _, hd⟩ := hk.published q hq
    obtain ⟨_, _, hd'⟩ := hk.published q' hq'
    exact Prod.ext he (by rw [hd, hd', he])
  · have hco := h.coordinator
    have hok : PublishingOk (State.reached c events : State p) models last publishing := by
      rw [CoordinatorOk] at hco
      obtain hp | hp := hp
      · rw [hp] at hco
        exact hco.2
      · rw [hp] at hco
        exact hco
    exact publishNext_isSome hk hok

/-- How far a publication is from the end of its version. -/
def Publishing.weight : Publishing p → Nat
  | .prune _ => 8
  | .look => 7
  | .broadcast _ => 6
  | .checkpoint _ => 5
  | .load _ => 4
  | .publish _ _ => 3
  | .activate _ _ => 2

/-- `publish_lora_policy` and the distribution take every adapter a training leads to. -/
def Training.Publishes (p : Training) : Prop :=
  ∀ version model, 1 ≤ version → p.publishes version (p.adapter model) = true

/-- The next operation of `start`'s loop ends the loop or comes nearer to its end. -/
theorem starting_step (hpub : p.Publishes) (artifact : Bytes) (noise : p.Noise) {publishing : Publishing p}
    (h : Sound c s models last) (hp : s.coordinator.phase = .starting publishing) :
    ∃ s', State.next c s (.coordinator artifact noise) = some s' ∧ (s'.coordinator.phase = .pruning ∨
      ∃ publishing', s'.coordinator.phase = .starting publishing' ∧
        9 * (last - s'.records.active) + publishing'.weight < 9 * (last - s.records.active) + publishing.weight) := by
  have hco := h.coordinator
  rw [CoordinatorOk, hp] at hco
  have hgoes : publishing.Goes := by
    cases publishing with
    | publish version stateDict =>
      obtain ⟨_, rfl, _, rfl⟩ := hco
      exact hpub _ _ (Nat.le_add_left 1 _)
    | _ => trivial
  obtain ⟨⟨s₁, r⟩, hnext⟩ := Option.isSome_iff_exists.1 ((publishNext_isSome h.kept hco.2).2 hgoes)
  refine ⟨_, by rw [State.next, State.coordinatorNext, hp]; exact Option.map_eq_some_iff.2 ⟨_, hnext, rfl⟩, ?_⟩
  cases publishing with
  | look =>
    cases hnext
    exact Or.inr ⟨_, rfl, Nat.lt_succ_self _⟩
  | broadcast version =>
    rw [State.publishNext] at hnext
    split at hnext <;> cases hnext
    · exact Or.inr ⟨_, rfl, Nat.lt_succ_self _⟩
    · exact Or.inl rfl
  | checkpoint version =>
    rw [State.publishNext] at hnext
    split at hnext <;> cases hnext
    · exact Or.inr ⟨_, rfl, Nat.lt_succ_self _⟩
    · exact Or.inl rfl
  | load version =>
    obtain ⟨stateDict, _, heq⟩ := Option.map_eq_some_iff.1 hnext
    cases heq
    exact Or.inr ⟨_, rfl, Nat.lt_succ_self _⟩
  | publish version stateDict =>
    obtain ⟨_, hnext⟩ := Option.ite_none_right_eq_some.1 hnext
    cases hnext
    exact Or.inr ⟨_, rfl, Nat.lt_succ_self _⟩
  | activate version policy =>
    obtain ⟨_, rfl, hle, rfl, _⟩ := hco
    obtain ⟨records', hrecords, hactive, _⟩ := h.kept.activate hle
    rw [State.publishNext, hrecords] at hnext
    cases hnext
    refine Or.inr ⟨_, rfl, ?_⟩
    rw [State.coordinatorGoes_records]
    dsimp only [Publishing.weight]
    omega
  | prune version =>
    cases hnext
    exact Or.inr ⟨_, rfl, Nat.lt_succ_self _⟩

theorem starting_run (hpub : p.Publishes) (artifact : Bytes) (noise : p.Noise) (n : Nat) :
    ∀ {s : State p} {publishing : Publishing p}, Sound c s models last → s.coordinator.phase = .starting publishing →
    9 * (last - s.records.active) + publishing.weight ≤ n →
    ∃ k, (Machine.drive (State.next c) s (List.replicate k (.coordinator artifact noise))).coordinator.phase =
        .pruning ∧
      Sound c (Machine.drive (State.next c) s (List.replicate k (.coordinator artifact noise))) models last := by
  induction n with
  | zero =>
    intro s publishing _ _ hle
    cases publishing <;> exact absurd hle (Nat.not_succ_le_zero _)
  | succ n ih =>
    intro s publishing h hp hle
    obtain ⟨s', hn, hnext⟩ := starting_step hpub artifact noise h hp
    have h' : Sound c s' models last := h.coordinatorNext hn
    have hdrive : ∀ k, Machine.drive (State.next c) s (List.replicate (k + 1) (.coordinator artifact noise)) =
        Machine.drive (State.next c) s' (List.replicate k (.coordinator artifact noise)) := fun k => by
      rw [List.replicate_succ, Machine.drive, List.foldl_cons, hn]
      rfl
    obtain hpruning | ⟨publishing', hp', hlt⟩ := hnext
    · exact ⟨1, by rw [hdrive]; exact hpruning, by rw [hdrive]; exact h'⟩
    · obtain ⟨k, hk⟩ := ih h' hp' (by omega)
      exact ⟨k + 1, by rw [hdrive]; exact hk⟩

/-- **A start publishes all there is to publish**: wherever the processes were stopped, the coordinator's loop ends, and
then every version whose checkpoint is marked is published and active, so that the trainer it starts next resumes after
the last of them.  `publish_lora_policy` and the distribution are taken not to raise. -/
theorem start_publishes_all [Inhabited p.Noise] (hpub : p.Publishes) (c : Config) (events : List (Event p))
    (artifact : Bytes) (noise : p.Noise) {publishing : Publishing p}
    (hp : (State.reached c events : State p).coordinator.phase = .starting publishing) :
    ∃ k, (State.reached c (events ++ List.replicate k (.coordinator artifact noise)) : State p).coordinator.phase =
        .pruning ∧
      (State.reached c (events ++ List.replicate k (.coordinator artifact noise)) : State p).trainer = none ∧
      ∀ v, ((State.reached c events : State p).disk.checkpoints v).any StepDir.stable = true →
        v ≤ (State.reached c (events ++ List.replicate k (.coordinator artifact noise)) : State p).records.active := by
  obtain ⟨models, last, h⟩ := sound_reached c events
  obtain ⟨k, hphase, h'⟩ := starting_run hpub artifact noise _ h hp le_rfl
  have happend : State.reached c (events ++ List.replicate k (.coordinator artifact noise)) =
      Machine.drive (State.next c) (State.reached c events) (List.replicate k (.coordinator artifact noise)) :=
    Machine.drive_append ..
  rw [← happend] at hphase h'
  have hco := h'.coordinator
  rw [CoordinatorOk, hphase] at hco
  refine ⟨k, hphase, hco.1, fun v hv => ?_⟩
  rw [hco.2]
  exact not_lt.1 fun hlt => by
    obtain ⟨dir, hdir, hs⟩ := stable_of_any hv
    rw [h.kept.unstable v hlt dir hdir] at hs
    cases hs

set_option maxRecDepth 4096 in
theorem start_publishes_all_sample :
    ∃ k, (State.reached Sample.config (Sample.restarted ++ List.replicate k (.coordinator [] ()))).coordinator.phase =
        .pruning ∧
      (State.reached Sample.config (Sample.restarted ++ List.replicate k (.coordinator [] ()))).trainer = none ∧
      ∀ v, ((State.reached Sample.config Sample.restarted).disk.checkpoints v).any StepDir.stable = true →
        v ≤ (State.reached Sample.config (Sample.restarted ++ List.replicate k (.coordinator [] ()))).records.active :=
  start_publishes_all (fun _ _ => decide_eq_true) Sample.config Sample.restarted [] () rfl

end Handoff
end Aether
