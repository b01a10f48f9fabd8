import AetherRl.HandoffRestart
/-!
# HandoffAlignment — the steps of a trainer, its batches and its adapters

However often trainers are started, each takes the batch files of the steps after the one it resumes at, in their order,
waits for the next however late it appears, and writes under a step the adapter of the batches up to that step.
-/
namespace Aether
namespace Handoff

variable {p : Training} {c : Config} {s s' : State p} {models : Nat → p.Model} {last : Nat} {t : Trainer p}
  {d d' : Disk p}

/-- The models that a run's first weights become by one step of training on each batch file up to a step, in order. -/
inductive TrainedUpTo (c : Config) (d : Disk p) : Nat → p.Model → Prop
  | initial (noise : p.Noise) : TrainedUpTo c d 0 (p.initial noise)
  | step {v : Nat} {m m' : p.Model} (h : TrainedUpTo c d v m) (ht : Trains c d (v + 1) m m') : TrainedUpTo c d (v + 1) m'

theorem Kept.trainedUpTo {records : Records} {published : List (Nat × Digest)}
    (h : Kept c records published d models last) : ∀ {v : Nat}, v ≤ last → TrainedUpTo c d v (models v)
  | 0, _ => by
    obtain ⟨noise, hnoise⟩ := h.initial
    exact hnoise ▸ .initial noise
  | v + 1, hv => .step (h.trainedUpTo (Nat.le_of_succ_le hv)) (h.lineage v hv)

/-- **An operation of a trainer writes an adapter only in `broadcastFiles`**, that of its model under the step it is at. -/
theorem broadcast_next {noise : p.Noise} {o : Outcome p} (ht : TrainerOk c d models last t)
    (ho : t.next d c noise = some o) (v : Nat) :
    (o.1.broadcasts v).bind StepDir.content = (d.broadcasts v).bind StepDir.content ∨
      t.phase = .broadcastFiles ∧ v = last + 1 ∧ (o.1.broadcasts v).bind StepDir.content = some (p.adapter t.model) := by
  have hw := writes_next ht ho
  by_cases hv : v = last + 1
  swap
  · rw [hw.broadcasts v hv]
    exact .inl rfl
  subst hv
  rw [TrainerOk] at ht
  rw [Trainer.next] at ho
  cases hp : t.phase <;> rw [hp] at ho ht <;> simp only [Option.some.injEq, reduceCtorEq] at ho <;> try subst ho
  case broadcast =>
    refine .inl ?_
    rw [Trainer.broadcast, if_pos ht.2, ht.1.step, Disk.setBroadcast_broadcasts, Function.update_self]
    cases d.broadcasts (last + 1) <;> rfl
  case broadcastFiles =>
    refine .inr ⟨rfl, rfl, ?_⟩
    obtain ⟨dir, hdir⟩ := Option.isSome_iff_exists.1 ht.2.2
    rw [Trainer.broadcastFiles, ht.1.step, hdir]
    dsimp only
    rw [Disk.setBroadcast_broadcasts, Function.update_self]
    rfl
  case notify =>
    refine .inl ?_
    obtain ⟨htrained, _, stable, hdir⟩ := ht
    rw [Trainer.notify, htrained.step, hdir]
    dsimp only
    rw [Disk.setBroadcast_broadcasts, Function.update_self]
    rfl
  case clean =>
    refine .inl ?_
    rw [Trainer.clean, maybeClean_interval]
  case discover =>
    obtain ⟨resume, _, rfl⟩ := Option.map_eq_some_iff.1 ho
    exact .inl rfl
  case load =>
    rw [Trainer.load]
    split
    · exact .inl rfl
    · split <;> exact .inl rfl
  case setup => exact .inl rfl
  case wait =>
    rw [Trainer.poll] at ho
    split at ho
    · cases ho
    · split at ho <;> cases ho <;> exact .inl rfl
  case pack =>
    rw [Trainer.pack]
    split <;> exact .inl rfl
  case send =>
    rw [Trainer.send]
    split <;> exact .inl rfl
  case receive =>
    obtain ⟨micro, _, rfl⟩ := Option.map_eq_some_iff.1 ho
    exact .inl rfl
  case train => exact .inl rfl
  case checkpoint =>
    rw [Trainer.checkpoint]
    split <;> exact .inl rfl
  case checkpointFiles =>
    rw [Trainer.checkpointFiles]
    split <;> exact .inl rfl
  case markStable =>
    rw [Trainer.markStable]
    split <;> exact .inl rfl
  case advance =>
    rw [Trainer.advance]
    split <;> exact .inl rfl

/-- Where a trainer stands between its batches: `history` holds what it has trained on since it was started. -/
structure Aligned (c : Config) (s : State p) (t : Trainer p) (history : List (List (List p.Micro))) : Prop where
  /-- the checkpoint it resumes at is there, and of the batches up to its step -/
  resumes : t.phase.starts = true → ∀ r ∈ t.resumeStep, ∃ m, TrainedUpTo c s.disk r m ∧
    s.disk.checkpoints r = some ⟨some (m, r), true⟩
  /-- it has trained on the batch files of the steps after that one, in order, each as it was recorded -/
  trained : ∀ (k : Nat) grid, history[k]? = some grid → gridAt c s.disk (t.resumed + k + 1) = some grid ∧
    ∃ data r, s.disk.rollouts (t.resumed + k + 1) = some data ∧ s.records.batches[t.resumed + k]? = some r ∧
      r.step = t.resumed + k + 1 ∧ data.length = r.sizeBytes ∧ p.sha256 data = r.artifactDigest
  /-- a file that is not there yet, or cannot be decoded, is looked for again -/
  late : t.phase = .wait → (s.disk.rollouts (t.resumed + history.length + 1)).bind p.decode = none → ∀ noise,
    ∃ t', t.next s.disk c noise = some (s.disk, some t') ∧ t'.phase = .wait ∧
      t'.receivedStep = t.resumed + history.length + 1
  /-- one that is there is taken, and the next to be looked for is the next step's -/
  taken : t.phase = .wait → ∀ batch, (s.disk.rollouts (t.resumed + history.length + 1)).bind p.decode = some batch →
    ∀ noise, ∃ t', t.next s.disk c noise = some (s.disk, some t') ∧ t'.phase = .pack batch ∧
      t'.receivedStep = t.resumed + history.length + 2
  /-- it trains on the next of the batches -/
  trains : ∀ grid, t.phase = .train grid → gridAt c s.disk (t.resumed + history.length + 1) = some grid
  /-- an operation that writes an adapter writes that of the batches up to the step it writes under -/
  writes : ∀ noise s', State.next c s (.trainer noise) = some s' → ∀ v,
    (s'.disk.broadcasts v).bind StepDir.content = (s.disk.broadcasts v).bind StepDir.content ∨
      v = t.resumed + history.length ∧ ∃ m, TrainedUpTo c s.disk v m ∧
        (s'.disk.broadcasts v).bind StepDir.content = some (p.adapter m)

theorem Sound.aligned {history : List (List (List p.Micro))} (h : Sound c s models last) (ho : Ordered c s history)
    (ht : t ∈ s.trainer) : Aligned c s t history := by
  obtain ⟨hc, hg⟩ := ho t ht
  have hk := h.kept
  have hok := h.trainer t ht
  have hwait : t.phase = .wait → t.Before models last ∧ t.resumed + history.length + 1 = last + 1 := fun hp => by
    rw [TrainerOk, hp] at hok
    rw [Trainer.Counts, hp] at hc
    exact ⟨hok.1, hc.trans hok.1.progress⟩
  have hpoll : t.phase = .wait → ∀ noise, t.next s.disk c noise = t.poll s.disk := fun hp noise => by
    rw [Trainer.next, hp]
  refine ⟨fun hp r hr => ?_, fun k grid hgrid => ⟨hg k grid hgrid, ?_⟩, fun hp hnone noise => ?_,
    fun hp batch hbatch noise => ?_, fun grid hp => ?_, fun noise s' hn v => ?_⟩
  · rw [hok.resumeStep hp, resumeOf] at hr
    split at hr
    · cases hr
    · rename_i hlast
      cases hr
      exact ⟨models last, hk.trainedUpTo le_rfl, hk.checkpoints last (Nat.one_le_iff_ne_zero.2 hlast) hk.active_le le_rfl⟩
  · obtain ⟨batch, hbatch, _⟩ := Option.bind_eq_some_iff.1 (hg k grid hgrid)
    obtain ⟨data, hdata, _⟩ := Option.bind_eq_some_iff.1 hbatch
    obtain ⟨r, hr, hstep, hsize, hdigest⟩ := hk.recorded hdata
    exact ⟨data, r, hdata, hr, hstep, hsize, hdigest⟩
  · obtain ⟨hbefore, hstep⟩ := hwait hp
    rw [hstep] at hnone ⊢
    refine ⟨{ t with received := some t.receivedStep }, ?_, hp, ?_⟩
    · rw [hpoll hp, Trainer.poll, hbefore.ready, hbefore.receivedStep, hnone]
      rfl
    · exact hbefore.receivedStep
  · obtain ⟨hbefore, hstep⟩ := hwait hp
    rw [hstep] at hbatch
    refine ⟨{ t with received := some (last + 2), phase := .pack batch }, ?_, rfl, ?_⟩
    · rw [hpoll hp, Trainer.poll, hbefore.ready, hbefore.receivedStep, hbatch]
      rfl
    · exact congrArg Nat.succ hstep.symm
  · rw [TrainerOk, hp] at hok
    rw [Trainer.Counts, hp] at hc
    rw [hc.trans hok.1.progress]
    exact hok.2.2.2.2.2
  · obtain ⟨o, hnext, rfl⟩ := Option.map_eq_some_iff.1 hn
    obtain ⟨t₁, ht₁, hnext⟩ := Option.bind_eq_some_iff.1 hnext
    cases ht.symm.trans ht₁
    refine (broadcast_next hok hnext v).imp_right fun hwrites => ?_
    obtain ⟨hp, hv, hcontent⟩ := hwrites
    rw [TrainerOk, hp] at hok
    rw [Trainer.Counts, hp] at hc
    refine ⟨hv.trans (hc.trans hok.1.progress).symm, t.model, ?_, hcontent⟩
    rw [hv]
    exact .step (hk.trainedUpTo le_rfl) hok.1.trains

/-- **A trainer trains on the batches of the steps after its checkpoint's, each once and in order**: in every run, with
any number of crashes and restarts, it waits for a file that is late and takes none twice; the adapter it writes under a
step is the result of the batches up to that step and no others; and so are the adapters that are ready to be published
and those that were. -/
theorem steps_aligned [Inhabited p.Noise] (c : Config) (events : List (Event p)) :
    (∀ t ∈ (State.reached c events : State p).trainer,
      Aligned c (State.reached c events) t (reachedTrained c events).2) ∧
    (∀ v, (State.reached c events : State p).records.active < v →
      ((State.reached c events : State p).disk.checkpoints v).any StepDir.stable = true →
        ∃ m, TrainedUpTo c (State.reached c events : State p).disk v m ∧
          (State.reached c events : State p).disk.broadcasts v = some ⟨some (p.adapter m), true⟩) ∧
    ∀ q ∈ (State.reached c events : State p).records.policies,
      ∃ m, TrainedUpTo c (State.reached c events : State p).disk q.1 m ∧ q.2 = p.policy q.1 (p.adapter m) := by
  obtain ⟨models, last, h, ho⟩ := ordered_reached (p := p) c events
  have hk := h.kept
  refine ⟨fun t ht => h.aligned ho ht, fun v hv hstable => ?_, fun q hq => ?_⟩
  · have hle : v ≤ last := not_lt.1 fun hlt => by
      obtain ⟨dir, hdir, hs⟩ := stable_of_any hstable
      rw [hk.unstable v hlt dir hdir] at hs
      cases hs
    exact ⟨models v, hk.trainedUpTo hle, hk.broadcasts v hv hle⟩
  · rw [hk.policies] at hq
    obtain ⟨i, hi, rfl⟩ := List.mem_map.1 hq
    exact ⟨models (i + 1), hk.trainedUpTo ((List.mem_range.1 hi).trans_le hk.active_le), rfl⟩

namespace Sample

/-- The trainer that resumes waits for the batch of its step; when the file is there it trains on it, and is about to
write the adapter. -/
def late : List (Event training) :=
  resumed ++ works 3 ++ .recordBatch 1 "other" :: coordinates 5 [8] ++ works 7

def writing : Trainer training := ⟨.broadcastFiles, some 1, ([7, 8] : List Nat), 2, 3, true, some 3, 3, 3⟩

end Sample

set_option maxRecDepth 4096 in
/-- It has trained on the batch of step 2 alone, and what it writes comes of the batches of steps 1 and 2. -/
theorem steps_aligned_late : (State.reached Sample.config Sample.late).trainer = some Sample.writing ∧
    Aligned Sample.config (State.reached Sample.config Sample.late) Sample.writing [[[(8 : Nat)]]] ∧
    TrainedUpTo Sample.config (State.reached Sample.config Sample.late).disk 2 ([7, 8] : List Nat) := by
  have ht : (State.reached Sample.config Sample.late).trainer = some Sample.writing := rfl
  have hhistory : (reachedTrained Sample.config Sample.late).2 = [[[(8 : Nat)]]] := rfl
  have h := (steps_aligned Sample.config Sample.late).1 Sample.writing ht
  rw [hhistory] at h
  refine ⟨ht, h, ?_⟩
  obtain hsame | ⟨-, m, hm, hcontent⟩ := h.writes () _ rfl 2
  · cases hsame
  · cases hcontent
    exact hm

end Handoff
end Aether
