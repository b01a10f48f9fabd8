import AetherRl.Checked
import AetherRl.HandoffSound
/-!
# HandoffSteps — what one operation of the trainer does

One lemma for each operation of the trainer's loop: from a state as `HandoffSound` has it, it leads to one again.  Only
`markStable` moves `last`, and only the first load chooses the models anew.
-/
namespace Aether
namespace Handoff

variable {p : Training} {c : Config} {records : Records} {published : List (Nat × Digest)} {d : Disk p}
  {models : Nat → p.Model} {last : Nat} {t : Trainer p}

/-- Where an operation of the trainer leads. -/
def Leads (c : Config) (records : Records) (published : List (Nat × Digest)) (models : Nat → p.Model) (last : Nat)
    (o : Outcome p) : Prop :=
  ∃ models' last', Extends models last models' last' ∧ Kept c records published o.1 models' last' ∧
    ∀ t ∈ o.2, TrainerOk c o.1 models' last' t

theorem Leads.died (h : Kept c records published d models last) : Leads c records published models last (d, none) :=
  ⟨models, last, .refl _ _, h, fun _ ht => by cases ht⟩

theorem Leads.stays {d' : Disk p} {t' : Trainer p} (h : Kept c records published d' models last)
    (ht : TrainerOk c d' models last t') : Leads c records published models last (d', some t') :=
  ⟨models, last, .refl _ _, h, fun _ ht' => Option.some.inj ht' ▸ ht⟩

theorem resumeOf_next (last : Nat) : ((resumeOf last).map (· + 1)).getD 1 = last + 1 := by
  by_cases h : last = 0
  · rw [resumeOf, if_pos h, h]; rfl
  · rw [resumeOf, if_neg h]; rfl

theorem leads_discover {o : Outcome p} (h : Kept c records published d models last)
    (ht : TrainerOk c d models last t) (hp : t.phase = .discover) (ho : t.discover d = some o) :
    Leads c records published models last o := by
  rw [TrainerOk, hp] at ht
  obtain ⟨hresume, hready, hreceived, hprogress, hmodel, htoml⟩ := ht
  rw [Trainer.discover, htoml, Option.map_some, Option.some.injEq] at ho
  subst ho
  exact .stays h ⟨hresume, hready, hreceived, hprogress, hmodel, resumeOf_next last⟩

/-- **A trainer resumes with the model of the last stable checkpoint**, or begins where there is none. -/
theorem leads_load (h : Kept c records published d models last) (ht : TrainerOk c d models last t)
    (hp : t.phase = .load) : Leads c records published models last (t.load d) := by
  rw [TrainerOk, hp] at ht
  obtain ⟨hresume, hready, hreceived, hprogress, ⟨noise, hmodel⟩, hrun⟩ := ht
  rw [Trainer.load, hresume]
  by_cases hlast : last = 0
  · subst hlast
    exact ⟨fun _ => p.initial noise, 0, ⟨le_rfl, fun v h1 h0 => by omega⟩, h.begin noise, fun _ ht' => by
      obtain rfl := Option.some.inj ht'
      exact ⟨hmodel, hprogress, hrun, hready, Or.inl hreceived⟩⟩
  · rw [resumeOf, if_neg hlast]
    have hc := h.checkpoints last (Nat.one_le_iff_ne_zero.2 hlast) h.active_le le_rfl
    simp only [hc, Option.bind_some]
    exact .stays h ⟨rfl, rfl, hrun, hready, Or.inl hreceived⟩

theorem leads_setup (h : Kept c records published d models last) (ht : TrainerOk c d models last t)
    (hp : t.phase = .setup) : Leads c records published models last (t.setup d) := by
  rw [TrainerOk, hp] at ht
  exact .stays (h.of_disk rfl (fun _ _ _ => rfl) (fun _ _ _ => rfl) h.unstable)
    ⟨⟨ht.model, ht.progress, ht.runProgress, ht.ready, ht.received⟩, ht.progress, ht.progress⟩

theorem Trainer.Before.receivedStep (ht : t.Before models last) : t.receivedStep = last + 1 := by
  rw [Trainer.receivedStep]
  obtain h | h := ht.received
  · rw [h]; exact ht.runProgress
  · rw [h]; rfl

/-- **The batch a trainer takes is the one after its last step's**, whenever its file appears. -/
theorem leads_poll {o : Outcome p} (h : Kept c records published d models last) (ht : TrainerOk c d models last t)
    (hp : t.phase = .wait) (ho : t.poll d = some o) : Leads c records published models last o := by
  have hphase := hp
  rw [TrainerOk, hp] at ht
  obtain ⟨hb, hsent, hreceiving⟩ := ht
  rw [Trainer.poll, hb.ready, if_neg Bool.false_ne_true, hb.receivedStep] at ho
  cases hbatch : (d.rollouts (last + 1)).bind p.decode with
  | none =>
    rw [hbatch, Option.some.injEq] at ho
    subst ho
    refine .stays h ?_
    rw [TrainerOk, hphase]
    exact ⟨⟨hb.model, hb.progress, hb.runProgress, rfl, Or.inr rfl⟩, hsent, hreceiving⟩
  | some batch =>
    rw [hbatch, Option.some.injEq] at ho
    subst ho
    exact .stays h ⟨hb.model, hb.progress, hb.runProgress, rfl, hsent, hreceiving, hbatch⟩

theorem leads_pack {batch : p.Batch} (h : Kept c records published d models last) (ht : TrainerOk c d models last t)
    (hp : t.phase = .pack batch) : Leads c records published models last (t.pack d c batch) := by
  rw [TrainerOk, hp] at ht
  obtain ⟨hmodel, hprogress, hrun, hreceived, hsent, hreceiving, hbatch⟩ := ht
  rw [Trainer.pack]
  cases hgrid : p.grid c batch with
  | none => exact .died h
  | some grid =>
    refine .stays h ⟨⟨hprogress, ?_, hreceived⟩, hmodel, rfl, hsent, hreceiving, ?_,
      fun k hk => absurd hk k.not_lt_zero⟩
    · rw [hrun]
    · rw [gridAt, hbatch]
      exact hgrid

theorem leads_send {grid : List (List p.Micro)} {rank : Nat} (h : Kept c records published d models last)
    (ht : TrainerOk c d models last t) (hp : t.phase = .send grid rank) :
    Leads c records published models last (t.send d grid rank) := by
  rw [TrainerOk, hp] at ht
  obtain ⟨htaken, hmodel, hready, hsent, hreceiving, hgrid, hmicro⟩ := ht
  rw [Trainer.send]
  cases hrank : grid[rank]? with
  | none =>
    refine .stays h ⟨⟨htaken.progress, htaken.runProgress, htaken.received⟩, hmodel, hready, ?_, hreceiving,
      grid, hgrid, fun k hk => hmicro k ?_⟩
    · rw [hsent]
    · exact hk.trans_le (List.getElem?_eq_none_iff.1 hrank)
  | some micro =>
    refine .stays (h.of_disk rfl (fun _ _ _ => rfl) (fun _ _ _ => rfl) h.unstable)
      ⟨⟨htaken.progress, htaken.runProgress, htaken.received⟩, hmodel, hready, hsent, hreceiving, hgrid, fun k hk => ?_⟩
    rw [hsent, Disk.setMicro_micro]
    by_cases hk' : k = rank
    · rw [hk', Function.update_self, hrank]
    · rw [Function.update_of_ne hk']
      exact hmicro k (by omega)

theorem grid_length {batch : p.Batch} {grid : List (List p.Micro)} (h : p.grid c batch = some grid) :
    grid.length = c.ranks := by
  rw [Training.grid, Option.bind_eq_some_iff] at h
  obtain ⟨g, _, h⟩ := h
  split at h
  · rename_i hg
    rw [← Option.some.inj h, List.length_map, hg.1]
  · cases h

/-- What the ranks read is what was written for each. -/
theorem leads_receive {o : Outcome p} (h : Kept c records published d models last) (ht : TrainerOk c d models last t)
    (hp : t.phase = .receive) (ho : t.receive d c = some o) : Leads c records published models last o := by
  rw [TrainerOk, hp] at ht
  obtain ⟨htaken, hmodel, hready, hsent, hreceiving, grid, hgrid, hmicro⟩ := ht
  rw [Trainer.receive, hreceiving, Option.map_eq_some_iff] at ho
  obtain ⟨micro, hread, rfl⟩ := ho
  have hlen : grid.length = c.ranks := by
    rw [gridAt, Option.bind_eq_some_iff] at hgrid
    obtain ⟨batch, _, hg⟩ := hgrid
    exact grid_length hg
  obtain rfl := Checked.mapM_range_eq hlen (fun k hk => hmicro k (hlen ▸ hk)) hread
  exact .stays h ⟨⟨htaken.progress, htaken.runProgress, htaken.received⟩, hmodel, hready, hsent, rfl, hgrid⟩

theorem leads_train {microBatches : List (List p.Micro)} (noise : p.Noise)
    (h : Kept c records published d models last) (ht : TrainerOk c d models last t)
    (hp : t.phase = .train microBatches) : Leads c records published models last (t.train d microBatches noise) := by
  rw [TrainerOk, hp] at ht
  obtain ⟨htaken, hmodel, hready, hsent, hreceiving, hgrid⟩ := ht
  refine .stays h ⟨⟨⟨htaken.progress, htaken.runProgress, htaken.received⟩, hsent, hreceiving, ?_⟩, hready⟩
  exact ⟨microBatches, noise, hgrid, by rw [hmodel]⟩

/-! ## The broadcast and the checkpoint -/

/-- **Whatever a trainer writes under step `last + 1`**, short of marking its checkpoint, leaves what is kept alone. -/
theorem Kept.write {d' : Disk p} (h : Kept c records published d models last) (hr : d'.rollouts = d.rollouts)
    (hb : ∀ v, v ≠ last + 1 → d'.broadcasts v = d.broadcasts v)
    (hc : ∀ v, v ≠ last + 1 → d'.checkpoints v = d.checkpoints v)
    (hu : ∀ dir ∈ d'.checkpoints (last + 1), dir.stable = false) : Kept c records published d' models last := by
  refine h.of_disk hr (fun v _ hv => hb v (by omega)) (fun v _ hv => hc v (by omega)) fun v hv dir hdir => ?_
  by_cases hlast : v = last + 1
  · exact hu dir (hlast ▸ hdir)
  · exact h.unstable v hv dir (hc v hlast ▸ hdir)

theorem Kept.setBroadcast (h : Kept c records published d models last) (dir : Option (StepDir p.Adapter)) :
    Kept c records published (d.setBroadcast (last + 1) dir) models last :=
  h.write rfl (fun _ hv => Function.update_of_ne hv ..) (fun _ _ => rfl) (h.unstable _ (Nat.lt_succ_self last))

theorem Kept.setCheckpoint (h : Kept c records published d models last) {dir : Option (StepDir (Checkpoint p))}
    (hu : ∀ dir' ∈ dir, dir'.stable = false) :
    Kept c records published (d.setCheckpoint (last + 1) dir) models last :=
  h.write rfl (fun _ _ => rfl) (fun _ hv => Function.update_of_ne hv ..)
    (by rw [Disk.setCheckpoint_checkpoints, Function.update_self]; exact hu)

theorem Trainer.Trained.step (ht : t.Trained c d models last) : t.broadcastStep = last + 1 := by
  rw [Trainer.broadcastStep, ht.runProgress]
  rfl

/-- A trainer keeps its account of a step while its phase and its files change. -/
theorem Trainer.Trained.frame {d' : Disk p} {t' : Trainer p} (ht : t.Trained c d models last)
    (hr : d'.rollouts = d.rollouts) (hmodel : t'.model = t.model) (hprogress : t'.progress = t.progress)
    (hrun : t'.runProgress = t.runProgress) (hreceived : t'.received = t.received) (hsent : t'.sent = t.sent)
    (hreceiving : t'.receiving = t.receiving) : t'.Trained c d' models last where
  progress := hprogress.trans ht.progress
  runProgress := hrun.trans ht.runProgress
  received := hreceived.trans ht.received
  sent := hsent.trans ht.sent
  receiving := hreceiving.trans ht.receiving
  trains := by
    obtain ⟨grid, noise, hg, hm⟩ := ht.trains
    exact ⟨grid, noise, by rw [gridAt, hr]; exact hg, hmodel.trans hm⟩

theorem leads_broadcast (h : Kept c records published d models last) (ht : TrainerOk c d models last t)
    (hp : t.phase = .broadcast) : Leads c records published models last (t.broadcast d) := by
  rw [TrainerOk, hp] at ht
  obtain ⟨htrained, hready⟩ := ht
  rw [Trainer.broadcast, hready, if_pos rfl, htrained.step]
  refine .stays (h.setBroadcast _) ⟨htrained.frame rfl rfl rfl rfl rfl rfl rfl, hready, ?_⟩
  rw [Disk.setBroadcast_broadcasts, Function.update_self]
  rfl

theorem leads_broadcastFiles (h : Kept c records published d models last) (ht : TrainerOk c d models last t)
    (hp : t.phase = .broadcastFiles) : Leads c records published models last (t.broadcastFiles d) := by
  rw [TrainerOk, hp] at ht
  obtain ⟨htrained, hready, hdir⟩ := ht
  obtain ⟨dir, hdir⟩ := Option.isSome_iff_exists.1 hdir
  rw [Trainer.broadcastFiles, htrained.step, hdir]
  refine .stays (h.setBroadcast _) ⟨htrained.frame rfl rfl rfl rfl rfl rfl rfl, hready, dir.stable, ?_⟩
  rw [Disk.setBroadcast_broadcasts, Function.update_self]
  rfl

theorem leads_notify (h : Kept c records published d models last) (ht : TrainerOk c d models last t)
    (hp : t.phase = .notify) : Leads c records published models last (t.notify d) := by
  rw [TrainerOk, hp] at ht
  obtain ⟨htrained, _, stable, hdir⟩ := ht
  rw [Trainer.notify, htrained.step, hdir]
  refine .stays (h.setBroadcast _) ⟨htrained.frame rfl rfl rfl rfl rfl rfl rfl, rfl, ?_⟩
  rw [Disk.setBroadcast_broadcasts, Function.update_self]

/-- **At the interval `validate_config` asks for, the trainer removes no broadcast.** -/
theorem maybeClean_interval (c : Config) (d : Disk p) (step : Nat) : Trainer.maybeClean d step c.interval = d := by
  rw [Trainer.maybeClean, c.interval_eq, if_pos ⟨one_ne_zero, Nat.mod_one _⟩]

theorem leads_clean (h : Kept c records published d models last) (ht : TrainerOk c d models last t)
    (hp : t.phase = .clean) : Leads c records published models last (t.clean d c) := by
  rw [TrainerOk, hp] at ht
  obtain ⟨htrained, hready, hdir⟩ := ht
  rw [Trainer.clean, maybeClean_interval]
  exact .stays h ⟨htrained.frame rfl rfl rfl rfl rfl rfl rfl, hready, hdir⟩

theorem leads_checkpoint (h : Kept c records published d models last) (ht : TrainerOk c d models last t)
    (hp : t.phase = .checkpoint) : Leads c records published models last (t.checkpoint d c) := by
  rw [TrainerOk, hp] at ht
  obtain ⟨htrained, hready, hdir⟩ := ht
  rw [Trainer.checkpoint, c.interval_eq, if_pos (Or.inr ⟨one_ne_zero, Nat.mod_one _⟩), htrained.progress]
  refine .stays (h.setCheckpoint fun dir' hdir' => ?_) ⟨htrained.frame rfl rfl rfl rfl rfl rfl rfl, hready, hdir, ?_⟩
  · obtain rfl := Option.some.inj hdir'
    cases hold : d.checkpoints (last + 1) with
    | none => rfl
    | some dir => exact h.unstable _ (Nat.lt_succ_self last) dir hold
  · rw [Disk.setCheckpoint_checkpoints, Function.update_self]
    rfl

theorem leads_checkpointFiles (h : Kept c records published d models last) (ht : TrainerOk c d models last t)
    (hp : t.phase = .checkpointFiles) : Leads c records published models last (t.checkpointFiles d) := by
  rw [TrainerOk, hp] at ht
  obtain ⟨htrained, hready, hbroadcast, hdir⟩ := ht
  obtain ⟨dir, hdir⟩ := Option.isSome_iff_exists.1 hdir
  rw [Trainer.checkpointFiles, htrained.progress, hdir]
  refine .stays (h.setCheckpoint fun dir' hdir' => ?_)
    ⟨htrained.frame rfl rfl rfl rfl rfl rfl rfl, hready, hbroadcast, dir.stable, ?_⟩
  · obtain rfl := Option.some.inj hdir'
    exact h.unstable _ (Nat.lt_succ_self last) dir hdir
  · rw [Disk.setCheckpoint_checkpoints, Function.update_self]
    rfl

/-- **The step is settled when its checkpoint is marked.** -/
theorem leads_markStable (h : Kept c records published d models last) (ht : TrainerOk c d models last t)
    (hp : t.phase = .markStable) : Leads c records published models last (t.markStable d) := by
  rw [TrainerOk, hp] at ht
  obtain ⟨htrained, hready, hbroadcast, stable, hdir⟩ := ht
  rw [Trainer.markStable, htrained.progress, hdir]
  refine ⟨Function.update models (last + 1) t.model, last + 1, ⟨Nat.le_succ last, fun v _ hv => ?_⟩,
    h.advance htrained.trains hbroadcast, fun t' ht' => ?_⟩
  · rw [Function.update_of_ne (by omega : v ≠ last + 1)]
  · obtain rfl := Option.some.inj ht'
    exact ⟨(Function.update_self (last + 1) t.model models).symm, htrained.progress, htrained.runProgress, hready,
      htrained.received, htrained.sent, htrained.receiving⟩

theorem leads_advance (h : Kept c records published d models last) (ht : TrainerOk c d models last t)
    (hp : t.phase = .advance) : Leads c records published models last (t.advance d c) := by
  rw [TrainerOk, hp] at ht
  obtain ⟨hmodel, hprogress, hrun, hready, hreceived, hsent, hreceiving⟩ := ht
  rw [Trainer.advance]
  split
  · exact .stays h trivial
  · refine .stays h ⟨⟨hmodel, ?_, hrun, hready, Or.inr hreceived⟩, hsent, hreceiving⟩
    rw [hprogress]

/-! ## Any operation -/

/-- **An operation of the trainer keeps what is kept.** -/
theorem leads_next {noise : p.Noise} {o : Outcome p} (h : Kept c records published d models last)
    (ht : TrainerOk c d models last t) (ho : t.next d c noise = some o) : Leads c records published models last o := by
  rw [Trainer.next] at ho
  cases hp : t.phase <;> rw [hp] at ho <;> simp only [Option.some.injEq, reduceCtorEq] at ho <;> try subst ho
  case discover => exact leads_discover h ht hp ho
  case load => exact leads_load h ht hp
  case setup => exact leads_setup h ht hp
  case wait => exact leads_poll h ht hp ho
  case pack => exact leads_pack h ht hp
  case send => exact leads_send h ht hp
  case receive => exact leads_receive h ht hp ho
  case train => exact leads_train noise h ht hp
  case broadcast => exact leads_broadcast h ht hp
  case broadcastFiles => exact leads_broadcastFiles h ht hp
  case notify => exact leads_notify h ht hp
  case clean => exact leads_clean h ht hp
  case checkpoint => exact leads_checkpoint h ht hp
  case checkpointFiles => exact leads_checkpointFiles h ht hp
  case markStable => exact leads_markStable h ht hp
  case advance => exact leads_advance h ht hp

/-- **Nor does it matter what half-written files read.** -/
theorem leads_tear {adapter : Option p.Adapter} {saved : Option (Checkpoint p)} {d' : Disk p}
    (h : Kept c records published d models last) (ht : TrainerOk c d models last t)
    (ho : t.tear d adapter saved = some d') : Leads c records published models last (d', some t) := by
  have hok := ht
  rw [Trainer.tear] at ho
  cases hp : t.phase <;> rw [hp] at ho <;> simp only [Option.some.injEq, reduceCtorEq] at ho
  case broadcastFiles =>
    rw [TrainerOk, hp] at ht
    obtain ⟨htrained, hready, hdir⟩ := ht
    obtain ⟨dir, hdir⟩ := Option.isSome_iff_exists.1 hdir
    rw [htrained.step, hdir] at ho
    subst ho
    refine .stays (h.setBroadcast _) ?_
    rw [TrainerOk, hp]
    refine ⟨htrained.frame rfl rfl rfl rfl rfl rfl rfl, hready, ?_⟩
    rw [Disk.setBroadcast_broadcasts, Function.update_self]
    rfl
  case checkpointFiles =>
    rw [TrainerOk, hp] at ht
    obtain ⟨htrained, hready, hbroadcast, hdir⟩ := ht
    obtain ⟨dir, hdir⟩ := Option.isSome_iff_exists.1 hdir
    rw [htrained.progress, hdir] at ho
    subst ho
    refine .stays (h.setCheckpoint fun dir' hdir' => ?_) ?_
    · obtain rfl := Option.some.inj hdir'
      exact h.unstable _ (Nat.lt_succ_self last) dir hdir
    · rw [TrainerOk, hp]
      refine ⟨htrained.frame rfl rfl rfl rfl rfl rfl rfl, hready, hbroadcast, ?_⟩
      rw [Disk.setCheckpoint_checkpoints, Function.update_self]
      rfl

end Handoff
end Aether
