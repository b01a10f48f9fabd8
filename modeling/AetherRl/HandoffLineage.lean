import AetherRl.HandoffMoves
/-!
# HandoffLineage — every run of the coordinator and its trainers

With crashes and restarts anywhere, the published policies are one lineage, and what is not yet activated stays on the
disk as its trainer left it.
-/
namespace Aether
namespace Handoff

variable {p : Training} {c : Config} {s s' : State p} {models : Nat → p.Model} {last : Nat} {t : Trainer p}
  {d d' : Disk p}

theorem sound_reached [Inhabited p.Noise] (c : Config) (events : List (Event p)) :
    ∃ models last, Sound c (State.reached c events : State p) models last := by
  refine Machine.drive_invariant (I := fun s => ∃ models last, Sound c s models last) ?_ events ?_
  · rintro s e s' ⟨models, last, h⟩ hn
    obtain ⟨models', last', _, h'⟩ := sound_next h hn
    exact ⟨models', last', h'⟩
  · refine ⟨fun _ => p.initial default, 0, ⟨le_rfl, ⟨default, rfl⟩, ?_, rfl, ?_, ?_, ?_, ?_, ?_, ?_⟩, ?_, rfl⟩
    · exact fun v hv => absurd hv v.not_lt_zero
    · exact fun q hq => by cases hq
    · exact fun i r hr => by cases hr
    · exact fun n data hdata => by cases hdata
    · exact fun v h0 hl => by omega
    · exact fun v h1 _ hl => by omega
    · exact fun v _ dir hdir => by cases hdir
    · exact fun t ht => by cases ht

/-- What stays from one state of a run to every later one. -/
structure Grows (s s' : State p) : Prop where
  rollouts : ∀ n data, s.disk.rollouts n = some data → s'.disk.rollouts n = some data
  batches : s.records.batches <+: s'.records.batches
  policies : s.records.policies <+: s'.records.policies
  published : s.published <+: s'.published

theorem grows_reached [Inhabited p.Noise] (c : Config) (events more : List (Event p)) :
    Grows (State.reached c events : State p) (State.reached c (events ++ more)) := by
  have happend : State.reached c (events ++ more) = Machine.drive (State.next c) (State.reached c events) more :=
    Machine.drive_append ..
  rw [happend]
  refine Machine.drive_relates (I := fun s => ∃ models last, Sound c s models last) ?_ ?_ ?_ ?_ more
    (sound_reached c events)
  · rintro s e s' ⟨models, last, h⟩ hn
    obtain ⟨models', last', _, h'⟩ := sound_next h hn
    exact ⟨models', last', h'⟩
  · exact fun s => ⟨fun _ _ h => h, List.prefix_rfl, List.prefix_rfl, List.prefix_rfl⟩
  · exact fun s₁ s₂ s₃ h h' => ⟨fun n data hd => h'.rollouts n data (h.rollouts n data hd), h.batches.trans h'.batches,
      h.policies.trans h'.policies, h.published.trans h'.published⟩
  · rintro s e s' ⟨models, last, h⟩ hn
    have hm := moves_next h hn
    exact ⟨hm.rollouts, hm.batches, hm.policies, hm.published⟩

/-- The batch a step trained on is the recorded one. -/
theorem Kept.recorded {records : Records} {published : List (Nat × Digest)}
    (h : Kept c records published d models last) {n : Nat} {data : Bytes} (hd : d.rollouts (n + 1) = some data) :
    ∃ r, records.batches[n]? = some r ∧ r.step = n + 1 ∧ data.length = r.sizeBytes ∧
      p.sha256 data = r.artifactDigest := by
  obtain ⟨r, hr, hstep, hsize, hdigest⟩ := h.rollouts _ data hd
  obtain ⟨i, hi⟩ := List.getElem?_of_mem hr
  have hri := h.steps i r hi
  obtain rfl : i = n := by omega
  exact ⟨r, hi, hstep, hsize, hdigest⟩

/-- The active version and those before it, as trained: each model is one step of training, on the recorded batch of its
step, from the model before, and each policy the adapter of its version's model. -/
structure Lineage (c : Config) (s : State p) (models : Nat → p.Model) : Prop where
  initial : ∃ noise, models 0 = p.initial noise
  trained : ∀ v < s.records.active, Trains c s.disk (v + 1) (models v) (models (v + 1)) ∧
    ∃ data r, s.disk.rollouts (v + 1) = some data ∧ s.records.batches[v]? = some r ∧ r.step = v + 1 ∧
      data.length = r.sizeBytes ∧ p.sha256 data = r.artifactDigest
  policies : s.records.policies = (List.range s.records.active).map fun i =>
    (i + 1, p.policy (i + 1) (p.adapter (models (i + 1))))

/-- **The published policies are one lineage**: whatever is cut short and begun again, the policy of each version is the
adapter of a model that one step of training, on the recorded batch of that step, made of the model of the version
before; the first is made of the weights a run begins with.  No version is skipped, and no policy is taken back. -/
theorem published_lineage [Inhabited p.Noise] (c : Config) (events more : List (Event p)) :
    (∃ models, Lineage c (State.reached c events : State p) models) ∧
      (State.reached c events : State p).records.policies <+:
        (State.reached c (events ++ more) : State p).records.policies := by
  refine ⟨?_, (grows_reached c events more).policies⟩
  obtain ⟨models, last, h⟩ := sound_reached c events
  have hk := h.kept
  refine ⟨models, hk.initial, fun v hv => ?_, hk.policies⟩
  have ht := hk.lineage v (hv.trans_le hk.active_le)
  refine ⟨ht, ?_⟩
  obtain ⟨grid, noise, hg, _⟩ := ht
  obtain ⟨batch, hbatch, _⟩ := Option.bind_eq_some_iff.1 hg
  obtain ⟨data, hdata, _⟩ := Option.bind_eq_some_iff.1 hbatch
  obtain ⟨r, hr, hstep, hsize, hdigest⟩ := hk.recorded hdata
  exact ⟨data, r, hdata, hr, hstep, hsize, hdigest⟩

/-- What an event may not do to the files that are still needed. -/
structure Spares (s s' : State p) : Prop where
  broadcasts : ∀ v, s.records.active < v → Stays (s.disk.broadcasts v) (s'.disk.broadcasts v)
  checkpoints : ∀ v, s.records.active < v → Stays (s.disk.checkpoints v) (s'.disk.checkpoints v)
  active : 1 ≤ s.records.active → s'.disk.checkpoints s.records.active = s.disk.checkpoints s.records.active
  handed : ∀ v, s.records.active < v → (s.disk.checkpoints v).any StepDir.stable = true →
    s'.disk.broadcasts v = s.disk.broadcasts v ∧ s'.disk.checkpoints v = s.disk.checkpoints v

theorem Sound.spares {e : Event p} (h : Sound c s models last) (hn : State.next c s e = some s') : Spares s s' := by
  have hk := h.kept
  have hm := moves_next h hn
  refine ⟨hm.broadcasts, fun v hv => hm.checkpoints v hv.le, fun _ => (hm.settled _ le_rfl hk.active_le).1,
    fun v hv hstable => ?_⟩
  have hle : v ≤ last := not_lt.1 fun hlt => by
    obtain ⟨dir, hdir, hs⟩ := stable_of_any hstable
    rw [hk.unstable v hlt dir hdir] at hs
    cases hs
  have hs := hm.settled v hv.le hle
  exact ⟨hs.2 hv, hs.1⟩

/-- **What is not published yet is never lost**: in any run, no event removes a broadcast or a checkpoint of a version
after the active one, nor its `STABLE` file; the active version's checkpoint stands complete and is not touched; and
once a version's checkpoint is marked, its broadcast and its checkpoint read what they read then. -/
theorem unpublished_kept [Inhabited p.Noise] (c : Config) (events : List (Event p)) :
    (1 ≤ (State.reached c events : State p).records.active → ∃ model,
      (State.reached c events : State p).disk.checkpoints (State.reached c events : State p).records.active =
        some ⟨some (model, (State.reached c events : State p).records.active), true⟩) ∧
    ∀ e s', State.next c (State.reached c events : State p) e = some s' → Spares (State.reached c events) s' := by
  obtain ⟨models, last, h⟩ := sound_reached c events
  exact ⟨fun h1 => ⟨_, h.kept.checkpoints _ h1 le_rfl h.kept.active_le⟩, fun _ _ hn => h.spares hn⟩

end Handoff
end Aether
