import AetherRl.QueueConsistent
/-!
# QueueKeeps — what every durable step keeps

One lemma for what becomes of the files and one for what becomes of the tables; `process_available` is put together from
them in `QueueGroup` and `QueueBatch`.
-/
namespace Aether
namespace Queue

open Txn (Wp wp_bind)
open Repo

variable {F : Type} {p : Processor F} {known : List (ProcessedGroupPayload F)} {alive : Bool} {s s' s'' : Store}

/-! ## The repository's invariants -/

section
variable {env : Env} {w : World} {c : Call}

/-- **A call keeps the repository's invariants**, and the policies it has. -/
theorem perform_regular (hv : ∀ m ∈ c.manifests, m.Valid env.codec) (h : Regular env w) :
    Regular env (perform env c w).2 ∧ w.db.policies <+: (perform env c w).2.db.policies := by
  obtain ⟨⟨hs, hf, hc⟩, hgrow⟩ := perform_holds
    (I := fun now d => Sound now d.toTables ∧ Filed env.codec d.toTables ∧ d.toTables.Carried env.codec)
    (R := fun d d' => d.policies <+: d'.policies) (fun _ _ _ hn h => ⟨h.1.mono hn, h.2⟩) (fun _ => List.prefix_rfl)
    (fun _ _ _ h₁ h₂ => h₁.trans h₂)
    (fun _ _ _ h hcommit => by
      obtain ⟨hs, hf, hc⟩ := h
      obtain ⟨hf', hgrow, _⟩ := commit_kept hf hv hcommit
      exact ⟨⟨(commit_sound hs hcommit).1, hf', commit_carried hf hc hv hcommit⟩, hgrow.policies⟩)
    (perform_links env c w) ⟨h.sound, h.filed, h.carried⟩
  exact ⟨⟨hs, hf, hc, perform_counted env c h.counted⟩, hgrow⟩

end

theorem Regular.of_db {env : Env} {w w' : World} (h : Regular env w) (hd : w'.db = w.db) (hr : w'.reads = w.reads) :
    Regular env w' := by
  have hnow : w'.now env = w.now env := by rw [World.now, World.now, hr]
  refine ⟨?_, hd ▸ h.filed, hd ▸ h.carried, hd ▸ h.counted⟩
  rw [World.Sound, hnow, hd]
  exact h.sound

/-! ## What a run adds up to -/

/-- What is recorded stays, and its file reads what it read. -/
structure Moves (s s' : Store) : Prop where
  records : s.world.db.toTables.Records s'.world.db.toTables
  files : ∀ r ∈ artifactRecords s.world.db.toTables, s'.queue.read r.artifactPath = s.queue.read r.artifactPath

theorem Moves.refl (s : Store) : Moves s s := ⟨.refl _, fun _ _ => rfl⟩

theorem artifactRecords_subset {t t' : Tables} (h : t.Records t') : artifactRecords t ⊆ artifactRecords t' := by
  intro r hr
  unfold artifactRecords at *
  rcases List.mem_append.1 hr with hr | hr <;> obtain ⟨x, hx, rfl⟩ := List.mem_map.1 hr
  · exact List.mem_append_left _ (List.mem_map_of_mem (h.groups.subset hx))
  · exact List.mem_append_right _ (List.mem_map_of_mem (h.batches.subset hx))

theorem Moves.trans (h : Moves s s') (h' : Moves s' s'') : Moves s s'' :=
  ⟨h.records.trans h'.records, fun r hr =>
    (h'.files r (artifactRecords_subset h.records hr)).trans (h.files r hr)⟩

/-! ## Files -/

theorem Writing.moves (h : Writing p.uuid s s') : Moves s s' :=
  ⟨h.db ▸ .refl _, fun r _ => h.files.read r.artifactPath⟩

/-- The temporary files are named by what was drawn. -/
theorem Consistent.leaves (h : Consistent p known alive s) (hl : Leaves p.uuid s s') :
    ∀ f ∈ s'.queue.incoming, ∃ i < s'.drawn, f.1 = p.uuid i ++ ".tmp" := by
  intro f hf
  rw [hl.drawn]
  rcases hl.incoming f hf with hf | hf
  · obtain ⟨i, hi, hname⟩ := h.incoming f hf
    exact ⟨i, hi.trans (Nat.lt_succ_self _), hname⟩
  · exact ⟨s.drawn, Nat.lt_succ_self _, hf⟩

theorem Artifact.of_store {g : ProcessedGroupRow} {x : ProcessedGroupPayload F} (h : Artifact p s g x)
    (hd : s'.world.db = s.world.db)
    (hr : Spool.read s'.queue.groups g.artifactPath = Spool.read s.queue.groups g.artifactPath) : Artifact p s' g x :=
  ⟨h.group, h.path, h.digest, h.size, hr.trans h.file, by rw [hd]; exact h.stamped, h.count⟩

theorem Batched.of_read {b : BatchRow} (h : Batched p s b)
    (hr : Spool.read s'.queue.batches b.artifactPath = Spool.read s.queue.batches b.artifactPath) : Batched p s' b :=
  ⟨h.path, by rw [hr]; exact h.file⟩

/-- **A publication that adds nothing** leaves everything as it was. -/
theorem Consistent.writing (h : Consistent p known alive s) (hw : Writing p.uuid s s') : Consistent p known alive s' where
  regular := h.regular.of_db hw.db hw.reads
  groups g hg := by
    obtain ⟨x, hx, ha⟩ := h.groups g (by rw [← hw.db]; exact hg)
    exact ⟨x, hx, ha.of_store hw.db (by rw [hw.files.groups])⟩
  batches b hb := (h.batches b (by rw [← hw.db]; exact hb)).of_read (by rw [hw.files.batches])
  groupFiles := by rw [hw.files.groups]; exact h.groupFiles
  batchFiles := by rw [hw.files.batches]; exact h.batchFiles
  live := by rw [hw.files.batches, hw.db]; exact h.live
  incoming := h.leaves hw.toLeaves

/-- What was read is still read, when a file is added. -/
theorem read_append_of_some {files : List (String × Bytes)} {path : String} {f : String × Bytes} {data : Bytes}
    (h : Spool.read files path = some data) : Spool.read (files ++ [f]) path = Spool.read files path := by
  rw [Spool.read_append, h, Option.some_or]

/-- **A group's artifact is added** under its digest. -/
theorem Consistent.adds_group (h : Consistent p known alive s) {x : ProcessedGroupPayload F} (hx : x ∈ known)
    (hl : Leaves p.uuid s s') (hfiles : SameFiles (s.queue.add (fileOf p x) .groups) s'.queue) :
    Consistent p known alive s' := by
  have hgroups : s'.queue.groups = s.queue.groups ++ [fileOf p x] := hfiles.groups
  have hbatches : s'.queue.batches = s.queue.batches := hfiles.batches
  refine ⟨h.regular.of_db hl.db hl.reads, fun g hg => ?_, fun b hb => ?_, fun f hf => ?_, ?_, ?_, h.leaves hl⟩
  · obtain ⟨y, hy, ha⟩ := h.groups g (by rw [← hl.db]; exact hg)
    exact ⟨y, hy, ha.of_store hl.db (by rw [hgroups, read_append_of_some ha.file])⟩
  · exact (h.batches b (by rw [← hl.db]; exact hb)).of_read (by rw [hbatches])
  · rw [hgroups, List.mem_append, List.mem_singleton] at hf
    rcases hf with hf | rfl
    · exact h.groupFiles f hf
    · exact ⟨x, hx, rfl⟩
  · rw [hbatches]
    exact h.batchFiles
  · rw [hbatches, hl.db]
    exact h.live

/-- **A batch is added**: until it is recorded there is one file of the batches that no record refers to. -/
theorem Consistent.adds_batch (h : Consistent p known alive s) {n : Int} {data : Bytes} (hl : Leaves p.uuid s s')
    (hfiles : SameFiles (s.queue.add (batchPath n, data) .batches) s'.queue) : Consistent p known false s' := by
  have hgroups : s'.queue.groups = s.queue.groups := hfiles.groups
  have hbatches : s'.queue.batches = s.queue.batches ++ [(batchPath n, data)] := hfiles.batches
  refine ⟨h.regular.of_db hl.db hl.reads, fun g hg => ?_, fun b hb => ?_, ?_, fun f hf => ?_, fun he => (by cases he),
    h.leaves hl⟩
  · obtain ⟨y, hy, ha⟩ := h.groups g (by rw [← hl.db]; exact hg)
    exact ⟨y, hy, ha.of_store hl.db (by rw [hgroups])⟩
  · have hold := h.batches b (by rw [← hl.db]; exact hb)
    obtain ⟨found, hread, _⟩ := hold.file
    exact hold.of_read (by rw [hbatches, read_append_of_some hread])
  · rw [hgroups]
    exact h.groupFiles
  · rw [hbatches, List.mem_append, List.mem_singleton] at hf
    rcases hf with hf | rfl
    · exact h.batchFiles f hf
    · exact ⟨n, rfl⟩

/-- **A file that is added under a free name** disturbs no recorded artifact. -/
theorem Consistent.adds_moves (h : Consistent p known alive s) {final : String} {data : Bytes}
    {directory : QueueDirectory} (hfree : s.queue.read final = none) (hl : Leaves p.uuid s s')
    (hfiles : SameFiles (s.queue.add (final, data) directory) s'.queue) : Moves s s' := by
  refine ⟨hl.db ▸ .refl _, fun r hr => ?_⟩
  obtain ⟨found, hfound⟩ := h.verifies r hr
  have hread := read_of_verify hfound
  have hne : final ≠ r.artifactPath := fun he => by
    rw [he, hread] at hfree
    cases hfree
  rw [hfiles.read]
  cases directory <;> simp [QueueFiles.read, QueueFiles.add, Spool.read_append, hne]

/-! ## Tables -/

/-- **What is recorded** may go on being recorded: the tables may take in what is there, and lose nothing. -/
theorem Consistent.tables {alive' : Bool} (h : Consistent p known alive s) (hq : s'.queue = s.queue)
    (hdrawn : s'.drawn = s.drawn) (hreg : Regular p.env s'.world)
    (hpol : s.world.db.policies ⊆ s'.world.db.policies)
    (hgroups : ∀ g ∈ s'.world.db.processedGroups, g ∈ s.world.db.processedGroups ∨ ∃ x ∈ known, Artifact p s' g x)
    (hbatches : ∀ b ∈ s'.world.db.batches, b ∈ s.world.db.batches ∨ Batched p s b)
    (hlive : alive' = true → ∀ f ∈ s.queue.batches, f.1 ∈ s'.world.db.batches.map (·.artifactPath)) :
    Consistent p known alive' s' := by
  refine ⟨hreg, fun g hg => ?_, fun b hb => ?_, hq ▸ h.groupFiles, hq ▸ h.batchFiles, hq ▸ hlive, ?_⟩
  · rcases hgroups g hg with hold | hnew
    · obtain ⟨x, hx, ha⟩ := h.groups g hold
      obtain ⟨policy, hp, hs⟩ := ha.stamped
      exact ⟨x, hx, ha.group, ha.path, ha.digest, ha.size, hq ▸ ha.file, ⟨policy, hpol hp, hs⟩, ha.count⟩
    · exact hnew
  · rcases hbatches b hb with hold | hnew
    · exact (h.batches b hold).of_read (by rw [hq])
    · exact hnew.of_read (by rw [hq])
  · rw [hq, hdrawn]
    exact h.incoming

/-- The files are as they were, where only the tables moved. -/
theorem Moves.of_records (hq : s'.queue = s.queue) (h : s.world.db.toTables.Records s'.world.db.toTables) :
    Moves s s' := ⟨h, fun r _ => by rw [hq]⟩

/-- **What others ask of the repository** leaves the training tables alone. -/
theorem Consistent.call {step : Step} (h : Consistent p known alive s) (hc : step.call.trainingBody = none)
    (hv : ∀ m ∈ step.call.manifests, m.Valid p.env.codec) :
    Consistent p known alive { s with world := step.run p.env s.world } ∧
      Moves s { s with world := step.run p.env s.world } := by
  have hw : Regular p.env { s.world with crashAfter := step.crashAfter, torn := step.torn } := h.regular.of_db rfl rfl
  obtain ⟨hreg, hpol⟩ := perform_regular hv hw
  have hsame := fun k hk => perform_untouched p.env hc
    { s.world with crashAfter := step.crashAfter, torn := step.torn } (k := k) hk
  have hgroups : (step.run p.env s.world).db.processedGroups = s.world.db.processedGroups :=
    hsame .processedGroups (by decide)
  have hbatches : (step.run p.env s.world).db.batches = s.world.db.batches := hsame .batches (by decide)
  constructor
  · refine h.tables rfl rfl hreg hpol.subset (fun g hg => Or.inl (hgroups ▸ hg)) (fun b hb => Or.inl (hbatches ▸ hb))
      fun ha f hf => ?_
    change f.1 ∈ (step.run p.env s.world).db.batches.map (·.artifactPath)
    rw [hbatches]
    exact h.live ha f hf
  · obtain ⟨now, hbooked⟩ := step_booked p.env step s.world
    exact .of_records rfl hbooked.records

end Queue
end Aether
