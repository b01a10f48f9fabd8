import AetherRl.QueueBatch
/-!
# QueueRecovery — the start of a processor

`recover` keeps the files that a record refers to and unlinks the others, one by one.  Wherever it dies on the way, what
is recorded reads as before, so that the next start finds what this one did.
-/
namespace Aether
namespace Queue

open Repo

variable {F : Type} {p : Processor F} {known : List (ProcessedGroupPayload F)} {alive alive' : Bool} {s s' : Store}

/-- The paths that the database refers to. -/
def referenced (t : Tables) : List String := (artifactRecords t).map (·.artifactPath)

theorem referenced_group {t : Tables} {g : ProcessedGroupRow} (hg : g ∈ t.processedGroups) :
    g.artifactPath ∈ referenced t := by
  refine List.mem_map.2 ⟨_, List.mem_append_left _ (List.mem_map_of_mem hg), rfl⟩

theorem referenced_batch {t : Tables} {b : BatchRow} (hb : b ∈ t.batches) : b.artifactPath ∈ referenced t := by
  refine List.mem_map.2 ⟨_, List.mem_append_right _ (List.mem_map_of_mem hb), rfl⟩

/-! ## Unlinking -/

/-- Some unlinks: of the files, only such as no record refers to are gone. -/
structure Unlinks (t : Tables) (files files' : List (String × Bytes)) : Prop where
  sublist : files'.Sublist files
  read : ∀ path ∈ referenced t, Spool.read files' path = Spool.read files path

theorem unlinkWithin_sublist (doomed : String × Bytes → Bool) :
    ∀ (n : Nat) (files : List (String × Bytes)), (unlinkWithin doomed n files).1.Sublist files
  | n, [] => List.Sublist.refl _
  | n, f :: fs => by
    unfold unlinkWithin
    split
    · cases n with
      | zero => exact List.Sublist.refl _
      | succ n => exact (unlinkWithin_sublist doomed n fs).cons f
    · exact (unlinkWithin_sublist doomed n fs).cons_cons f

theorem read_cons (f : String × Bytes) (fs : List (String × Bytes)) (path : String) :
    Spool.read (f :: fs) path = if f.1 = path then some f.2 else Spool.read fs path := by
  unfold Spool.read Rows.get
  rw [List.find?_cons]
  by_cases h : f.1 = path
  · simp [h]
  · simp [h]

/-- **A file that is not doomed** is read as before, however many unlinks are done. -/
theorem read_unlinkWithin {doomed : String × Bytes → Bool} {path : String} (h : ∀ f, f.1 = path → doomed f = false) :
    ∀ (n : Nat) (files : List (String × Bytes)),
      Spool.read (unlinkWithin doomed n files).1 path = Spool.read files path
  | n, [] => rfl
  | n, f :: fs => by
    unfold unlinkWithin
    by_cases hd : doomed f = true
    · have hne : f.1 ≠ path := fun he => by
        rw [h f he] at hd
        cases hd
      rw [if_pos hd]
      cases n with
      | zero => rfl
      | succ n =>
        change Spool.read (unlinkWithin doomed n fs).1 path = _
        rw [read_unlinkWithin h n fs, read_cons, if_neg hne]
    · rw [if_neg hd, read_cons, read_cons, read_unlinkWithin h n fs]

theorem unlinks_within (t : Tables) (n : Nat) (files : List (String × Bytes)) :
    Unlinks t files (unlinkWithin (fun f => decide (f.1 ∉ referenced t)) n files).1 :=
  ⟨unlinkWithin_sublist _ n files, fun path hp => read_unlinkWithin (fun f he => by simp [he, hp]) n files⟩

theorem unlinks_all (t : Tables) (files : List (String × Bytes)) :
    Unlinks t files (files.filter fun f => decide (f.1 ∈ referenced t)) := by
  refine ⟨List.filter_sublist, fun path hp => ?_⟩
  exact Spool.read_filter (p := fun name => decide (name ∈ referenced t)) (decide_eq_true hp)

theorem Unlinks.refl (t : Tables) (files : List (String × Bytes)) : Unlinks t files files :=
  ⟨List.Sublist.refl _, fun _ _ => rfl⟩

/-- **Unlinking what no record refers to** disturbs nothing. -/
theorem Consistent.unlinks (h : Consistent p known alive s) {q : QueueFiles}
    (hincoming : q.incoming.Sublist s.queue.incoming) (hgroups : Unlinks s.world.db.toTables s.queue.groups q.groups)
    (hbatches : Unlinks s.world.db.toTables s.queue.batches q.batches)
    (hlive : alive' = true → ∀ f ∈ q.batches, f.1 ∈ s.world.db.batches.map (·.artifactPath)) :
    Consistent p known alive' { s with queue := q } ∧ Moves s { s with queue := q } := by
  constructor
  · refine ⟨h.regular, fun g hg => ?_, fun b hb => ?_, fun f hf => h.groupFiles f (hgroups.sublist.subset hf),
      fun f hf => h.batchFiles f (hbatches.sublist.subset hf), hlive, fun f hf => h.incoming f (hincoming.subset hf)⟩
    · obtain ⟨x, hx, ha⟩ := h.groups g hg
      exact ⟨x, hx, ha.of_store rfl (hgroups.read _ (referenced_group hg))⟩
    · exact (h.batches b hb).of_read (hbatches.read _ (referenced_batch hb))
  · refine ⟨.refl _, fun r hr => ?_⟩
    have hp : r.artifactPath ∈ referenced s.world.db.toTables := List.mem_map_of_mem hr
    change q.read r.artifactPath = s.queue.read r.artifactPath
    rw [QueueFiles.read, QueueFiles.read, hgroups.read _ hp, hbatches.read _ hp]

/-! ## Recovery -/

/-- Every record verifies. -/
theorem Consistent.mapM_verify (h : Consistent p known alive s) (incoming : List (String × Bytes)) :
    ∃ found, (artifactRecords s.world.db.toTables).mapM (fun r =>
      verify p.env.codec { s.queue with incoming := incoming } r.artifactPath r.artifactDigest r.sizeBytes) =
      .ok found :=
  Checked.mapM_isOk fun r hr => h.verifies r hr

/-- What a start leaves of the queue. -/
def recovered (s : Store) : Store :=
  let keep := fun (f : String × Bytes) => decide (f.1 ∈ referenced s.world.db.toTables)
  { s with queue := ⟨[], s.queue.groups.filter keep, s.queue.batches.filter keep⟩ }

/-- **A start goes through.** -/
theorem Consistent.recover (h : Consistent p known alive s) : recover p.env.codec s = (.ok (), recovered s) := by
  obtain ⟨found, hfound⟩ := h.mapM_verify []
  unfold Queue.recover
  dsimp only
  rw [hfound]
  rfl

/-- **A start leaves no batch without a record.** -/
theorem Consistent.recovered (h : Consistent p known alive s) :
    Consistent p known true (recovered s) ∧ Moves s (recovered s) := by
  refine h.unlinks (List.nil_sublist _) (unlinks_all _ _) (unlinks_all _ _) fun _ f hf => ?_
  obtain ⟨hmem, hkept⟩ := List.mem_filter.1 hf
  obtain ⟨r, hr, hpath⟩ := List.mem_map.1 (of_decide_eq_true hkept)
  rcases List.mem_append.1 hr with hr | hr <;> obtain ⟨x, hx, rfl⟩ := List.mem_map.1 hr
  · obtain ⟨y, _, ha⟩ := h.groups x hx
    obtain ⟨n, hn⟩ := h.batchFiles f hmem
    exact absurd (hn.symm.trans (hpath.symm.trans ha.path)) (batchPath_ne_groupPath n _)
  · exact List.mem_map.2 ⟨x, hx, hpath⟩

/-- **A start that dies on the way** has unlinked nothing that counts. -/
theorem Consistent.recoverWithin (h : Consistent p known alive s) (n : Nat) :
    Consistent p known false (recoverWithin p.env.codec n s) ∧ Moves s (recoverWithin p.env.codec n s) := by
  obtain ⟨found, hfound⟩ := h.mapM_verify (unlinkWithin (fun _ => true) n s.queue.incoming).1
  unfold Queue.recoverWithin
  dsimp only
  rw [hfound]
  exact h.unlinks (unlinkWithin_sublist _ _ _) (unlinks_within _ _ _) (unlinks_within _ _ _) fun he => by cases he

end Queue
end Aether
