import AetherRl.Numeral
import AetherRl.QueuePublish
import AetherRl.RepoCarried
import AetherRl.RepoCounts
/-!
# QueueConsistent — what holds of the queue and the database at any time

Every recorded artifact is there and reads what was recorded of it.  Of the files that no record refers to, those of
groups are artifacts all the same, under their own digests; those of batches may be anything, but while a processor
lives there are none.
-/
namespace Aether
namespace Queue

open Txn (Wp)
open Repo

variable {F : Type} {p : Processor F} {known : List (ProcessedGroupPayload F)} {alive : Bool} {s s' : Store}

/-- What the queue relies on of what is not its own: the form of a SHA-256 digest, that the artifacts of the run do not
collide and are decoded as they were encoded, and that no `uuid4` is drawn twice. -/
structure Faithful (p : Processor F) (known : List (ProcessedGroupPayload F)) : Prop where
  digest : ∀ data, digestMatches (p.env.codec.sha256 data) = true
  collision : ∀ x ∈ known, ∀ y ∈ known, p.env.codec.sha256 (p.encodeGroup x) = p.env.codec.sha256 (p.encodeGroup y) →
    p.encodeGroup x = p.encodeGroup y
  decode : ∀ x ∈ known, p.decodeGroup (p.encodeGroup x) = some x
  uuid : Function.Injective p.uuid

/-- The digest a payload is published under. -/
def digestOf (p : Processor F) (x : ProcessedGroupPayload F) : Digest := p.env.codec.sha256 (p.encodeGroup x)

def fileOf (p : Processor F) (x : ProcessedGroupPayload F) : String × Bytes :=
  (groupPath (digestOf p x), p.encodeGroup x)

/-! ## Names -/

theorem hexOf_inj {d d' : Digest} (h : digestMatches d = true) (h' : digestMatches d' = true)
    (he : hexOf d = hexOf d') : d = d' := by
  simp only [digestMatches, digestShape, Bool.and_eq_true, decide_eq_true_eq] at h h'
  have hdrop : d.toList.drop 7 = d'.toList.drop 7 := String.ofList_injective he
  have htake : d.toList.take 7 = d'.toList.take 7 := h.1.2.trans h'.1.2.symm
  apply String.toList_inj.1
  rw [← List.take_append_drop 7 d.toList, ← List.take_append_drop 7 d'.toList, htake, hdrop]

theorem groupPath_inj {d d' : Digest} (h : digestMatches d = true) (h' : digestMatches d' = true)
    (he : groupPath d = groupPath d') : d = d' := by
  unfold groupPath at he
  rw [String.append_assoc, String.append_assoc, String.append_right_inj, String.append_left_inj] at he
  exact hexOf_inj h h' he

/-- **The path of a step's batch names the step.** -/
theorem batchPath_inj {n n' : Nat} (he : batchPath n = batchPath n') : n = n' := by
  have hmark : "training-queue/batches/step_" = "training-queue/batches/step" ++ String.singleton '_' := by decide
  have hnat : ∀ k : Nat, toString (k : Int) = toString k := fun _ => rfl
  unfold batchPath at he
  rw [String.append_left_inj, hmark, hnat, hnat] at he
  exact (Numeral.suffix_inj (by decide) he).2

theorem batches_ne_groups {l l' : List Char} :
    "training-queue/batches/step_".toList ++ l ≠ "training-queue/groups/".toList ++ l' := by
  intro h
  have hc := congrArg (List.take 16) h
  rw [List.take_append_of_le_length (by decide), List.take_append_of_le_length (by decide)] at hc
  revert hc
  decide

/-- **No batch is filed where a group is.** -/
theorem batchPath_ne_groupPath (n : Int) (d : Digest) : batchPath n ≠ groupPath d := by
  intro h
  have hl := congrArg String.toList h
  unfold batchPath groupPath at hl
  rw [String.toList_append, String.toList_append, String.toList_append, String.toList_append, List.append_assoc,
    List.append_assoc] at hl
  exact batches_ne_groups hl

/-! ## The invariant -/

/-- The repository's own invariants. -/
structure Regular (env : Env) (w : World) : Prop where
  sound : w.Sound env
  filed : Filed env.codec w.db.toTables
  carried : w.db.toTables.Carried env.codec
  counted : w.db.toTables.Counted

/-- `g` was recorded of the payload `x`, whose artifact is there. -/
structure Artifact (p : Processor F) (s : Store) (g : ProcessedGroupRow) (x : ProcessedGroupPayload F) : Prop where
  group : x.groupId = g.groupId
  path : g.artifactPath = groupPath (digestOf p x)
  digest : g.artifactDigest = digestOf p x
  size : g.sizeBytes = (p.encodeGroup x).length
  file : Spool.read s.queue.groups g.artifactPath = some (p.encodeGroup x)
  stamped : ∃ policy ∈ s.world.db.policies, StampedWith policy x
  count : g.rolloutCount = x.rollouts.length

/-- `b` was recorded under its step's path, and the file there is what was recorded: samples with the step. -/
structure Batched (p : Processor F) (s : Store) (b : BatchRow) : Prop where
  path : b.artifactPath = batchPath b.step
  file : ∃ samples, Spool.read s.queue.batches b.artifactPath = some (p.encodeBatch samples b.step) ∧
    ((p.encodeBatch samples b.step).length : Int) = b.sizeBytes ∧
    p.env.codec.sha256 (p.encodeBatch samples b.step) = b.artifactDigest

structure Consistent (p : Processor F) (known : List (ProcessedGroupPayload F)) (alive : Bool) (s : Store) : Prop where
  regular : Regular p.env s.world
  groups : ∀ g ∈ s.world.db.processedGroups, ∃ x ∈ known, Artifact p s g x
  batches : ∀ b ∈ s.world.db.batches, Batched p s b
  groupFiles : ∀ f ∈ s.queue.groups, ∃ x ∈ known, f = fileOf p x
  batchFiles : ∀ f ∈ s.queue.batches, ∃ n : Int, f.1 = batchPath n
  live : alive = true → ∀ f ∈ s.queue.batches, f.1 ∈ s.world.db.batches.map (·.artifactPath)
  incoming : ∀ f ∈ s.queue.incoming, ∃ i < s.drawn, f.1 = p.uuid i ++ ".tmp"

theorem Consistent.dead (h : Consistent p known alive s) : Consistent p known false s :=
  { h with live := fun he => by cases he }

/-! ## Reading -/

theorem Artifact.read {g : ProcessedGroupRow} {x : ProcessedGroupPayload F} (h : Artifact p s g x) :
    s.queue.read g.artifactPath = some (p.encodeGroup x) := by
  rw [QueueFiles.read, h.file, Option.some_or]

/-- No group has a batch's path. -/
theorem Consistent.groups_free (h : Consistent p known alive s) (n : Int) :
    Spool.read s.queue.groups (batchPath n) = none := by
  refine Spool.read_eq_none.2 fun f hf he => ?_
  obtain ⟨x, _, rfl⟩ := h.groupFiles f hf
  exact batchPath_ne_groupPath n _ he.symm

theorem Consistent.read_batch (h : Consistent p known alive s) {b : BatchRow} (hb : b ∈ s.world.db.batches) :
    ∃ data, s.queue.read b.artifactPath = some data ∧ (data.length : Int) = b.sizeBytes ∧
      p.env.codec.sha256 data = b.artifactDigest := by
  obtain ⟨hpath, samples, hread, hdata⟩ := h.batches b hb
  refine ⟨p.encodeBatch samples b.step, ?_, hdata⟩
  rw [QueueFiles.read, hpath, h.groups_free, Option.none_or, ← hpath, hread]

/-- **Every recorded artifact verifies.** -/
theorem Consistent.verifies (h : Consistent p known alive s) :
    ∀ r ∈ artifactRecords s.world.db.toTables,
      ∃ data, verify p.env.codec s.queue r.artifactPath r.artifactDigest r.sizeBytes = .ok data := by
  intro r hr
  rcases List.mem_append.1 hr with hr | hr
  · obtain ⟨g, hg, rfl⟩ := List.mem_map.1 hr
    obtain ⟨x, _, ha⟩ := h.groups g hg
    exact ⟨_, verify_ok.2 ⟨ha.read, ha.size.symm, ha.digest.symm⟩⟩
  · obtain ⟨b, hb, rfl⟩ := List.mem_map.1 hr
    obtain ⟨data, hread, hlen, hsha⟩ := h.read_batch hb
    exact ⟨data, verify_ok.2 ⟨hread, hlen, hsha⟩⟩

/-- **The path of the next batch is free** while a processor lives. -/
theorem Consistent.next_free (h : Consistent p known true s) :
    s.queue.read (batchPath (nextTrainingBatchStep s.world.db.toTables)) = none := by
  rw [QueueFiles.read, h.groups_free, Option.none_or]
  refine Spool.read_eq_none.2 fun f hf he => ?_
  obtain ⟨b, hb, hpath⟩ := List.mem_map.1 (h.live rfl f hf)
  have hlt := lt_nextTrainingBatchStep hb
  have hpos := s.world.db.ok.batches.step b hb
  obtain ⟨n, hn⟩ := Int.eq_ofNat_of_zero_le hpos.le
  obtain ⟨m, hm⟩ := Int.eq_ofNat_of_zero_le (hpos.le.trans hlt.le)
  rw [(h.batches b hb).path] at hpath
  rw [hn] at hpath hlt
  rw [hm] at he hlt
  have hsame := batchPath_inj (hpath.trans he)
  omega

/-- The temporary name that is drawn next is free. -/
theorem Consistent.fresh (hf : Faithful p known) (h : Consistent p known alive s) :
    Spool.read s.queue.incoming (p.uuid s.drawn ++ ".tmp") = none := by
  refine Spool.read_eq_none.2 fun f hm he => ?_
  obtain ⟨i, hi, hname⟩ := h.incoming f hm
  rw [he, String.append_left_inj] at hname
  exact hi.ne (hf.uuid hname).symm

/-- **A group artifact of one digest is one.** -/
theorem Consistent.content (hf : Faithful p known) (h : Consistent p known alive s) {x : ProcessedGroupPayload F}
    (hx : x ∈ known) {data : Bytes} (hread : s.queue.read (groupPath (digestOf p x)) = some data) :
    Spool.read s.queue.groups (groupPath (digestOf p x)) = some (p.encodeGroup x) ∧ data = p.encodeGroup x := by
  have hgroup : ∀ found, Spool.read s.queue.groups (groupPath (digestOf p x)) = some found →
      found = p.encodeGroup x := by
    intro found hfound
    obtain ⟨f, hget, rfl⟩ := Option.map_eq_some_iff.1 hfound
    obtain ⟨y, hy, rfl⟩ := h.groupFiles f (Rows.mem_of_get _ hget)
    have hkey := Rows.key_of_get _ hget
    exact hf.collision y hy x hx (groupPath_inj (hf.digest _) (hf.digest _) hkey)
  have hbatch : Spool.read s.queue.batches (groupPath (digestOf p x)) = none :=
    Spool.read_eq_none.2 fun f hm he => by
      obtain ⟨n, hn⟩ := h.batchFiles f hm
      exact batchPath_ne_groupPath n _ (hn.symm.trans he)
  rw [QueueFiles.read, hbatch, Option.or_none] at hread
  have hdata := hgroup data hread
  exact ⟨hdata ▸ hread, hdata⟩

/-- **The artifacts are stamped.** -/
theorem Consistent.stamps (hf : Faithful p known) (h : Consistent p known alive s) : Stamped p s := by
  intro g hg data payload hread hdecode
  obtain ⟨x, hx, ha⟩ := h.groups g hg
  rw [ha.read] at hread
  cases hread
  rw [hf.decode x hx] at hdecode
  cases hdecode
  exact ha.stamped

end Queue
end Aether
