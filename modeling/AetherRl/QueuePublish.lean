import AetherRl.QueueRuns
import AetherRl.QueueTurn
import AetherRl.RepoSpool
/-!
# QueuePublish — what a publication leaves, wherever it is cut short

A file comes to its final name whole or not at all: it is written under a name of its own, which is drawn for it and
nothing else, and linked once its contents are there.  A file that has the final name already is verified and stays.
-/
namespace Aether
namespace Queue

open Txn (Wp wp_bind)
open Repo

variable {α : Type} {c : Codec} {uuid : Nat → String} {s s' s'' : Store} {q q' : QueueFiles}

/-! ## Steps of the process -/

section
variable {Q : α → Store → Prop} {E : ProcessError → Store → Prop}

/-- **A step on the queue's files is not begun, or is done whole.** -/
theorem wp_queueStep {f : QueueFiles → Nat → Except ProcessError QueueFiles} {Q : Unit → Store → Prop}
    (hcut : E .crash s)
    (hrun : ∀ n, (∀ q, f s.queue s.world.torn = .ok q →
        Q () { s with world := { s.world with crashAfter := n }, queue := q }) ∧
      ∀ e, f s.queue s.world.torn = .error e → E e { s with world := { s.world with crashAfter := n } }) :
    Wp (queueStep f) Q E s := by
  unfold queueStep live
  rw [wp_bind, wp_onWorld]
  unfold Wp
  rcases durable_cases (fun w => (.ok (), w)) s.world with h | ⟨n, h⟩ <;> rw [h]
  · exact hcut
  · obtain ⟨hok, herr⟩ := hrun n
    simp only [updateQueue]
    cases hf : f s.queue s.world.torn with
    | ok q => exact hok q hf
    | error e => exact herr e hf

/-- **The cleanup follows everything but a crash.** -/
theorem wp_tryFinally {body : Program α} {cleanup : Program Unit}
    (h : Wp body (fun a s' => Wp cleanup (fun _ s'' => Q a s'') E s')
      (fun e s' => (e = .crash → E .crash s') ∧ (e ≠ .crash → Wp cleanup (fun _ s'' => E e s'') E s')) s) :
    Wp (tryFinally body cleanup) Q E s := by
  unfold Wp at h ⊢
  rcases tryFinally_cases body cleanup s with ⟨hr, he⟩ | ⟨hr, he⟩ <;> rw [he] <;>
    generalize body s = r at h hr ⊢ <;> rcases r with ⟨_ | _, s'⟩ <;> simp only at h hr ⊢
  · cases hr
    exact h.1 rfl
  · cases hr
  · have h := h.2 fun he => hr (congrArg _ he)
    generalize cleanup s' = t at h ⊢
    rcases t with ⟨_ | _, s''⟩ <;> exact h
  · generalize cleanup s' = t at h ⊢
    rcases t with ⟨_ | _, s''⟩ <;> exact h

end

/-! ## Publishing -/

/-- The published files are the same. -/
structure SameFiles (q q' : QueueFiles) : Prop where
  groups : q'.groups = q.groups
  batches : q'.batches = q.batches

theorem SameFiles.refl (q : QueueFiles) : SameFiles q q := ⟨rfl, rfl⟩

theorem SameFiles.read (h : SameFiles q q') (path : String) : q'.read path = q.read path := by
  simp only [QueueFiles.read, h.groups, h.batches]

theorem SameFiles.verify (h : SameFiles q q') (path : String) (digest : Digest) (size : Int) :
    verify c q' path digest size = verify c q path digest size := by
  simp only [Queue.verify, h.read]

theorem SameFiles.add (h : SameFiles q q') (file : String × Bytes) (directory : QueueDirectory) :
    SameFiles (q.add file directory) (q'.add file directory) := by
  cases directory <;> exact ⟨by simp [QueueFiles.add, h.groups], by simp [QueueFiles.add, h.batches]⟩

/-- What a file must read to be verified. -/
theorem verify_ok {path : String} {digest : Digest} {size : Int} {data : Bytes} :
    verify c q path digest size = .ok data ↔
      q.read path = some data ∧ (data.length : Int) = size ∧ c.sha256 data = digest := by
  constructor
  · intro h
    have hr := read_of_verify h
    rw [verify, hr] at h
    simp only at h
    split at h
    · cases h
    · split at h
      · cases h
      · rename_i h₁ h₂
        exact ⟨hr, not_not.1 h₁, not_not.1 h₂⟩
  · rintro ⟨hr, hlen, hsha⟩
    simp [verify, hr, hlen, hsha]

/-- The rest of a publication: the name it drew is used up, and nothing else comes to the temporary files. -/
structure Leaves (uuid : Nat → String) (s s' : Store) : Prop where
  db : s'.world.db = s.world.db
  reads : s'.world.reads = s.world.reads
  drawn : s'.drawn = s.drawn + 1
  incoming : ∀ f ∈ s'.queue.incoming, f ∈ s.queue.incoming ∨ f.1 = uuid s.drawn ++ ".tmp"

/-- On the way: the published files are as they were. -/
structure Writing (uuid : Nat → String) (s s' : Store) : Prop extends Leaves uuid s s' where
  files : SameFiles s.queue s'.queue

theorem Writing.crashAfter (h : Writing uuid s s') (n : Option Nat) :
    Writing uuid s { s' with world := { s'.world with crashAfter := n } } :=
  ⟨⟨h.db, h.reads, h.drawn, h.incoming⟩, h.files⟩

/-- Only temporary files of the drawn name change. -/
theorem Writing.incoming_step (h : Writing uuid s s') (n : Option Nat) {files : List (String × Bytes)}
    (hf : ∀ f ∈ files, f ∈ s'.queue.incoming ∨ f.1 = uuid s.drawn ++ ".tmp") :
    Writing uuid s { s' with world := { s'.world with crashAfter := n }, queue := { s'.queue with incoming := files } } :=
  ⟨⟨h.db, h.reads, h.drawn, fun f hm => (hf f hm).elim (h.incoming f) Or.inr⟩, ⟨h.files.groups, h.files.batches⟩⟩

section
variable {E : ProcessError → Store → Prop} {Q : Unit → Store → Prop} {data : Bytes}

/-- A write of a temporary file's contents, torn or whole. -/
theorem wp_write (h : Writing uuid s s') (hcut : ∀ s'', Writing uuid s s'' → E .crash s'') (f : Nat → Bytes)
    (hread : (Spool.read s'.queue.incoming (uuid s.drawn ++ ".tmp")).isSome)
    (hq : ∀ s'', Writing uuid s s'' → (Spool.read s''.queue.incoming (uuid s.drawn ++ ".tmp")) = some (f s'.world.torn) →
      Q () s'') :
    Wp (queueStep fun q torn => .ok
      { q with incoming := Rows.set Prod.fst (uuid s.drawn ++ ".tmp") (fun x => (x.1, f torn)) q.incoming }) Q E s' := by
  refine wp_queueStep (hcut _ h) fun n => ⟨fun q hok => ?_, fun e he => by cases he⟩
  cases hok
  refine hq _ (h.incoming_step n fun x hx => ?_) (Spool.read_set hread)
  obtain ⟨y, hy, rfl⟩ := List.mem_map.1 hx
  by_cases hk : y.1 = uuid s.drawn ++ ".tmp"
  · exact Or.inr (by rw [if_pos hk]; exact hk)
  · exact Or.inl (by rw [if_neg hk]; exact hy)

end

/-- **A publication** adds the file, whole, where its name was free, and verifies the file that has the name; where the
process dies on the way, the file is there, whole, or nothing is. -/
theorem wp_publish {directory : QueueDirectory} {final : String} {digest : Digest} {data : Bytes}
    {Q : String → Store → Prop} {E : ProcessError → Store → Prop} (hdigest : c.sha256 data = digest)
    (hfresh : Spool.read s.queue.incoming (uuid s.drawn ++ ".tmp") = none)
    (hadded : s.queue.read final = none → ∀ s', Leaves uuid s s' →
      SameFiles (s.queue.add (final, data) directory) s'.queue → Q final s')
    (hlinked : s.queue.read final = none → ∀ s', Leaves uuid s s' →
      SameFiles (s.queue.add (final, data) directory) s'.queue → E .crash s')
    (hfound : ∀ found, verify c s.queue final digest data.length = .ok found → ∀ s', Writing uuid s s' → Q final s')
    (hcut : ∀ s', Writing uuid s s' → E .crash s')
    (hbad : ∀ e, s.queue.read final ≠ none → verify c s.queue final digest data.length = .error e →
      ∀ s', Writing uuid s s' → E e s') :
    Wp (publish c uuid directory final digest data) Q E s := by
  set name := uuid s.drawn ++ ".tmp" with hname
  have hunlink : ∀ (R : Unit → Store → Prop) (D : ProcessError → Store → Prop) s',
      (∀ n, R () { s' with world := { s'.world with crashAfter := n }, queue := { s'.queue with
        incoming := s'.queue.incoming.filter (fun f => decide (f.1 ≠ name)) } }) → D .crash s' →
      Wp (unlinkTemporary name) R D s' := fun R D s' hR hD =>
    wp_queueStep hD fun n => ⟨fun q hok => by cases hok; exact hR n, fun e he => by cases he⟩
  have hdrop : ∀ s' : Store, ∀ f ∈ s'.queue.incoming.filter (fun f => decide (f.1 ≠ name)),
      f ∈ s'.queue.incoming ∨ f.1 = uuid s.drawn ++ ".tmp" := fun s' f hf => Or.inl (List.mem_filter.1 hf).1
  unfold publish
  rw [wp_bind, wp_raiseUnless]
  refine ⟨fun _ => ?_, fun h => absurd hdigest h⟩
  rw [wp_bind]
  change Wp _ _ E { s with drawn := s.drawn + 1 }
  have hw₁ : Writing uuid s { s with drawn := s.drawn + 1 } := ⟨⟨rfl, rfl, rfl, fun f hf => Or.inl hf⟩, .refl _⟩
  rw [wp_bind]
  refine wp_queueStep (hcut _ hw₁) fun n => ⟨fun q hok => ?_, fun e he => ?_⟩
  · have hnone : (Spool.read s.queue.incoming name).isSome = false := by rw [hfresh]; rfl
    rw [if_neg (by rw [hnone]; exact Bool.false_ne_true)] at hok
    cases hok
    set s₂ : Store := { s with
      world := { s.world with crashAfter := n }
      queue := { s.queue with incoming := s.queue.incoming ++ [(name, [])] }
      drawn := s.drawn + 1 } with hs₂
    have hw₂ : Writing uuid s s₂ := hw₁.incoming_step n fun f hf => by
      rw [List.mem_append, List.mem_singleton] at hf
      exact hf.imp_right fun h => by rw [h]
    have hread₂ : Spool.read s₂.queue.incoming name = some [] := by
      rw [hs₂]
      simp only [Spool.read_append, hfresh, Option.none_or, if_true]
    rw [wp_bind]
    refine wp_tryFinally ?_
    rw [wp_bind]
    have hdie : ∀ s', Writing uuid s s' → (fun (e : ProcessError) s' => (e = .crash → E .crash s') ∧
        (e ≠ .crash → Wp (unlinkTemporary name) (fun _ s'' => E e s'') E s')) .crash s' :=
      fun s' h => ⟨fun _ => hcut s' h, fun hne => absurd rfl hne⟩
    refine wp_write hw₂ hdie (fun torn => data.take torn) (by rw [hread₂]; rfl) fun s₃ hw₃ hread₃ => ?_
    rw [wp_bind]
    refine wp_write hw₃ hdie (fun _ => data) (by rw [hread₃]; rfl) fun s₄ hw₄ hread₄ => ?_
    refine wp_queueStep (hdie _ hw₄) fun n => ⟨fun q hok => ?_, fun e he => ?_⟩
    · rw [hw₄.files.read, hread₄] at hok
      cases hfinal : s.queue.read final with
      | none =>
        rw [hfinal] at hok
        cases hok
        have hfiles := hw₄.files.add (final, data) directory
        have hincoming : ∀ f ∈ s₄.queue.incoming, f ∈ s.queue.incoming ∨ f.1 = uuid s.drawn ++ ".tmp" := hw₄.incoming
        have hsame : (s₄.queue.add (final, data) directory).incoming = s₄.queue.incoming := by
          cases directory <;> rfl
        refine hunlink _ _ _ (fun m => ?_) ?_
        · refine hadded hfinal _ ⟨hw₄.db, hw₄.reads, hw₄.drawn, fun f hf => ?_⟩ ⟨hfiles.groups, hfiles.batches⟩
          exact hincoming f (hsame ▸ (List.mem_filter.1 hf).1)
        · refine hlinked hfinal _ ⟨hw₄.db, hw₄.reads, hw₄.drawn, fun f hf => ?_⟩ ⟨hfiles.groups, hfiles.batches⟩
          exact hincoming f (hsame ▸ hf)
      | some found =>
        rw [hfinal] at hok
        simp only [hw₄.files.verify] at hok
        cases hv : verify c s.queue final digest data.length with
        | error e =>
          rw [hv] at hok
          cases hok
        | ok found' =>
          rw [hv] at hok
          cases hok
          refine hunlink _ _ _ (fun m => hfound found' hv _ ?_) ?_
          · exact (hw₄.crashAfter n).incoming_step m (hdrop _)
          · exact hcut _ (hw₄.crashAfter n)
    · rw [hw₄.files.read, hread₄] at he
      cases hfinal : s.queue.read final with
      | none =>
        rw [hfinal] at he
        cases he
      | some found =>
        rw [hfinal] at he
        simp only [hw₄.files.verify] at he
        cases hv : verify c s.queue final digest data.length with
        | ok found' =>
          rw [hv] at he
          cases he
        | error e' =>
          rw [hv] at he
          cases he
          have hne : s.queue.read final ≠ none := by rw [hfinal]; exact Option.some_ne_none _
          refine ⟨fun hc => hc ▸ hcut _ (hw₄.crashAfter n), fun _ => hunlink _ _ _ (fun m => ?_) ?_⟩
          · exact hbad _ hne hv _ ((hw₄.crashAfter n).incoming_step m (hdrop _))
          · exact hcut _ (hw₄.crashAfter n)
  · have hnone : (Spool.read s.queue.incoming name).isSome = false := by rw [hfresh]; rfl
    rw [if_neg (by rw [hnone]; exact Bool.false_ne_true)] at he
    cases he

end Queue
end Aether
