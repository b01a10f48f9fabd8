import AetherRl.RepoWrites
/-!
# RepoSpool — what a publication leaves in the spool

A publication only adds to the results directory, wherever it dies; when it returns, its digest names a file with its
data, or one of the same length and digest.  Publishing what is there again changes nothing.
-/
namespace Aether

open Txn (Keeps Wp method_bind)
open Repo

variable {env : Env} {w w' : World} {α β : Type}

/-- The file's contents in the results directory. -/
def World.result? (w : World) (name : String) : Option Bytes := Spool.read w.spool.results name

theorem Spool.read_append {files : List (String × Bytes)} {name : String} {f : String × Bytes} :
    Spool.read (files ++ [f]) name = (Spool.read files name).or (if f.1 = name then some f.2 else none) := by
  unfold Spool.read
  rw [Rows.get_append]
  cases Rows.get Prod.fst name files with
  | some r => rfl
  | none =>
    rw [Option.none_or, Option.map_none, Option.none_or]
    split <;> rfl

theorem Spool.read_filter {files : List (String × Bytes)} {p : String → Bool} {name : String} (h : p name = true) :
    Spool.read (files.filter (fun f => p f.1)) name = Spool.read files name := by
  unfold Spool.read Rows.get
  rw [List.find?_filter]
  congr 2
  funext f
  by_cases hf : f.1 = name
  · simp [hf, h]
  · simp [hf]

theorem Spool.read_set {files : List (String × Bytes)} {name : String} {data : Bytes}
    (h : (Spool.read files name).isSome) :
    Spool.read (Rows.set Prod.fst name (fun f => (f.1, data)) files) name = some data := by
  unfold Spool.read at *
  rw [Rows.get_set Prod.fst (f := fun f => (f.1, data)) (fun _ _ _ => rfl), if_pos rfl]
  rw [Option.isSome_map] at h
  obtain ⟨f, hf⟩ := Option.isSome_iff_exists.1 h
  rw [hf]
  rfl

theorem Spool.read_eq_none {files : List (String × Bytes)} {name : String} :
    Spool.read files name = none ↔ ∀ f ∈ files, f.1 ≠ name := by
  rw [Spool.read, Option.map_eq_none_iff, Rows.get_eq_none]

/-! ## Steps on the spool -/

theorem wp_spoolStep {f : Spool → Nat → Except Error Spool} {Q : Unit → World → Prop} {E : Error → World → Prop}
    (hq : ∀ s n, f w.spool w.torn = .ok s → Q () { w with spool := s, crashAfter := n })
    (he : ∀ e n, E e { w with crashAfter := n }) : Wp (spoolStep f) Q E w := by
  unfold spoolStep Wp
  rcases durable_cases _ w with h | ⟨n, h⟩ <;> rw [h]
  · exact he .crash w.crashAfter
  · cases hf : f w.spool w.torn with
    | error e => exact he e n
    | ok s => exact hq s n hf

/-- The cleanup runs after everything but a crash. -/
theorem tryFinally_eq {body : Method α} {cleanup : Method Unit} {r : Except Error α} (hb : body w = (r, w'))
    (hr : r ≠ .error .crash) : tryFinally body cleanup w = match cleanup w' with
      | (.error e, w'') => (.error e, w'')
      | (.ok (), w'') => (r, w'') := by
  unfold tryFinally
  rw [hb]
  split
  · rename_i h
    cases h
    exact absurd rfl hr
  · rename_i h
    cases h
    rfl

theorem wp_tryFinally {body : Method α} {cleanup : Method Unit} {Q : α → World → Prop} {E : Error → World → Prop}
    (h : Wp body (fun a w' => Wp cleanup (fun _ => Q a) E w') (fun e w' => E e w' ∧ Wp cleanup (fun _ => E e) E w') w) :
    Wp (tryFinally body cleanup) Q E w := by
  cases hb : body w with
  | mk r w₁ =>
    unfold Wp at h
    rw [hb] at h
    by_cases hr : r = .error .crash
    · subst hr
      unfold Wp tryFinally
      rw [hb]
      exact h.1
    · unfold Wp
      rw [tryFinally_eq hb hr]
      cases r with
      | ok a =>
        cases hc : cleanup w₁ with
        | mk rc w₂ =>
          dsimp only at h
          rw [hc] at h
          cases rc <;> exact h
      | error e =>
        replace h := h.2
        cases hc : cleanup w₁ with
        | mk rc w₂ =>
          rw [hc] at h
          cases rc <;> exact h

/-! ## A publication -/

/-- Every file of the results directory is there still. -/
def World.FilesKept (w w' : World) : Prop := ∀ name data, w.result? name = some data → w'.result? name = some data

theorem World.FilesKept.of_results (h : w'.spool.results = w.spool.results) : w.FilesKept w' := by
  intro name data hd
  rw [World.result?, h]
  exact hd

/-- Every file is there still, and a new one has the contents `data`. -/
structure World.Publishes (data : Bytes) (w w' : World) : Prop where
  kept : w.FilesKept w'
  new : ∀ f ∈ w'.spool.results, f ∈ w.spool.results ∨ f.2 = data

theorem World.Publishes.of_results {data : Bytes} (h : w'.spool.results = w.spool.results) : w.Publishes data w' :=
  ⟨.of_results h, fun _ hf => Or.inl (h ▸ hf)⟩

/-- **A link adds a file or finds one there.** -/
theorem linkResult_ok {digest : Digest} {temporary final : String} {data : Bytes} {s s' : Spool}
    (h : (match Spool.read s.results final, Spool.read s.incoming temporary with
      | some present, _ =>
        if present.length = data.length ∧ env.codec.sha256 present = digest then .ok s
        else .error .immutableArtifactConflict
      | none, some written => .ok { s with results := s.results ++ [(final, written)] }
      | none, none => .error (.value "no such file") : Except Error Spool) = .ok s') :
    (s' = s ∧ ∃ present, Spool.read s.results final = some present ∧ present.length = data.length ∧
      env.codec.sha256 present = digest) ∨
    (Spool.read s.results final = none ∧ ∃ written, Spool.read s.incoming temporary = some written ∧
      s' = { s with results := s.results ++ [(final, written)] }) := by
  split at h
  · rename_i present hp
    split at h
    · rename_i hc
      exact Or.inl ⟨(Except.ok.inj h).symm, present, hp, hc.1, hc.2⟩
    · cases h
  · rename_i written hp hw
    exact Or.inr ⟨hp, written, hw, (Except.ok.inj h).symm⟩
  · cases h

/-- **A publication only adds its data**, wherever it ends; when it returns, its name has the data or a file of the same
length and digest. -/
theorem wp_publishResult (env : Env) (digest : Digest) (data : Bytes) (suffix temporary : String) (w : World) :
    Wp (publishResult env digest data suffix temporary)
      (fun path w' => w.Publishes data w' ∧ path = resultsPrefix ++ (hexOf digest ++ suffix) ∧ ∃ stored,
        w'.result? (hexOf digest ++ suffix) = some stored ∧ (stored = data ∨ env.codec.sha256 stored = digest))
      (fun _ w' => w.Publishes data w') w := by
  simp only [publishResult, Txn.wp_bind, wp_raiseUnless]
  refine ⟨fun _ => ⟨fun _ => ?_, fun _ => .of_results rfl⟩, fun _ => .of_results rfl⟩
  refine wp_spoolStep (fun s₁ n₁ h₁ => ?_) fun _ _ => .of_results rfl
  have hin : s₁.results = w.spool.results ∧ Spool.read s₁.incoming temporary = some [] := by
    split at h₁
    · cases h₁
    · rename_i hno
      rw [← Except.ok.inj h₁]
      rw [Option.not_isSome_iff_eq_none] at hno
      refine ⟨rfl, ?_⟩
      rw [Spool.read_append, hno, Option.none_or, if_pos rfl]
  refine wp_tryFinally ?_
  simp only [Txn.wp_bind]
  -- a raise is cleaned up after, which leaves the results directory alone
  have hraise : ∀ {w' : World} (e : Error), w.Publishes data w' → w.Publishes data w' ∧
      Wp (unlinkTemporary temporary) (fun _ w'' => w.Publishes data w'') (fun _ w'' => w.Publishes data w'') w' := by
    intro w' e hw
    refine ⟨hw, wp_spoolStep (fun s n hs => ?_) fun _ n => ⟨hw.kept, hw.new⟩⟩
    rw [← Except.ok.inj hs]
    exact ⟨hw.kept, hw.new⟩
  refine wp_spoolStep (fun s₂ n₂ h₂ => ?_) fun e _ => hraise e (.of_results hin.1)
  have h₂r : s₂.results = w.spool.results := by rw [← Except.ok.inj h₂]; exact hin.1
  refine wp_spoolStep (fun s₃ n₃ h₃ => ?_) fun e _ => hraise e (.of_results h₂r)
  have h₃r : s₃.results = w.spool.results := by rw [← Except.ok.inj h₃]; exact h₂r
  have hwritten : Spool.read s₃.incoming temporary = some data := by
    rw [← Except.ok.inj h₃]
    refine Spool.read_set ?_
    rw [← Except.ok.inj h₂, Spool.read_set (by rw [hin.2]; rfl)]
    rfl
  refine wp_spoolStep (fun s₄ n₄ h₄ => ?_) fun e _ => hraise e (.of_results h₃r)
  have hlinked : w.Publishes data { w with spool := s₄ } ∧ ∃ stored,
      Spool.read s₄.results (hexOf digest ++ suffix) = some stored ∧
        (stored = data ∨ env.codec.sha256 stored = digest) := by
    rcases linkResult_ok h₄ with ⟨rfl, present, hp, _, hd⟩ | ⟨hno, written, hw, rfl⟩
    · exact ⟨.of_results h₃r, present, hp, Or.inr hd⟩
    · have he : written = data := Option.some.inj (hw.symm.trans hwritten)
      have hno' : Spool.read s₃.results (hexOf digest ++ suffix) = none := hno
      refine ⟨⟨fun name stored hd => ?_, fun f hf => ?_⟩, data, ?_, Or.inl rfl⟩
      · show Spool.read (s₃.results ++ [_]) name = some stored
        rw [Spool.read_append, h₃r, show Spool.read w.spool.results name = some stored from hd, Option.some_or]
      · rcases List.mem_append.1 hf with hf | hf
        · exact Or.inl (h₃r ▸ hf)
        · rw [List.mem_singleton] at hf
          exact Or.inr (by rw [hf, he])
      · show Spool.read (s₃.results ++ [(hexOf digest ++ suffix, written)]) _ = _
        rw [Spool.read_append, hno', Option.none_or, if_pos rfl, he]
  refine wp_spoolStep (fun s₅ n₅ h₅ => ?_) fun _ n => ⟨hlinked.1.kept, hlinked.1.new⟩
  rw [← Except.ok.inj h₅]
  exact ⟨⟨hlinked.1.kept, hlinked.1.new⟩, rfl, hlinked.2⟩

end Aether
