import AetherRl.FairShare
import AetherRl.RepoCreations
/-!
# RepoFairness — what each source gets of the groups

`create_next_group` without a kind serves an enabled source whose virtual time is least and adds one share, its group
size over its weight; a source registered late starts at the least virtual time.  So the enabled sources are the clients
of a fair queue, and a source's virtual time counts its samples by its weight.
-/
namespace Aether

open Tables Repo
open FairShare (Client Spread First)

variable {d d' d'' : Db}

/-! ## Sources as clients -/

/-- What one group adds to a source's virtual time. -/
def SourceRow.share (s : SourceRow) : ℚ := s.groupSize / s.weight

def SourceRow.client (s : SourceRow) : Client ℚ := ⟨s.virtualFinish, s.share⟩

/-- The clients of the queue: the enabled sources. -/
def clients (sources : List SourceRow) : Set (Client ℚ) := {c | ∃ s ∈ sources, s.enabled = true ∧ c = s.client}

/-- The largest share of an enabled source. -/
def maxShare (sources : List SourceRow) : ℚ := (((sources.filter (·.enabled)).map SourceRow.share).max?).getD 0

theorem mem_clients {sources : List SourceRow} {s : SourceRow} (hs : s ∈ sources) (he : s.enabled = true) :
    s.client ∈ clients sources := ⟨s, hs, he, rfl⟩

theorem share_nonneg {s : SourceRow} (hs : s ∈ d.sources) : 0 ≤ s.share :=
  div_nonneg (Nat.cast_nonneg _) (d.ok.sources.weight s hs).le

theorem le_maxShare {sources : List SourceRow} {s : SourceRow} (hs : s ∈ sources) (he : s.enabled = true) :
    s.share ≤ maxShare sources := by
  have hm : s.share ∈ (sources.filter (·.enabled)).map SourceRow.share :=
    List.mem_map_of_mem (List.mem_filter.2 ⟨hs, he⟩)
  unfold maxShare
  cases hmax : ((sources.filter (·.enabled)).map SourceRow.share).max? with
  | none =>
    rw [List.max?_eq_none_iff] at hmax
    rw [hmax] at hm
    cases hm
  | some x => exact (List.max?_eq_some_iff.1 hmax).2 _ hm

theorem share_le_maxShare {sources : List SourceRow} : ∀ c ∈ clients sources, c.share ≤ maxShare sources := by
  rintro _ ⟨s, hs, he, rfl⟩
  exact le_maxShare hs he

/-- **Spread sources are close.** -/
theorem virtualFinish_close {sources : List SourceRow} (h : Spread (clients sources)) {a b : SourceRow}
    (ha : a ∈ sources) (hb : b ∈ sources) (hea : a.enabled = true) (heb : b.enabled = true) :
    |a.virtualFinish - b.virtualFinish| ≤ maxShare sources := by
  have hclose := h.close share_le_maxShare (mem_clients ha hea) (mem_clients hb heb)
  exact hclose

/-- **A late source starts at the least virtual time.** -/
theorem minVirtualFinish_first (t : Tables) : (∀ c ∈ clients t.sources, minVirtualFinish t ≤ c.finish) ∧
    ((clients t.sources).Nonempty → ∃ c ∈ clients t.sources, c.finish = minVirtualFinish t) := by
  unfold minVirtualFinish
  cases hmin : ((t.sources.filter (·.enabled)).map (·.virtualFinish)).min? with
  | none =>
    rw [List.min?_eq_none_iff, List.map_eq_nil_iff, List.filter_eq_nil_iff] at hmin
    constructor
    · rintro _ ⟨s, hs, he, _⟩
      exact absurd he (hmin s hs)
    · rintro ⟨_, s, hs, he, _⟩
      exact absurd he (hmin s hs)
  | some x =>
    obtain ⟨hx, hle⟩ := List.min?_eq_some_iff.1 hmin
    constructor
    · rintro _ ⟨s, hs, he, rfl⟩
      exact hle _ (List.mem_map_of_mem (List.mem_filter.2 ⟨hs, he⟩))
    · intro _
      obtain ⟨s, hs, hsx⟩ := List.mem_map.1 hx
      obtain ⟨hs, he⟩ := List.mem_filter.1 hs
      exact ⟨s.client, mem_clients hs he, hsx⟩

/-- **The source served is a first one.** -/
theorem served_first {t : Tables} {s : SourceRow} (h : (servedSources t none).head? = some s) :
    First (clients t.sources) s.client := by
  rintro _ ⟨m, hm, he, rfl⟩
  have hsorted := Rows.orderBy_pairwise (fun s : SourceRow => toLex (s.virtualFinish, s.sourceId))
    (t.sources.filter (fun s => s.enabled && (none : Option Kind).all (fun k => decide (s.kind = k))))
  have hmem : m ∈ servedSources t none := mem_servedSources.2 ⟨hm, he, rfl⟩
  obtain ⟨rest, hrest⟩ := List.head?_eq_some_iff.1 h
  change (servedSources t none).Pairwise _ at hsorted
  rw [hrest] at hsorted hmem
  rcases List.mem_cons.1 hmem with rfl | hmem
  · exact le_rfl
  · have hle := (List.pairwise_cons.1 hsorted).1 m hmem
    rw [Prod.Lex.toLex_le_toLex] at hle
    exact hle.elim le_of_lt fun h => h.1.le

/-! ## Steps -/

/-- **Every step of the log keeps the spread**, unless it serves a kind. -/
theorem LogStep.spread {c : Call} (h : LogStep c d d') (hc : ∀ k, c.serves ≠ some (some k))
    (hs : Spread (clients d.sources)) : Spread (clients d'.sources) := by
  cases h with
  | quiet _ hsrc => rwa [hsrc]
  | registered spec _ _ hsrc =>
    obtain ⟨hfirst, hleast⟩ := minVirtualFinish_first d.toTables
    have hpos : 0 ≤ (spec.row (minVirtualFinish d.toTables) 0).share := by
      apply share_nonneg (d := d')
      rw [hsrc]
      exact List.mem_append_right _ (List.mem_singleton_self _)
    apply hs.join (c := (spec.row (minVirtualFinish d.toTables) 0).client) hfirst hleast hpos
    rintro _ ⟨s, hm, he, rfl⟩
    rw [hsrc, List.mem_append, List.mem_singleton] at hm
    rcases hm with hm | rfl
    · exact Or.inl (mem_clients hm he)
    · exact Or.inr rfl
  | made kind asked source served _ _ _ _ _ _ hsrc =>
    cases kind with
    | some k => exact absurd asked (hc k)
    | none =>
      obtain ⟨hm, he, _⟩ := mem_servedSources.1 (List.mem_of_mem_head? served)
      apply hs.serve (mem_clients hm he) (served_first served) (share_nonneg hm)
      rintro _ ⟨s, hsm, hse, rfl⟩
      rw [hsrc, Rows.mem_set] at hsm
      rcases hsm with ⟨s₀, hs₀, hid, rfl⟩ | ⟨hsm, _⟩
      · rw [Rows.eq_of_key _ d.ok.sources.key hs₀ hm hid]
        exact Or.inr rfl
      · exact Or.inl (mem_clients hsm hse)
  | manual _ _ _ _ _ hsrc => rwa [hsrc]

/-! ## Samples -/

/-- The samples created for a source. -/
def samples (groups : List GroupRow) (i : OpaqueId) : Nat := ((madeBy groups i).map (·.groupSize)).sum

theorem samples_fixed {groups groups' : List GroupRow} (h : groups'.map GroupRow.fixed = groups.map GroupRow.fixed)
    (i : OpaqueId) : samples groups' i = samples groups i := by
  have he := congrArg (fun l => ((madeBy l i).map (·.groupSize)).sum) h
  simp only [madeBy_fixed, List.map_map] at he
  exact he

theorem samples_append (groups : List GroupRow) (g : GroupRow) (i : OpaqueId) :
    samples (groups ++ [g]) i = samples groups i + if g.sourceId = some i then g.groupSize else 0 := by
  unfold samples
  rw [madeBy_append]
  by_cases hg : g.sourceId = some i <;> simp [hg]

/-- Every source is still there, and its virtual time grew by its new samples over its weight. -/
def Gains (d d' : Db) : Prop := ∀ s ∈ d.sources, ∃ s' ∈ d'.sources, s'.fixed = s.fixed ∧
  s'.virtualFinish - s.virtualFinish = ((samples d'.groups s.sourceId : ℚ) - samples d.groups s.sourceId) / s.weight

theorem Gains.refl (d : Db) : Gains d d := fun s hs => ⟨s, hs, rfl, by rw [sub_self, sub_self, zero_div]⟩

theorem Gains.trans (h₁ : Gains d d') (h₂ : Gains d' d'') : Gains d d'' := by
  intro s hs
  obtain ⟨s₁, hs₁, hf₁, hv₁⟩ := h₁ s hs
  obtain ⟨s₂, hs₂, hf₂, hv₂⟩ := h₂ s₁ hs₁
  have hid : s₁.sourceId = s.sourceId := congrArg (·.sourceId) hf₁
  have hw : s₁.weight = s.weight := congrArg (·.weight) hf₁
  rw [hid, hw] at hv₂
  refine ⟨s₂, hs₂, hf₂.trans hf₁, ?_⟩
  calc s₂.virtualFinish - s.virtualFinish
      = (s₂.virtualFinish - s₁.virtualFinish) + (s₁.virtualFinish - s.virtualFinish) := (sub_add_sub_cancel _ _ _).symm
    _ = _ := by rw [hv₁, hv₂, ← add_div, sub_add_sub_cancel]

theorem Gains.same {d d' : Db} (hs : ∀ s ∈ d.sources, s ∈ d'.sources)
    (hg : ∀ s ∈ d.sources, samples d'.groups s.sourceId = samples d.groups s.sourceId) : Gains d d' :=
  fun s hm => ⟨s, hs s hm, rfl, by rw [hg s hm, sub_self, sub_self, zero_div]⟩

/-- **A virtual time counts samples by their weight.** -/
theorem LogStep.gains {c : Call} (h : LogStep c d d') : Gains d d' := by
  cases h with
  | quiet hg hsrc => exact .same (fun s hs => hsrc ▸ hs) fun s _ => samples_fixed hg s.sourceId
  | registered spec _ hg hsrc =>
    exact .same (fun s hs => hsrc ▸ List.mem_append_left _ hs) fun s _ => samples_fixed hg s.sourceId
  | made kind _ source served g hg _ hof hsize _ hsrc =>
    intro s hs
    rw [hg, samples_append]
    by_cases hid : s.sourceId = source.sourceId
    · obtain rfl : s = source := Rows.eq_of_key _ d.ok.sources.key hs (mem_of_served served) hid
      refine ⟨s.next, hsrc ▸ (Rows.mem_set _).2 (Or.inl ⟨s, hs, rfl, rfl⟩), rfl, ?_⟩
      rw [if_pos hof, hsize, Nat.cast_add, add_sub_cancel_left]
      exact add_sub_cancel_left _ _
    · have hne : g.sourceId ≠ some s.sourceId := fun he => hid (Option.some.inj (he.symm.trans hof))
      refine ⟨s, hsrc ▸ (Rows.mem_set _).2 (Or.inr ⟨hs, hid⟩), rfl, ?_⟩
      rw [if_neg hne, Nat.add_zero, sub_self, sub_self, zero_div]
  | manual g hg _ hof _ hsrc =>
    refine .same (fun s hs => hsrc ▸ hs) fun s _ => ?_
    rw [hg, samples_append, hof, if_neg (Option.some_ne_none _).symm, Nat.add_zero]

/-- **Between two spreads the samples of two sources keep to their weights.** -/
theorem Gains.samples_le (h : Gains d d') (hs : Spread (clients d.sources)) (hs' : Spread (clients d'.sources))
    {a b : SourceRow} (ha : a ∈ d.sources) (hb : b ∈ d.sources) (hea : a.enabled = true) (heb : b.enabled = true) :
    |((samples d'.groups a.sourceId : ℚ) - samples d.groups a.sourceId) / a.weight -
      ((samples d'.groups b.sourceId : ℚ) - samples d.groups b.sourceId) / b.weight| ≤ 2 * maxShare d'.sources := by
  obtain ⟨a', ha', hfa, hva⟩ := h a ha
  obtain ⟨b', hb', hfb, hvb⟩ := h b hb
  have henabled : ∀ {s s' : SourceRow}, s'.fixed = s.fixed → s.enabled = true → s'.enabled = true :=
    fun h he => (congrArg (·.enabled) h).trans he
  -- the shares at the start are shares at the end
  have hold : ∀ c ∈ clients d.sources, c.share ≤ maxShare d'.sources := by
    rintro _ ⟨s, hs, he, rfl⟩
    obtain ⟨s', hs', hf, _⟩ := h s hs
    have hshare : s'.share = s.share := congrArg (·.share) hf
    exact hshare.symm.trans_le (le_maxShare hs' (henabled hf he))
  have hgain := hs.gain_le hs' hold share_le_maxShare (mem_clients ha hea) (mem_clients hb heb)
    (mem_clients ha' (henabled hfa hea)) (mem_clients hb' (henabled hfb heb))
  rw [← hva, ← hvb, two_mul]
  exact hgain

/-! ## Every run -/

/-- **A run that serves no single kind keeps the spread.** -/
theorem runFrom_spread (env : Env) (steps : List Step) {w : World}
    (hkind : ∀ s ∈ steps, ∀ k ids artifacts, s.call ≠ .createNextGroup (some k) ids artifacts)
    (h : w.db.Logged ∧ Spread (clients w.db.sources)) :
    ((runFrom env w steps).db.Logged ∧ Spread (clients (runFrom env w steps).db.sources)) ∧
      Gains w.db (runFrom env w steps).db := by
  have hserves : ∀ s ∈ steps, ∀ k, s.call.serves ≠ some (some k) := by
    intro s hs k he
    have hne := hkind s hs k
    cases hcall : s.call <;> rw [hcall] at he hne <;> cases he
    exact hne _ _ rfl
  exact runFrom_holds (I := fun _ d => d.Logged ∧ Spread (clients d.sources)) (R := Gains)
    (fun _ _ _ _ h => h) Gains.refl (fun _ _ _ => Gains.trans) steps w
    (fun s hs _ _ _ hi hc =>
      have hstep := commit_logStep hi.1 hc
      ⟨⟨hstep.logged hi.1, hstep.spread (hserves s hs) hi.2⟩, hstep.gains⟩) h

/-- **Weighted fairness**: in every state reached without a creation for one kind the virtual times of the enabled
sources differ by at most the largest share of one; so over any stretch of the run the samples created for two of them,
each over its weight, differ by at most twice that. -/
theorem samples_fair (env : Env) (steps more : List Step)
    (hkind : ∀ s ∈ steps ++ more, ∀ k ids artifacts, s.call ≠ .createNextGroup (some k) ids artifacts) :
    let w := reached env steps
    let w' := reached env (steps ++ more)
    (∀ a ∈ w.db.sources, ∀ b ∈ w.db.sources, a.enabled = true → b.enabled = true →
      |a.virtualFinish - b.virtualFinish| ≤ maxShare w.db.sources) ∧
    (∀ a ∈ w.db.sources, ∀ b ∈ w.db.sources, a.enabled = true → b.enabled = true →
      |((samples w'.db.groups a.sourceId : ℚ) - samples w.db.groups a.sourceId) / a.weight -
        ((samples w'.db.groups b.sourceId : ℚ) - samples w.db.groups b.sourceId) / b.weight| ≤
        2 * maxShare w'.db.sources) := by
  intro w w'
  have hempty : Spread (clients World.fresh.db.sources) := fun a ⟨s, hs, _⟩ => absurd hs List.not_mem_nil
  have hw : w.db.Logged ∧ Spread (clients w.db.sources) :=
    (runFrom_spread env steps (fun s hs => hkind s (List.mem_append_left _ hs)) ⟨logged_empty, hempty⟩).1
  have happend : w' = runFrom env w more := runFrom_append env World.fresh steps more
  obtain ⟨hw', hgains⟩ := runFrom_spread env more (fun s hs => hkind s (List.mem_append_right _ hs)) hw
  rw [← happend] at hw' hgains
  exact ⟨fun a ha b hb => virtualFinish_close hw.2 ha hb, fun a ha b hb => hgains.samples_le hw.2 hw'.2 ha hb⟩

namespace Sample

/-- A second source, of twice the weight and larger groups. -/
theorem heavyGroup_pos : 0 < 3 := by decide

def heavySource : EnvironmentSourceSpec :=
  { source with
    sourceId := "heavy", groupSize := 3, weight := 2, groupSize_pos := heavyGroup_pos, weight_pos := by decide +kernel }

def createNext (label : String) : Step :=
  step (.createNextGroup none (fun n => label ++ toString n) (fun _ => true))

/-- A run that registers both sources, and one that goes on to create a group for each. -/
def sources : List Step :=
  [.initializeRun policy, .registerSchedulerSource source, .registerSchedulerSource heavySource].map step

def creations : List Step := [createNext "a", createNext "b", createNext "c"]

end Sample

theorem samples_fair_sample :
    let w := reached Sample.env Sample.sources
    let w' := reached Sample.env (Sample.sources ++ Sample.creations)
    (∃ a ∈ w.db.sources, a.enabled = true ∧ 0 < samples w'.db.groups a.sourceId) ∧
      ∀ a ∈ w.db.sources, ∀ b ∈ w.db.sources, a.enabled = true → b.enabled = true →
        |((samples w'.db.groups a.sourceId : ℚ) - samples w.db.groups a.sourceId) / a.weight -
          ((samples w'.db.groups b.sourceId : ℚ) - samples w.db.groups b.sourceId) / b.weight| ≤
          2 * maxShare w'.db.sources := by
  have hkind : ∀ s ∈ Sample.sources ++ Sample.creations, ∀ k ids artifacts,
      s.call ≠ .createNextGroup (some k) ids artifacts := by
    simp [Sample.sources, Sample.creations, Sample.createNext, Sample.step]
  exact ⟨by decide +kernel, (samples_fair Sample.env Sample.sources Sample.creations hkind).2⟩

end Aether
