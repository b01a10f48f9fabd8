import AetherRl.RepoLife
/-!
# RepoAdvance — every transaction moves lives forward and keeps its groups in sync

`Sound` is what holds between transactions: every life is well formed, a group is ready exactly when all its assignments
are over, and a group's assignments carry its indices.  `Advances` is where a transaction leads: each life moves, and
only in the groups named.  Inside a transaction a group may be out of sync for a while; `SyncedBut` says which ones, and
recomputing a group takes it out.
-/
namespace Aether

open Txn (Returns Writes Evolves forEach_keyed returns_bind returns_pure returns_map returns_orThrow returns_orRaise
  returns_raiseIf returns_throw forEach_cons forEach_nil)
open Tables Repo
open Life (Moves Move)

/-! ## The invariant and the order -/

/-- Every assignment of the group is over. -/
def Tables.AllOver (t : Tables) (g : OpaqueId) : Prop :=
  ∀ i x, t.life? i = some x → x.row.groupId = g → x.row.state.terminal = true

/-- **Outside `D`, a group is ready exactly when all its assignments are over.** -/
def SyncedBut (D : OpaqueId → Prop) (t : Tables) : Prop :=
  ∀ r ∈ t.groups, ¬ D r.groupId → (r.state = .ready ↔ t.AllOver r.groupId)

abbrev Synced (t : Tables) : Prop := SyncedBut (fun _ => False) t

structure Sound (now : Time) (t : Tables) : Prop where
  wf : ∀ i x, t.life? i = some x → x.Wf now
  synced : Synced t
  roster : ∀ r ∈ t.groups, ∀ k, k < r.groupSize ↔
    ∃ i x, t.life? i = some x ∧ x.row.groupId = r.groupId ∧ x.row.groupIndex = k

/-- **Each life moves**, and only in the groups `G`; none appears. -/
structure Advances (now : Time) (G : OpaqueId → Prop) (t t' : Tables) : Prop where
  absent : ∀ i, t.life? i = none → t'.life? i = none
  moved : ∀ i x, t.life? i = some x → ∃ y, t'.life? i = some y ∧ Moves now x y ∧ (G x.row.groupId ∨ y = x)

theorem fixed_groupId {a b : AssignmentRow} (h : a.fixed = b.fixed) : a.groupId = b.groupId := congrArg (·.groupId) h

section
variable {now : Time} {G G' : OpaqueId → Prop} {t t' t'' : Tables}

theorem Advances.of_same (h : t'.life? = t.life?) : Advances now G t t' :=
  ⟨fun _ hi => h ▸ hi, fun _ x hx => ⟨x, h ▸ hx, .refl, Or.inr rfl⟩⟩

theorem Advances.refl (t : Tables) : Advances now G t t := .of_same rfl

theorem Advances.mono (h : Advances now G t t') (hg : ∀ g, G g → G' g) : Advances now G' t t' :=
  ⟨h.absent, fun i x hx => by
    obtain ⟨y, hy, hm, hs⟩ := h.moved i x hx
    exact ⟨y, hy, hm, hs.imp_left (hg _)⟩⟩

theorem Advances.trans (h₁ : Advances now G t t') (h₂ : Advances now G t' t'') : Advances now G t t'' := by
  refine ⟨fun i hi => h₂.absent i (h₁.absent i hi), fun i x hx => ?_⟩
  obtain ⟨y, hy, hm, hs⟩ := h₁.moved i x hx
  obtain ⟨z, hz, hn, hr⟩ := h₂.moved i y hy
  refine ⟨z, hz, hm.trans hn, ?_⟩
  rw [fixed_groupId hm.fixed] at hr
  rcases hs with hs | rfl
  · exact Or.inl hs
  · exact hr

/-- The life an advanced table holds came from one before. -/
theorem Advances.before (h : Advances now G t t') {i : OpaqueId} {y : Life} (hy : t'.life? i = some y) :
    ∃ x, t.life? i = some x ∧ Moves now x y ∧ (G x.row.groupId ∨ y = x) := by
  cases hx : t.life? i with
  | none => rw [h.absent i hx] at hy; cases hy
  | some x =>
    obtain ⟨y', hy', hm, hs⟩ := h.moved i x hx
    rw [hy, Option.some.injEq] at hy'
    exact ⟨x, rfl, hy' ▸ hm, hy' ▸ hs⟩

theorem Advances.wf (h : Advances now G t t') (hw : ∀ i x, t.life? i = some x → x.Wf now) :
    ∀ i x, t'.life? i = some x → x.Wf now := by
  intro i y hy
  obtain ⟨x, hx, hm, _⟩ := h.before hy
  exact (hm.wf_le (hw i x hx)).1

/-- **A group none of whose lives changed is over when it was.** -/
theorem Advances.allOver (h : Advances now G t t') {g : OpaqueId} (hg : ¬ G g) : t'.AllOver g ↔ t.AllOver g := by
  constructor
  · intro ho i x hx hxg
    obtain ⟨y, hy, _, hs⟩ := h.moved i x hx
    rcases hs with hs | rfl
    · exact absurd (hxg ▸ hs) hg
    · exact ho i y hy hxg
  · intro ho i y hy hyg
    obtain ⟨x, hx, hm, hs⟩ := h.before hy
    rcases hs with hs | rfl
    · exact absurd (hyg ▸ (fixed_groupId hm.fixed) ▸ hs) hg
    · exact ho i y hx hyg

theorem SyncedBut.advance {D : OpaqueId → Prop} (h : SyncedBut D t) (ha : Advances now G t t')
    (hg : t'.groups = t.groups) : SyncedBut (fun g => D g ∨ G g) t' := by
  intro r hr hd
  rw [not_or] at hd
  rw [ha.allOver hd.2]
  exact h r (hg ▸ hr) hd.1

theorem mem_fixed {l l' : List GroupRow} (h : l'.map GroupRow.fixed = l.map GroupRow.fixed) {r : GroupRow}
    (hr : r ∈ l') : ∃ r₀ ∈ l, r₀.groupId = r.groupId ∧ r₀.groupSize = r.groupSize := by
  obtain ⟨r₀, h₀, hf⟩ := Life.mem_of_map_eq h hr
  exact ⟨r₀, h₀, congrArg (·.groupId) hf, congrArg (·.groupSize) hf⟩

/-- **An advance that ends in sync keeps the invariant.** -/
theorem Sound.advance (h : Sound now t) (ha : Advances now G t t')
    (hg : t'.groups.map GroupRow.fixed = t.groups.map GroupRow.fixed) (hs : Synced t') : Sound now t' := by
  refine ⟨ha.wf h.wf, hs, fun r hr k => ?_⟩
  obtain ⟨r₀, h₀, hid, hsize⟩ := mem_fixed hg hr
  rw [← hid, ← hsize, h.roster r₀ h₀ k]
  constructor
  · rintro ⟨i, x, hx, hxg, hxk⟩
    obtain ⟨y, hy, hm, _⟩ := ha.moved i x hx
    exact ⟨i, y, hy, (fixed_groupId hm.fixed).trans hxg, (congrArg (·.groupIndex) hm.fixed).trans hxk⟩
  · rintro ⟨i, y, hy, hyg, hyk⟩
    obtain ⟨x, hx, hm, _⟩ := ha.before hy
    exact ⟨i, x, hx, (fixed_groupId hm.fixed).symm.trans hyg, (congrArg (·.groupIndex) hm.fixed).symm.trans hyk⟩

end

/-! ## One life moves -/

/-- **Only the life of `i` moved.** -/
def Moved (now : Time) (i : OpaqueId) (t t' : Tables) : Prop :=
  (∀ j, j ≠ i → t'.life? j = t.life? j) ∧ ∃ x y, t.life? i = some x ∧ t'.life? i = some y ∧ Moves now x y

theorem Changes.moved {now : Time} {i : OpaqueId} {f : Life → Life} {t t' : Tables} (h : Changes i f t t') {x : Life}
    (hx : t.life? i = some x) (hm : Moves now x (f x)) : Moved now i t t' :=
  ⟨fun _ hj => h.other hj, x, f x, hx, h.at hx, hm⟩

theorem Moved.advances {now : Time} {i : OpaqueId} {t t' : Tables} (h : Moved now i t t') {x : Life}
    (hx : t.life? i = some x) : Advances now (fun g => g = x.row.groupId) t t' := by
  obtain ⟨hsame, x', y, hx', hy, hm⟩ := h
  rw [hx, Option.some.injEq] at hx'
  subst hx'
  refine ⟨fun j hj => ?_, fun j z hz => ?_⟩
  · have hji : j ≠ i := by
      rintro rfl
      rw [hx] at hj
      cases hj
    rw [hsame j hji]
    exact hj
  · by_cases hji : j = i
    · subst hji
      rw [hx, Option.some.injEq] at hz
      subst hz
      exact ⟨y, hy, hm, Or.inl rfl⟩
    · exact ⟨z, by rw [hsame j hji]; exact hz, .refl, Or.inr rfl⟩

/-- **The owner of a lease is the assignment whose life holds it.** -/
theorem lease_owner {t : Tables} (hk : SchemaOk t) {i k : OpaqueId} {x : Life} (hx : t.life? i = some x)
    (hl : ∃ l ∈ x.leases, l.leaseId = k) : ∀ l ∈ t.leases, l.leaseId = k → l.assignmentId = i := by
  intro l hlt hlk
  obtain ⟨m, hm, hmk⟩ := hl
  obtain ⟨hmt, hmi⟩ := (mem_life_leases hx).1 hm
  rw [Rows.eq_of_key _ hk.leases.key hlt hmt (hlk.trans hmk.symm)]
  exact hmi

/-! ## Group readiness -/

theorem openAssignments_length (d : Db) (g : OpaqueId) :
    (openAssignments d.toTables g).length = 0 ↔ d.AllOver g := by
  rw [List.length_eq_zero_iff, openAssignments, List.filter_eq_nil_iff]
  constructor
  · intro h i x hx hg
    obtain ⟨ha, hi⟩ := life_row hx
    have hm := h x.row (Rows.mem_of_get _ ha)
    simpa [hg] using hm
  · intro h a ha
    have ht : a.groupId = g → a.state.terminal = true := h a.assignmentId _ (life?_of_mem d.ok ha)
    simp only [Bool.and_eq_true, decide_eq_true_eq, Bool.not_eq_true', not_and]
    intro hg
    rw [ht hg]
    simp

theorem returns_recomputeGroup {g : OpaqueId} {d d' : Db} {u : Unit} (h : Returns (recomputeGroup g) d u d') :
    d'.toTables = setGroup g (fun r => { r with
      state := if (openAssignments d.toTables g).length = 0 then .ready else .collecting }) d.toTables := by
  simp only [recomputeGroup, returns_bind, returns_tables, returns_exec] at h
  obtain ⟨t, d₁, ⟨rfl, rfl⟩, h⟩ := h
  exact h

theorem life?_recomputeGroup {g : OpaqueId} {d d' : Db} {u : Unit} (h : Returns (recomputeGroup g) d u d') :
    d'.life? = d.life? := by
  rw [returns_recomputeGroup h]
  rfl

/-- **Recomputing a group puts it in sync.** -/
theorem SyncedBut.recompute {D : OpaqueId → Prop} {g : OpaqueId} {d d' : Db} {u : Unit} (hs : SyncedBut D d.toTables)
    (h : Returns (recomputeGroup g) d u d') : SyncedBut (fun k => D k ∧ k ≠ g) d'.toTables := by
  have hl := life?_recomputeGroup h
  have hall : ∀ k, d'.AllOver k ↔ d.AllOver k := by
    intro k
    simp only [Tables.AllOver, hl]
  intro r hr hd
  rw [hall]
  rw [returns_recomputeGroup h] at hr
  rcases (Rows.mem_set _).1 hr with ⟨r₀, _, hk, rfl⟩ | ⟨hr, hk⟩
  · rw [← openAssignments_length d r₀.groupId, hk]
    simp only
    split
    · rename_i h0; simp [h0]
    · rename_i h0; simp [h0]
  · exact hs r hr (fun hD => hd ⟨hD, hk⟩)

theorem groupIds_recomputeGroup {g : OpaqueId} {d d' : Db} {u : Unit} (h : Returns (recomputeGroup g) d u d') :
    d'.groups.map (·.groupId) = d.groups.map (·.groupId) := by
  rw [returns_recomputeGroup h]
  apply Rows.map_set
  intro _ _ _
  rfl

theorem forEach_recomputeGroup : ∀ (gs : List OpaqueId) (D : OpaqueId → Prop) (d : Db) (u : Unit) (d' : Db),
    SyncedBut D d.toTables → Returns (Txn.forEach gs recomputeGroup) d u d' →
    SyncedBut (fun k => D k ∧ k ∉ gs) d'.toTables ∧ d'.life? = d.life? ∧
      d'.groups.map (·.groupId) = d.groups.map (·.groupId)
  | [], D, d, u, d', hs, h => by
    rw [forEach_nil, returns_pure] at h
    rw [h.2]
    exact ⟨fun r hr hd => hs r hr (fun hD => hd ⟨hD, List.not_mem_nil⟩), rfl, rfl⟩
  | g :: gs, D, d, u, d', hs, h => by
    rw [forEach_cons, returns_bind] at h
    obtain ⟨_, d₁, h₁, h₂⟩ := h
    obtain ⟨hs', hl, hg⟩ := forEach_recomputeGroup gs _ d₁ u d' (hs.recompute h₁) h₂
    refine ⟨fun r hr hd => hs' r hr (fun hD => hd ⟨hD.1.1, ?_⟩), hl.trans (life?_recomputeGroup h₁),
      hg.trans (groupIds_recomputeGroup h₁)⟩
    rw [List.mem_cons, not_or]
    exact ⟨hD.1.2, hD.2⟩

/-- **Recomputing every group leaves all of them in sync**, whatever they were. -/
theorem synced_recomputeGroups {d d' : Db} {u : Unit} (h : Returns recomputeGroups d u d') :
    Synced d'.toTables ∧ d'.life? = d.life? := by
  simp only [recomputeGroups, returns_bind, returns_tables] at h
  obtain ⟨t, d₁, ⟨rfl, rfl⟩, h⟩ := h
  have h0 : SyncedBut (fun _ => True) d₁.toTables := fun _ _ hd => absurd trivial hd
  obtain ⟨hs, hl, hg⟩ := forEach_recomputeGroup _ _ d₁ u d' h0 h
  refine ⟨fun r hr _ => hs r hr (fun hD => hD.2 ?_), hl⟩
  rw [Rows.mem_orderBy, ← hg]
  exact List.mem_map_of_mem hr

end Aether
