import AetherRl.RepoPolicies
/-!
# RepoCarried — the manifests assignments carry

An assignment carries its policy's manifest beside the id its row refers to.  Every manifest that comes in is valid, and
a new group is stamped with the manifest of the active policy, so every assignment carries a valid one.
-/
namespace Aether

open Txn (Returns)
open Tables Repo

variable {now : Time} {d d' : Db} {env : Env} {c : Codec}

/-- Every assignment carries a valid manifest. -/
def Tables.Carried (c : Codec) (t : Tables) : Prop := ∀ a ∈ t.assignments, a.assignment.policy.Valid c

theorem Tables.Carried.of_fixed (h : d.toTables.Carried c)
    (hf : d'.assignments.map AssignmentRow.fixed = d.assignments.map AssignmentRow.fixed) : d'.toTables.Carried c := by
  intro a ha
  obtain ⟨b, hb, he⟩ := List.mem_map.1 (hf ▸ List.mem_map_of_mem ha : a.fixed ∈ d.assignments.map AssignmentRow.fixed)
  have hsame : b.assignment = a.assignment := congrArg (·.assignment) he
  exact hsame ▸ h b hb

theorem Created.carried {g : GroupRow} {as : List RolloutAssignment} {n : Nat} (hd : d.toTables.Carried c)
    (h : Created d.toTables d'.toTables g (as.map (newRow env n))) (has : ∀ a ∈ as, a.policy.Valid c) :
    d'.toTables.Carried c := by
  intro a ha
  rw [h.assignments, List.mem_append] at ha
  rcases ha with ha | ha
  · exact hd a ha
  · obtain ⟨b, hb, rfl⟩ := List.mem_map.1 ha
    exact has b hb

theorem createNextGroupBody_carried {kind : Option Kind} {ids : Nat → OpaqueId} {artifacts : Artifacts} {t : Time}
    {r : Option CreatedGroup} (hf : Filed env.codec d.toTables) (hd : d.toTables.Carried env.codec)
    (h : Returns (createNextGroupBody env kind ids artifacts t) d r d') : d'.toTables.Carried env.codec := by
  cases returns_createNextGroupBody h with
  | idle => exact hd
  | existing source hs g hg r _ h =>
    exact hd.of_fixed (writes_existingGroup (S := [.sources]) _ _ _ (by decide) _ _ _ h .fixedAssignments (by decide))
  | made source hs hg active ha hid hdigest task htask r _ h =>
    obtain ⟨⟨as, has, hc⟩, _⟩ := returns_newGroup h
    refine hc.carried hd fun a ham => ?_
    obtain ⟨_, _, hmem, _⟩ := run_of_activePolicy? ha
    rw [(has a ham).1]
    exact (hf.policies active hmem).valid

/-- **Every commit keeps it**, where what comes in is valid. -/
theorem commit_carried {c : Call} (hf : Filed env.codec d.toTables) (hd : d.toTables.Carried env.codec)
    (hv : ∀ m ∈ c.manifests, m.Valid env.codec) (h : Commit env now d d' c) : d'.toTables.Carried env.codec := by
  by_cases hc : .fixedGroups ∈ c.writes
  · cases c
    case createNextGroup =>
      obtain ⟨_, h⟩ := h
      exact createNextGroupBody_carried hf hd h
    case createGroup as n =>
      obtain ⟨first, rest, rfl, hi, hg, u, h⟩ := h
      obtain ⟨hc, _⟩ := returns_createGroupBody hi (groupId_of_inputs hg) h
      refine hc.carried hd fun a ha => hv _ ?_
      exact List.mem_map_of_mem ((Rows.mem_orderBy _ _ _).1 ha)
    case leaseOrCreateNextCompatible =>
      rcases h with ⟨_, _, _, h⟩ | ⟨_, h⟩ | ⟨_, h⟩
      · exact hd.of_fixed (writes_leaseNextBody (S := .requests :: .fixedLeases :: reapTables) env _ _ _ now (by decide)
          (by decide) (by decide) _ _ _ h .fixedAssignments (by decide))
      · exact hd.of_fixed (writes_leaseRequestCanGenerateBody (S := []) _ _ _ _ _ h .fixedAssignments List.not_mem_nil)
      · exact createNextGroupBody_carried hf hd h
    all_goals exact absurd hc (by simp only [Call.writes]; decide)
  · have hno : Table.fixedAssignments ∉ c.writes := by
      revert hc
      cases c <;> simp only [Call.writes] <;> decide
    exact hd.of_fixed (commit_rows h .fixedAssignments hno)

end Aether
