import ScenarioForest.Proofs.Assertions
import ScenarioForest.Proofs.Emitted
import ScenarioForest.Proofs.Traversal
set_option autoImplicit false

/-!
Both ways of flattening, side by side at a leaf that checks something. They set up and do the same,
and the relaxed one ends in what the strict one checks.
-/

namespace ScenarioForest

section

variable {f : Forest} (h : f.Shaped) {l : Scenario} (hl : l ∈ f.leaves)

include h hl

theorem Forest.Shaped.path_of_leaf : f.path l.id = f.ancestors l.id ++ [l] :=
  path_eq_concat (h.scenario?_id (List.mem_filter.1 hl).1)

theorem Forest.Shaped.stepsOfKind_leaf (kind : StepKind) (hk : kind ≠ .assertion) :
    (f.relaxedScenario l.id).stepsOfKind kind = (f.standAlone l).stepsOfKind kind := by
  have hall : ∀ p ∈ f.path l.id,
      (kind != .assertion || f.firstLeaf? p.id == some l.id) = true := by simp [hk]
  rw [stepsOfKind_relaxedScenario, List.filter_eq_self.2 hall, h.path_of_leaf hl,
    stepsOfKind_standAlone, if_neg hk, List.flatMap_append, List.flatMap_singleton]

/-- A leaf is the first leaf below itself, so its own assertions come last. -/
theorem Forest.Shaped.assertions_leaf : (f.relaxedScenario l.id).stepsOfKind .assertion =
    ((f.ancestors l.id).filter fun p => f.firstLeaf? p.id == some l.id).flatMap (·.assertions) ++
      l.assertions := by
  have hself := h.firstLeaf?_of_mem_leaves hl
  simp only [stepsOfKind_relaxedScenario, bne_self_eq_false, Bool.false_or, h.path_of_leaf hl,
    List.filter_append, List.flatMap_append]
  simp [hself, Scenario.assertions]

end

/-- For a leaf that checks something each way of flattening emits one flat scenario. The two have
the same prerequisites and the same actions; the strict one has just the assertions of the leaf,
and the relaxed one has them last, after assertions of scenarios above the leaf. -/
theorem flatten_agree_on_leaf {o : ParseOptions} {t : Text} {f : Forest}
    (h : Forest.parse o t = .ok f) {l : Scenario} (hl : l ∈ f.leaves) (hc : l.assertions ≠ []) :
    (∀ mode, ∃! flat, f.Emits mode l flat) ∧
    ∀ strict relaxed, f.Emits .strict l strict → f.Emits .relaxed l relaxed →
      strict.stepsOfKind .prerequisite = relaxed.stepsOfKind .prerequisite ∧
      strict.stepsOfKind .action = relaxed.stepsOfKind .action ∧
      strict.stepsOfKind .assertion = l.assertions ∧
      ∃ above : List Scenario, above.Sublist (f.ancestors l.id) ∧ relaxed.stepsOfKind .assertion =
        above.flatMap (·.assertions) ++ strict.stepsOfKind .assertion := by
  have hshaped := Forest.shaped_of_parse h
  have hstrict : l ∈ f.emitted .strict := by
    refine List.mem_filter.2 ⟨(List.mem_filter.1 hl).1, ?_⟩
    simpa [Scenario.isOrganizational] using hc
  have hown : (f.standAlone l).stepsOfKind .assertion = l.assertions :=
    f.stepsOfKind_standAlone l .assertion
  refine ⟨fun mode => ?_, fun strict relaxed hs hr => ?_⟩
  · cases mode with
    | strict =>
      exact ⟨_, Forest.emits_strict_iff.2 ⟨hstrict, rfl⟩, fun _ hs =>
        (Forest.emits_strict_iff.1 hs).2⟩
    | relaxed =>
      exact ⟨_, hshaped.emits_relaxed_iff.2 ⟨hl, rfl⟩, fun _ hr =>
        (hshaped.emits_relaxed_iff.1 hr).2⟩
  · rw [(Forest.emits_strict_iff.1 hs).2, (hshaped.emits_relaxed_iff.1 hr).2]
    have hprerequisites := hshaped.stepsOfKind_leaf hl .prerequisite (by decide)
    have hactions := hshaped.stepsOfKind_leaf hl .action (by decide)
    have hchecked := hshaped.assertions_leaf hl
    rw [← hown] at hchecked
    exact ⟨hprerequisites.symm, hactions.symm, hown, _, List.filter_sublist, hchecked⟩

theorem flatten_agree_on_leaf_grouped : ∃ f, Forest.parse {} groupedDocument = .ok f ∧
    ∃ l ∈ f.leaves, ∃ strict relaxed, f.Emits .strict l strict ∧ f.Emits .relaxed l relaxed ∧
      strict.stepsOfKind .action = relaxed.stepsOfKind .action ∧
      strict.stepsOfKind .assertion = l.assertions ∧
      l.assertions.map (·.name) = ["d checked".toList] := by
  have hread : (Forest.parse {} groupedDocument).toOption.map
      (fun f => f.leaves.map fun l => l.assertions.map (·.name)) = some [["d checked".toList]] := by
    decide +kernel
  obtain ⟨f, hf, hleaves⟩ := Forest.exists_parse_of_map hread
  obtain ⟨l, hl, hnames⟩ := List.mem_map.1 (hleaves ▸ List.mem_singleton.2 rfl)
  have hc : l.assertions ≠ [] := by
    intro hnil
    rw [hnil] at hnames
    cases hnames
  obtain ⟨hemits, hagree⟩ := flatten_agree_on_leaf hf hl hc
  obtain ⟨strict, hstrict, -⟩ := hemits .strict
  obtain ⟨relaxed, hrelaxed, -⟩ := hemits .relaxed
  obtain ⟨-, hactions, hown, -⟩ := hagree strict relaxed hstrict hrelaxed
  exact ⟨f, hf, l, hl, strict, relaxed, hstrict, hrelaxed, hactions, hown, hnames⟩

end ScenarioForest
