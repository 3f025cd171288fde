import ScenarioForest.Proofs.FirstVisit
set_option autoImplicit false

/-!
Both ways of flattening check the same assertions in the same order, which is that of the
document.
-/

namespace ScenarioForest

def assertionsOf (flat : List FlatScenario) : List Step :=
  (flat.flatMap (·.steps)).filter (·.kind == .assertion)

def Forest.assertions (f : Forest) : List Step := f.scenarios.flatMap (·.assertions)

def FlatScenario.stepsOfKind (s : FlatScenario) (kind : StepKind) : List Step :=
  s.steps.filter (·.kind == kind)

theorem assertionsOf_map {α : Type} (g : α → FlatScenario) (l : List α) :
    assertionsOf (l.map g) = l.flatMap fun a => (g a).stepsOfKind .assertion := by
  simp [assertionsOf, FlatScenario.stepsOfKind, List.flatMap_map, List.filter_flatMap]

@[simp] theorem Scenario.filter_stepsOfKind (s : Scenario) (kind wanted : StepKind) :
    (s.stepsOfKind kind).filter (·.kind == wanted) =
      if kind = wanted then s.stepsOfKind wanted else [] := by
  split
  · next h => simp [h, stepsOfKind]
  · next h =>
    rw [stepsOfKind, List.filter_filter, List.filter_eq_nil_iff]
    intro t _
    simp only [Bool.and_eq_true, beq_iff_eq, not_and]
    intro ht hk
    exact h (hk.symm.trans ht)

theorem Forest.stepsOfKind_standAlone (f : Forest) (s : Scenario) (kind : StepKind) :
    (f.standAlone s).stepsOfKind kind =
      (if kind = .assertion then [] else (f.ancestors s.id).flatMap (·.stepsOfKind kind)) ++
        s.stepsOfKind kind := by
  have hown : s.steps.filter (·.kind == kind) = s.stepsOfKind kind := rfl
  have hnone : ∀ above : List Scenario, (above.flatMap fun _ => ([] : List Step)) = [] := by simp
  simp only [FlatScenario.stepsOfKind, standAlone, Scenario.prerequisites, Scenario.actions,
    List.filter_append, List.filter_flatMap, Scenario.filter_stepsOfKind, hown]
  cases kind <;> simp [hnone]

theorem Forest.stepsOfKind_relaxedScenario (f : Forest) (leaf : Nat) (kind : StepKind) :
    (f.relaxedScenario leaf).stepsOfKind kind = ((f.path leaf).filter fun p =>
      kind != .assertion || f.firstLeaf? p.id == some leaf).flatMap (·.stepsOfKind kind) := by
  simp only [FlatScenario.stepsOfKind, relaxedScenario]
  induction f.path leaf with
  | nil => rfl
  | cons p rest ih =>
    rw [List.flatMap_cons, List.filter_append, ih]
    by_cases hp : f.firstLeaf? p.id = some leaf
    · cases kind <;>
        simp [hp, Scenario.prerequisites, Scenario.actions, Scenario.assertions]
    · cases kind <;> simp [hp, Scenario.prerequisites, Scenario.actions]

/-- Scenarios that are left out of strict flattening have nothing to check. -/
theorem Forest.assertionsOf_flattenStrict (f : Forest) :
    assertionsOf f.flattenStrict = f.assertions := by
  rw [flattenStrict, assertionsOf_map]
  simp only [stepsOfKind_standAlone, if_true, List.nil_append, assertions]
  induction f.scenarios with
  | nil => rfl
  | cons s rest ih =>
    cases ho : s.isOrganizational with
    | false => simp [ho, ih, Scenario.assertions]
    | true =>
      have hnone : s.assertions = [] := by simpa [Scenario.isOrganizational] using ho
      simp [ho, hnone, ih]

section

variable {f : Forest} (h : f.Shaped)

include h

theorem Forest.Shaped.exists_firstLeaf {s : Scenario} (hs : s ∈ f.scenarios) :
    ∃ l ∈ f.leaves, f.firstLeaf? s.id = some l.id ∧ s ∈ f.path l.id := by
  have hp := h.id_lt hs
  obtain ⟨l, hle, hl, hleaf, hrun⟩ := h.exists_next_leaf hp
  obtain ⟨hid, hmem⟩ := h.leaf_of_isLeaf hl hleaf
  refine ⟨f.scenarios[l], hmem, ?_, ?_⟩
  · rw [hid]
    exact h.firstLeaf?_of_run hp hle hl hleaf hrun
  · obtain ⟨-, -, above, habove⟩ := h.path_spec (h.scenario?_id hs)
    rw [hid, h.path_run hle hrun, habove]
    simp

theorem Forest.Shaped.id_lt_of_firstLeaf_lt {s t l m : Scenario} (hs : s ∈ f.scenarios)
    (ht : t ∈ f.scenarios) (hsl : f.firstLeaf? s.id = some l.id)
    (htm : f.firstLeaf? t.id = some m.id) (hlm : l.id < m.id) : s.id < t.id := by
  obtain ⟨hle, -, hleaf, -⟩ := (h.firstLeaf?_eq_some_iff (h.id_lt hs)).1 hsl
  obtain ⟨-, -, -, hrun⟩ := (h.firstLeaf?_eq_some_iff (h.id_lt ht)).1 htm
  by_contra hge
  have := hrun l.id (by omega) hlm
  rw [hleaf] at this
  cases this

/-- Taken leaf by leaf where they are met first, the scenarios stand in document order. -/
theorem Forest.Shaped.flatMap_firstLeaf :
    (f.leaves.flatMap fun l => (f.path l.id).filter fun p => f.firstLeaf? p.id == some l.id) =
      f.scenarios := by
  have hpath : ∀ l ∈ f.leaves, (∀ p ∈ f.path l.id, p ∈ f.scenarios) ∧
      (f.path l.id).Pairwise (·.id < ·.id) := by
    intro l hl
    obtain ⟨hall, hpair, -⟩ := h.path_spec (h.scenario?_id (List.mem_filter.1 hl).1)
    exact ⟨fun p hp => (hall p hp).1, hpair⟩
  refine eq_of_pairwise_ids ?_ h.pairwise_ids fun s => ?_
  · refine List.pairwise_flatMap.2 ⟨fun l hl => (hpath l hl).2.sublist List.filter_sublist, ?_⟩
    have hleaves : f.leaves.Pairwise (·.id < ·.id) := h.pairwise_filter _
    refine hleaves.imp_of_mem fun {l m} hl hm hlm s hs t ht => ?_
    rw [List.mem_filter, beq_iff_eq] at hs ht
    exact h.id_lt_of_firstLeaf_lt ((hpath l hl).1 s hs.1) ((hpath m hm).1 t ht.1) hs.2 ht.2 hlm
  · constructor
    · intro hs
      obtain ⟨l, hl, hs⟩ := List.mem_flatMap.1 hs
      exact (hpath l hl).1 s (List.mem_filter.1 hs).1
    · intro hs
      obtain ⟨l, hl, hfirst, hmem⟩ := h.exists_firstLeaf hs
      exact List.mem_flatMap.2 ⟨l, hl, List.mem_filter.2 ⟨hmem, by simp [hfirst]⟩⟩

theorem Forest.Shaped.assertionsOf_flatten_relaxed :
    assertionsOf (f.flatten .relaxed).1 = f.assertions := by
  rw [h.flatten_relaxed, assertionsOf_map]
  simp only [stepsOfKind_relaxedScenario, bne_self_eq_false, Bool.false_or]
  rw [← List.flatMap_assoc, h.flatMap_firstLeaf]
  rfl

end

/-- Both ways of flattening check every assertion of a document once, in the order of the
document. -/
theorem assertionsOf_flatten {o : ParseOptions} {t : Text} {f : Forest}
    (h : Forest.parse o t = .ok f) :
    assertionsOf (f.flatten .strict).1 = assertionsOf (f.flatten .relaxed).1 ∧
      assertionsOf (f.flatten .strict).1 = f.assertions ∧
      assertionsOf (f.flatten .relaxed).1 = f.assertions := by
  have hstrict : assertionsOf (f.flatten .strict).1 = f.assertions := f.assertionsOf_flattenStrict
  have hrelaxed := (Forest.shaped_of_parse h).assertionsOf_flatten_relaxed
  exact ⟨hstrict.trans hrelaxed.symm, hstrict, hrelaxed⟩

theorem assertionsOf_flatten_branching : ∃ f, Forest.parse {} branchingDocument = .ok f ∧
    (assertionsOf (f.flatten .relaxed).1).map (·.name) = [['a'], ['b'], ['c']] := by
  have hread : (Forest.parse {} branchingDocument).toOption.map (·.assertions.map (·.name)) =
      some [['a'], ['b'], ['c']] := by
    decide +kernel
  obtain ⟨f, hf, hnames⟩ := Forest.exists_parse_of_map hread
  refine ⟨f, hf, ?_⟩
  rw [(assertionsOf_flatten hf).2.2, hnames]

end ScenarioForest
