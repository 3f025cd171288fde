import Mathlib.Data.List.SplitBy
import ScenarioForest.Proofs.Agreement
set_option autoImplicit false

/-!
Runs of steps of one kind in strict flattening. What a scenario checks is always one run. What is
done is one run unless the scenario sets something up on its own, between what the scenarios above
it do and what it does itself.
-/

namespace ScenarioForest

def Step.sameKind (s t : Step) : Bool := s.kind == t.kind

/-- The maximal runs of steps of the same kind, as far as they are of a given kind. -/
def runsOf (kind : StepKind) (steps : List Step) : List (List Step) :=
  (steps.splitBy Step.sameKind).filter (·.any (·.kind == kind))

def Scenario.InOrder (s : Scenario) : Prop :=
  s.steps = s.prerequisites ++ s.actions ++ s.assertions

instance (s : Scenario) : Decidable s.InOrder :=
  inferInstanceAs (Decidable (s.steps = s.prerequisites ++ s.actions ++ s.assertions))

section

variable {kind : StepKind} {first second block last : List Step}

theorem runsOf_append (h : ∀ s ∈ first.getLast?, ∀ t ∈ second.head?, s.kind ≠ t.kind) :
    runsOf kind (first ++ second) = runsOf kind first ++ runsOf kind second := by
  have hbreak : ∀ s ∈ first.getLast?, ∀ t ∈ second.head?, s.sameKind t = false := by
    intro s hs t ht
    simpa [Step.sameKind] using h s hs t ht
  rw [runsOf, List.splitBy_append hbreak, List.filter_append]
  rfl

theorem runsOf_eq_nil (h : ∀ s ∈ first, s.kind ≠ kind) : runsOf kind first = [] := by
  rw [runsOf, List.filter_eq_nil_iff]
  intro run hrun
  simp only [List.any_eq_true, beq_iff_eq, not_exists, not_and]
  intro s hs
  refine h s ?_
  rw [← List.flatten_splitBy Step.sameKind first]
  exact List.mem_flatten_of_mem hrun hs

theorem runsOf_eq_singleton (hne : block ≠ []) (h : ∀ s ∈ block, s.kind = kind) :
    runsOf kind block = [block] := by
  have hchain : block.IsChain fun s t => s.sameKind t = true := by
    refine (List.pairwise_of_forall_mem_list fun s hs t ht => ?_).isChain
    simp [Step.sameKind, h s hs, h t ht]
  obtain ⟨s, rest, rfl⟩ := List.exists_cons_of_ne_nil hne
  have hany : (s :: rest).any (·.kind == kind) = true := by simp [h s (by simp)]
  rw [runsOf, List.splitBy_of_isChain hne hchain, List.filter_singleton, hany]
  rfl

theorem runsOf_surrounded (hfirst : ∀ s ∈ first, s.kind ≠ kind) (hne : block ≠ [])
    (hblock : ∀ s ∈ block, s.kind = kind) (hlast : ∀ s ∈ last, s.kind ≠ kind) :
    runsOf kind (first ++ block ++ last) = [block] := by
  have hbefore : ∀ s ∈ first.getLast?, ∀ t ∈ block.head?, s.kind ≠ t.kind := by
    intro s hs t ht
    rw [hblock t (List.mem_of_mem_head? ht)]
    exact hfirst s (List.mem_of_mem_getLast? hs)
  have hbehind : ∀ s ∈ (first ++ block).getLast?, ∀ t ∈ last.head?, s.kind ≠ t.kind := by
    intro s hs t ht
    rw [List.getLast?_append_of_ne_nil _ hne] at hs
    rw [hblock s (List.mem_of_mem_getLast? hs)]
    exact (hlast t (List.mem_of_mem_head? ht)).symm
  rw [runsOf_append hbehind, runsOf_append hbefore, runsOf_eq_nil hfirst,
    runsOf_eq_singleton hne hblock, runsOf_eq_nil hlast, List.nil_append, List.append_nil]

theorem length_runsOf_surrounded_le (hfirst : ∀ s ∈ first, s.kind ≠ kind)
    (hblock : ∀ s ∈ block, s.kind = kind) (hlast : ∀ s ∈ last, s.kind ≠ kind) :
    (runsOf kind (first ++ block ++ last)).length ≤ 1 := by
  by_cases hne : block = []
  · have hnone : ∀ s ∈ first ++ last, s.kind ≠ kind := List.forall_mem_append.2 ⟨hfirst, hlast⟩
    rw [hne, List.append_nil, runsOf_eq_nil hnone]
    exact Nat.zero_le 1
  · rw [runsOf_surrounded hfirst hne hblock hlast]
    exact Nat.le_refl 1

/-- Two blocks of a kind are one run unless both are there and something stands between them. -/
theorem length_runsOf_resumed_le_iff {gap again : List Step} (hfirst : ∀ s ∈ first, s.kind ≠ kind)
    (hblock : ∀ s ∈ block, s.kind = kind) (hgap : ∀ s ∈ gap, s.kind ≠ kind)
    (hagain : ∀ s ∈ again, s.kind = kind) (hlast : ∀ s ∈ last, s.kind ≠ kind) :
    (runsOf kind (first ++ block ++ (gap ++ again ++ last))).length ≤ 1 ↔
      block = [] ∨ gap = [] ∨ again = [] := by
  constructor
  · intro hle
    by_contra hall
    simp only [not_or] at hall
    obtain ⟨hblockne, hgapne, hagainne⟩ := hall
    have hbreak : ∀ s ∈ (first ++ block).getLast?, ∀ t ∈ (gap ++ again ++ last).head?,
        s.kind ≠ t.kind := by
      intro s hs t ht
      rw [List.getLast?_append_of_ne_nil _ hblockne] at hs
      rw [List.append_assoc, List.head?_append_of_ne_nil _ hgapne] at ht
      rw [hblock s (List.mem_of_mem_getLast? hs)]
      exact (hgap t (List.mem_of_mem_head? ht)).symm
    have hone := runsOf_surrounded hfirst hblockne hblock (List.forall_mem_nil _)
    rw [List.append_nil] at hone
    rw [runsOf_append hbreak, hone, runsOf_surrounded hgap hagainne hagain hlast] at hle
    exact absurd hle (by simp)
  · intro hany
    rcases hany with rfl | rfl | rfl
    · have hbefore := List.forall_mem_append.2 ⟨hfirst, hgap⟩
      simpa using length_runsOf_surrounded_le hbefore hagain hlast
    · have hwhole := List.forall_mem_append.2 ⟨hblock, hagain⟩
      simpa using length_runsOf_surrounded_le hfirst hwhole hlast
    · have hbehind := List.forall_mem_append.2 ⟨hgap, hlast⟩
      simpa using length_runsOf_surrounded_le hfirst hblock hbehind

end

theorem Scenario.kind_of_mem_stepsOfKind {s : Scenario} {kind : StepKind} {t : Step}
    (h : t ∈ s.stepsOfKind kind) : t.kind = kind := by
  simpa using (List.mem_filter.1 h).2

theorem kind_of_mem_flatMap_stepsOfKind {above : List Scenario} {kind : StepKind} {t : Step}
    (h : t ∈ above.flatMap (·.stepsOfKind kind)) : t.kind = kind := by
  obtain ⟨s, -, hs⟩ := List.mem_flatMap.1 h
  exact s.kind_of_mem_stepsOfKind hs

section

variable {f : Forest} {s : Scenario} (hs : s.InOrder)

include hs

theorem Scenario.InOrder.standAlone_steps : (f.standAlone s).steps =
    (f.ancestors s.id).flatMap (·.prerequisites) ++ (f.ancestors s.id).flatMap (·.actions) ++
      (s.prerequisites ++ s.actions ++ s.assertions) := by
  rw [Forest.standAlone, ← hs]

theorem Scenario.InOrder.runsOf_assertion (hchecks : s.isOrganizational = false) :
    runsOf .assertion (f.standAlone s).steps = [s.assertions] := by
  have hne : s.assertions ≠ [] := by simpa [isOrganizational] using hchecks
  have hbefore : ∀ t ∈ (f.ancestors s.id).flatMap (·.prerequisites) ++
      (f.ancestors s.id).flatMap (·.actions) ++ (s.prerequisites ++ s.actions),
        t.kind ≠ .assertion := by
    intro t ht
    simp only [List.mem_append] at ht
    rcases ht with (ht | ht) | ht | ht
    · simp [kind_of_mem_flatMap_stepsOfKind ht]
    · simp [kind_of_mem_flatMap_stepsOfKind ht]
    · simp [s.kind_of_mem_stepsOfKind ht]
    · simp [s.kind_of_mem_stepsOfKind ht]
  have hrun := runsOf_surrounded hbefore hne (fun t => s.kind_of_mem_stepsOfKind)
    (List.forall_mem_nil _)
  rw [List.append_nil] at hrun
  rw [hs.standAlone_steps, ← List.append_assoc, hrun]

theorem Scenario.InOrder.length_runsOf_action_le_iff :
    (runsOf .action (f.standAlone s).steps).length ≤ 1 ↔
      (f.ancestors s.id).flatMap (·.actions) = [] ∨ s.prerequisites = [] ∨ s.actions = [] := by
  rw [hs.standAlone_steps]
  refine length_runsOf_resumed_le_iff ?_ ?_ ?_ ?_ ?_
  · intro t ht
    simp [kind_of_mem_flatMap_stepsOfKind ht]
  · intro t ht
    exact kind_of_mem_flatMap_stepsOfKind ht
  · intro t ht
    simp [s.kind_of_mem_stepsOfKind ht]
  · intro t ht
    exact s.kind_of_mem_stepsOfKind ht
  · intro t ht
    simp [s.kind_of_mem_stepsOfKind ht]

end

/-- Where every scenario sets up, acts and checks in this order, each flat scenario of strict
flattening has one run of assertions. It has one run of actions at most exactly if it is not the
case that the scenarios above do something, that the scenario then sets something up, and that it
does something of its own after that. -/
theorem flatten_strict_runs {f : Forest} (h : ∀ s ∈ f.scenarios, s.InOrder) :
    (∀ flat ∈ (f.flatten .strict).1, (runsOf .assertion flat.steps).length = 1) ∧
    ∀ s flat, f.Emits .strict s flat → ((runsOf .action flat.steps).length ≤ 1 ↔
      (f.ancestors s.id).flatMap (·.actions) = [] ∨ s.prerequisites = [] ∨ s.actions = []) := by
  constructor
  · intro flat hflat
    obtain ⟨s, hs, rfl⟩ := List.mem_map.1 hflat
    obtain ⟨hmem, hchecks⟩ := List.mem_filter.1 hs
    rw [(h s hmem).runsOf_assertion (by simpa using hchecks), List.length_singleton]
  · intro s flat hemits
    obtain ⟨hs, rfl⟩ := Forest.emits_strict_iff.1 hemits
    exact (h s (List.mem_filter.1 hs).1).length_runsOf_action_le_iff

theorem flatten_strict_runs_grouped : ∃ f, Forest.parse {} groupedDocument = .ok f ∧
    (∀ s ∈ f.scenarios, s.InOrder) ∧
    (∀ flat ∈ (f.flatten .strict).1, (runsOf .assertion flat.steps).length = 1) ∧
    ∃ s flat, f.Emits .strict s flat ∧ (runsOf .action flat.steps).length ≤ 1 ∧
      flat.steps.map (·.name) = [['a'], ['b'], ['c'], "d checked".toList] := by
  have hread : (Forest.parse {} groupedDocument).toOption.map (fun f =>
      (decide (∀ s ∈ f.scenarios, s.InOrder),
        ((f.emitted .strict).zip (f.flatten .strict).1).map fun (s, flat) =>
          (s.prerequisites, flat.steps.map (·.name)))) =
      some (true, [([], [['a'], ['b'], "b checked".toList]),
        ([], [['a'], ['b'], ['c'], "d checked".toList])]) := by
    decide +kernel
  obtain ⟨f, hf, hshown⟩ := Forest.exists_parse_of_map hread
  obtain ⟨hordered, hemitted⟩ := Prod.mk.inj hshown
  have hinOrder := of_decide_eq_true hordered
  obtain ⟨hassertions, hactions⟩ := flatten_strict_runs hinOrder
  obtain ⟨⟨s, flat⟩, hemits, hlast⟩ := List.mem_map.1
    (hemitted ▸ List.mem_cons_of_mem _ (List.mem_singleton.2 rfl))
  obtain ⟨hnone, hnames⟩ := Prod.mk.inj hlast
  exact ⟨f, hf, hinOrder, hassertions, s, flat, hemits,
    (hactions s flat hemits).2 (.inr (.inl hnone)), hnames⟩

def interruptedDocument : Text :=
  "Scenario: R\nWhen open\n    Scenario: S\n    Given own\n    When act\n    Then seen".toList

/-- Steps in the right order in every scenario do not make one run of actions. -/
theorem not_single_action_run_interrupted : ∃ f, Forest.parse {} interruptedDocument = .ok f ∧
    (∀ s ∈ f.scenarios, s.InOrder) ∧
    ∃ flat ∈ (f.flatten .strict).1, (runsOf .action flat.steps).length = 2 := by
  have hread : (Forest.parse {} interruptedDocument).toOption.map (fun f =>
      (decide (∀ s ∈ f.scenarios, s.InOrder),
        (f.flatten .strict).1.map fun flat => (runsOf .action flat.steps).length)) =
      some (true, [2]) := by
    decide +kernel
  obtain ⟨f, hf, hshown⟩ := Forest.exists_parse_of_map hread
  obtain ⟨hordered, hruns⟩ := Prod.mk.inj hshown
  obtain ⟨flat, hflat, htwo⟩ := List.mem_map.1 (hruns ▸ List.mem_singleton.2 rfl)
  exact ⟨f, hf, of_decide_eq_true hordered, flat, hflat, htwo⟩

end ScenarioForest
