import ScenarioForest.Proofs.FirstVisit
set_option autoImplicit false

/-!
What is emitted for which scenario. A flat scenario depends on the names and the steps along a path
and, in relaxed flattening, on the leaf that each scenario of the path is met at first.
-/

namespace ScenarioForest

def Forest.emitted (f : Forest) : FlattenMode → List Scenario
  | .strict => f.scenarios.filter (!·.isOrganizational)
  | .relaxed => f.leaves

/-- Whether a flat scenario is the one emitted for a scenario. -/
def Forest.Emits (f : Forest) (mode : FlattenMode) (s : Scenario) (flat : FlatScenario) : Prop :=
  (s, flat) ∈ (f.emitted mode).zip (f.flatten mode).1

theorem mem_zip_map_iff {α β : Type} {g : α → β} {l : List α} {a : α} {b : β} :
    (a, b) ∈ l.zip (l.map g) ↔ a ∈ l ∧ b = g a := by
  rw [← List.map_prod_left_eq_zip, List.mem_map]
  simp only [Prod.mk.injEq]
  exact ⟨fun ⟨_, hc, hca, hcb⟩ => ⟨hca ▸ hc, by rw [← hcb, hca]⟩,
    fun ⟨ha, hb⟩ => ⟨a, ha, rfl, hb.symm⟩⟩

theorem Forest.emits_strict_iff {f : Forest} {s : Scenario} {flat : FlatScenario} :
    f.Emits .strict s flat ↔ s ∈ f.emitted .strict ∧ flat = f.standAlone s := mem_zip_map_iff

theorem Forest.Shaped.emits_relaxed_iff {f : Forest} (h : f.Shaped) {s : Scenario}
    {flat : FlatScenario} : f.Emits .relaxed s flat ↔ s ∈ f.leaves ∧ flat = f.relaxedScenario s.id := by
  rw [Emits, h.flatten_relaxed]
  exact mem_zip_map_iff

section

variable {f k : Forest} {g : Scenario → Scenario} (hname : ∀ s, (g s).name = s.name)
  (hsteps : ∀ s, (g s).steps = s.steps)

include hsteps

theorem Scenario.stepsOfKind_congr (s : Scenario) (kind : StepKind) :
    (g s).stepsOfKind kind = s.stepsOfKind kind := by
  rw [stepsOfKind, hsteps, stepsOfKind]

theorem Scenario.isOrganizational_congr (s : Scenario) :
    (g s).isOrganizational = s.isOrganizational := by
  rw [isOrganizational, assertions, stepsOfKind_congr hsteps, isOrganizational, assertions]

include hname

theorem Forest.standAlone_congr {s : Scenario}
    (h : k.ancestors (g s).id = (f.ancestors s.id).map g) : k.standAlone (g s) = f.standAlone s := by
  have horg := Scenario.isOrganizational_congr hsteps
  have hkind := Scenario.stepsOfKind_congr hsteps
  have hgroups : ((f.ancestors s.id).map g).filter (·.isOrganizational) ++ [g s] =
      ((f.ancestors s.id).filter (·.isOrganizational) ++ [s]).map g := by
    simp [List.filter_map, Function.comp_def, horg]
  simp only [standAlone, h, hgroups, composeName_map hname horg, List.flatMap_map, hsteps,
    Scenario.prerequisites, Scenario.actions, hkind]

theorem Forest.relaxedScenario_congr {l m : Nat} (h : k.path m = (f.path l).map g)
    (hfirst : ∀ p ∈ f.path l, k.firstLeaf? (g p).id = some m ↔ f.firstLeaf? p.id = some l) :
    k.relaxedScenario m = f.relaxedScenario l := by
  have horg := Scenario.isOrganizational_congr hsteps
  have hkind := Scenario.stepsOfKind_congr hsteps
  have hnamed : (f.path l).filter (fun p => (g p).isOrganizational ||
      k.firstLeaf? (g p).id == some m) =
        (f.path l).filter fun p => p.isOrganizational || f.firstLeaf? p.id == some l := by
    refine List.filter_congr fun p hp => ?_
    rw [horg, Bool.eq_iff_iff]
    simp [hfirst p hp]
  have hall : (f.path l).flatMap (fun p => (g p).prerequisites ++ (g p).actions ++
      if k.firstLeaf? (g p).id = some m then (g p).assertions else []) =
        (f.path l).flatMap fun p => p.prerequisites ++ p.actions ++
          if f.firstLeaf? p.id = some l then p.assertions else [] := by
    refine List.flatMap_congr fun p hp => ?_
    simp only [Scenario.prerequisites, Scenario.actions, Scenario.assertions, hkind, hfirst p hp]
  simp only [relaxedScenario, h, List.filter_map, Function.comp_def, composeName_map hname horg,
    List.flatMap_map, hnamed, hall]

end

end ScenarioForest
