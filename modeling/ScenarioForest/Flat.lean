import ScenarioForest.Flat.Name
import ScenarioForest.Forest
import ScenarioForest.Options
set_option autoImplicit false

/-!
Flattening: scenarios that stand alone, made from the paths of a forest.
-/

namespace ScenarioForest

structure FlatScenario where
  name : Text
  steps : List Step
  deriving DecidableEq

/-- Stands a scenario alone: what its ancestors set up and do comes first, then its own steps. -/
def Forest.standAlone (f : Forest) (s : Scenario) : FlatScenario :=
  let above := f.ancestors s.id
  ⟨composeName (above.filter (·.isOrganizational) ++ [s]),
    above.flatMap (·.prerequisites) ++ above.flatMap (·.actions) ++ s.steps⟩

def Forest.flattenStrict (f : Forest) : List FlatScenario :=
  (f.scenarios.filter (!·.isOrganizational)).map f.standAlone

def Scenario.walkSteps (s : Scenario) : List Step :=
  s.prerequisites ++ s.actions ++ if s.validated then [] else s.assertions

def Scenario.isNamed (s : Scenario) : Bool := s.isOrganizational || !s.validated

def Forest.walk (f : Forest) (leaf : Nat) : FlatScenario × Forest :=
  let path := f.path leaf
  (⟨composeName (path.filter (·.isNamed)), path.flatMap (·.walkSteps)⟩,
    f.validate (path.map (·.id)))

def Forest.walkAll (f : Forest) : List Nat → List FlatScenario × Forest
  | [] => ([], f)
  | leaf :: rest =>
    let (first, g) := f.walk leaf
    let (others, h) := g.walkAll rest
    (first :: others, h)

def Forest.flattenRelaxed (f : Forest) : List FlatScenario × Forest :=
  f.clearValidated.walkAll (f.leaves.map (·.id))

def Forest.flatten (f : Forest) : FlattenMode → List FlatScenario × Forest
  | .strict => (f.flattenStrict, f)
  | .relaxed => f.flattenRelaxed

end ScenarioForest
