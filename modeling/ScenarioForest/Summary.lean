import ScenarioForest.Scenario
import ScenarioForest.Text.Uppercase
set_option autoImplicit false

/-!
Steps and scenarios in one line.
-/

namespace ScenarioForest

def Step.summary (s : Step) : Text :=
  '<' :: s.kind.name ++ ": ".toList ++ Text.capitalized s.name ++ ['>']

def Scenario.summary (s : Scenario) : Text :=
  "<Scenario: ".toList ++ s.name ++ " (".toList ++
    Text.ofNat s.prerequisites.length ++ " prerequisites, ".toList ++
    Text.ofNat s.actions.length ++ " actions, ".toList ++
    Text.ofNat s.assertions.length ++ " assertions)>".toList

end ScenarioForest
