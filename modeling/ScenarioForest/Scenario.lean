import ScenarioForest.Step
set_option autoImplicit false

/-!
Scenarios: the nodes of the forest.
-/

namespace ScenarioForest

/-- A scenario with its place in the forest. The parent is named by its id, and the flag says
whether a flattening pass has already emitted the scenario's assertions. -/
structure Scenario where
  id : Nat
  name : Text
  steps : List Step
  parent : Option Nat
  level : Nat
  validated : Bool
  deriving DecidableEq

def Scenario.named (id : Nat) (name : Text) (parent : Option Nat) (level : Nat) : Scenario :=
  ⟨id, Text.trim name, [], parent, level, false⟩

def Scenario.isRoot (s : Scenario) : Bool := s.parent.isNone

def Scenario.stepsOfKind (s : Scenario) (kind : StepKind) : List Step :=
  s.steps.filter (·.kind == kind)

def Scenario.prerequisites (s : Scenario) : List Step := s.stepsOfKind .prerequisite

def Scenario.actions (s : Scenario) : List Step := s.stepsOfKind .action

def Scenario.assertions (s : Scenario) : List Step := s.stepsOfKind .assertion

/-- Whether the scenario checks nothing and so only groups its children. -/
def Scenario.isOrganizational (s : Scenario) : Bool := s.assertions.isEmpty

def Scenario.addStep (s : Scenario) (step : Step) : Scenario := { s with steps := s.steps ++ [step] }

def Scenario.lastKind? (s : Scenario) : Option StepKind := s.steps.getLast?.map (·.kind)

end ScenarioForest
