import ScenarioForest.Scenario
set_option autoImplicit false

/-!
Composite names. Neighbours on a path that are alike in checking something form one group.
-/

namespace ScenarioForest

def Scenario.alike (s t : Scenario) : Bool := s.isOrganizational == t.isOrganizational

/-- The name of a group: organizational scenarios stand in brackets. -/
def groupName (group : List Scenario) : Text :=
  let names := group.map (·.name)
  if group.all (·.isOrganizational) then '[' :: List.intercalate " / ".toList names ++ [']']
  else List.intercalate " > ".toList names

def composeName (path : List Scenario) : Text :=
  List.intercalate [' '] ((path.splitBy Scenario.alike).map groupName)

end ScenarioForest
