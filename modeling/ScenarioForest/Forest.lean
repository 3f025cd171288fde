import ScenarioForest.Scenario
set_option autoImplicit false

/-!
The forest of a document. Scenarios are kept in document order, and every way through the trees
follows the ids of the parents.
-/

namespace ScenarioForest

structure Forest where
  name : Option Text
  description : List Text
  scenarios : List Scenario
  deriving DecidableEq

def Forest.empty : Forest := ⟨none, [], []⟩

def Forest.scenario? (f : Forest) (id : Nat) : Option Scenario := f.scenarios[id]?

def Forest.roots (f : Forest) : List Scenario := f.scenarios.filter (·.isRoot)

def Forest.children (f : Forest) (id : Nat) : List Scenario :=
  f.scenarios.filter (·.parent == some id)

def Forest.isLeaf (f : Forest) (id : Nat) : Bool := (f.children id).isEmpty

def Forest.leaves (f : Forest) : List Scenario := f.scenarios.filter fun s => f.isLeaf s.id

def Forest.parentId? (f : Forest) (id : Nat) : Option Nat := (f.scenario? id).bind (·.parent)

def Forest.parent? (f : Forest) (id : Nat) : Option Scenario :=
  (f.parentId? id).bind f.scenario?

/-- The other scenarios with the same parent. A root has the other roots. -/
def Forest.siblings (f : Forest) (id : Nat) : List Scenario :=
  f.scenarios.filter fun s => s.id != id && s.parent == f.parentId? id

/-- The scenarios above a given one, the root first. A parent comes before its children in the
document, which is why the climb ends. -/
def Forest.ancestors (f : Forest) (id : Nat) : List Scenario :=
  match f.parent? id with
  | none => []
  | some p => if p.id < id then f.ancestors p.id ++ [p] else []
termination_by id

def Forest.path (f : Forest) (id : Nat) : List Scenario :=
  f.ancestors id ++ (f.scenario? id).toList

def Forest.organizationalAncestors (f : Forest) (id : Nat) : List Scenario :=
  (f.ancestors id).filter (·.isOrganizational)

/-- Whether no further child can come below a scenario: a later one stands at the same level or
further out. -/
def Forest.isClosed (f : Forest) (id : Nat) : Bool :=
  match f.scenario? id with
  | none => true
  | some s => (f.scenarios.drop (id + 1)).any (·.level ≤ s.level)

/-- The scenario that a header one level deeper would belong to. -/
def Forest.openAt? (f : Forest) (level : Nat) : Option Scenario :=
  (f.scenarios.reverse.find? (·.level == level)).filter fun s => !f.isClosed s.id

/-- Goes down from a scenario along names, always to the first child of a name. -/
def Forest.descend? (f : Forest) (s : Scenario) : List Text → Option Scenario
  | [] => some s
  | name :: names =>
    match (f.children s.id).find? (·.name == name) with
    | none => none
    | some child => f.descend? child names

def Forest.find? (f : Forest) : List Text → Option Scenario
  | [] => none
  | name :: names => (f.roots.find? (·.name == name)).bind (f.descend? · names)

def Forest.clearValidated (f : Forest) : Forest :=
  { f with scenarios := f.scenarios.map fun s => { s with validated := false } }

def Forest.validate (f : Forest) (ids : List Nat) : Forest :=
  { f with scenarios := f.scenarios.map fun s =>
      if ids.contains s.id && !s.isOrganizational then { s with validated := true } else s }

def Forest.validatedIds (f : Forest) : List Nat := (f.scenarios.filter (·.validated)).map (·.id)

def Forest.eraseComments (f : Forest) : Forest :=
  { f with scenarios := f.scenarios.map fun s => { s with steps := s.steps.map Step.eraseComments } }

end ScenarioForest
