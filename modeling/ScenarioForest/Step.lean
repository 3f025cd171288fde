import ScenarioForest.Keyword
import ScenarioForest.Table
set_option autoImplicit false

/-!
Steps: what is done or checked, with an optional comment and an optional table.
-/

namespace ScenarioForest

structure Step where
  name : Text
  kind : StepKind
  comment : Option Text
  table : Option Table
  deriving DecidableEq

def Step.named (name : Text) (kind : StepKind) : Step := ⟨Text.trim name, kind, none, none⟩

def Step.withTable (s : Step) (table : Table) : Step := { s with table := some table }

/-- Adds a row to the table of the step. The first row becomes the header. -/
def Step.addRow (s : Step) (r : Row) : Except UnevenRow Step :=
  match s.table with
  | none => .ok (s.withTable (Table.ofHeader r))
  | some table =>
    match table.push r with
    | (.ok (), grown) => .ok (s.withTable grown)
    | (.error e, _) => .error e

/-- The word that opens the line of a step: the first step of a run states the kind. -/
def Step.keyword (s : Step) (first : Bool) : Keyword :=
  if first then .primary s.kind else .and

def Step.line (s : Step) (first : Bool) : Text := (s.keyword first).text ++ ' ' :: s.name

def Step.eraseComments (s : Step) : Step :=
  { s with comment := none, table := s.table.map Table.eraseComments }

end ScenarioForest
