import ScenarioForest.Table
set_option autoImplicit false

/-!
What can be wrong with a line of a document.
-/

namespace ScenarioForest

inductive Fault where
  | unparseable (line : Text)
  | invalidIndentation (line : Text)
  | excessiveIndentation (scenario : Text)
  | featureMisplaced (line : Text)
  | conjunctionWithoutStep (line : Text)
  | stepOutsideScenario (line : Text)
  | dataRowWithoutStep (line : Text)
  | unevenDataRow (row : UnevenRow)
  deriving DecidableEq, Repr

structure ParseError where
  lineNo : Nat
  fault : Fault
  deriving DecidableEq, Repr

end ScenarioForest
