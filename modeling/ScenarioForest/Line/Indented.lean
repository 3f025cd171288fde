import ScenarioForest.Text.Blank
set_option autoImplicit false

/-!
The indentation of a line and what follows it.
-/

namespace ScenarioForest

def indentWidth : Nat := 4

structure IndentedLine where
  indentation : Nat
  content : Text
  deriving DecidableEq, Repr

/-- Takes a line apart. A line of nothing but blanks has no indentation. -/
def IndentedLine.split (raw : Text) : IndentedLine :=
  let line := Text.trimEnd raw
  ⟨(line.takeWhile isBlank).length, Text.trimStart line⟩

def IndentedLine.isBlank (l : IndentedLine) : Bool := l.content.isEmpty

/-- The depth of the line, from 1; none unless the indentation is in whole units. -/
def IndentedLine.level? (l : IndentedLine) : Option Nat :=
  if l.indentation % indentWidth = 0 then some (l.indentation / indentWidth + 1) else none

theorem IndentedLine.level?_eq_some_iff {l : IndentedLine} {n : Nat} :
    l.level? = some n ↔ 1 ≤ n ∧ l.indentation = (n - 1) * indentWidth := by
  unfold level?
  split
  · next h => simp only [Option.some.injEq, indentWidth] at *; omega
  · next h => simp only [reduceCtorEq, false_iff, indentWidth] at *; omega

end ScenarioForest
