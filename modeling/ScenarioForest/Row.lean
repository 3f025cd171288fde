import ScenarioForest.Text.Comment
set_option autoImplicit false

/-!
Rows of a data table. A written row puts every cell between bars, with a space on each side of
it, and may end in a comment.
-/

namespace ScenarioForest

structure Row where
  cells : List Text
  comment : Option Text
  deriving DecidableEq, Repr

def Row.width (r : Row) : Nat := r.cells.length

def Row.eraseComment (r : Row) : Row := { r with comment := none }

/-- What may stand between two bars: a space on each side, whatever lies between. -/
def isCell (t : Text) : Bool := 2 ≤ t.length && t.head? == some ' ' && t.getLast? == some ' '

/-- What may follow the last bar: nothing, or a comment of one line. -/
def rowEnd? (t : Text) : Option (Option Text) :=
  if t.isEmpty then some none
  else
    match Text.comment? t with
    | some k => if k.contains '\n' then none else some (some k)
    | none => none

/-- Reads as many cells as possible and then the end of the row. The first argument is the cell
so far, back to front. A comment may hold bars of its own. -/
def readCells (cell : Text) : Text → Option (List Text × Option Text)
  | [] => none
  | '|' :: t =>
    if isCell cell.reverse then
      match readCells [] t with
      | some (cells, comment) => some (cell.reverse :: cells, comment)
      | none => (rowEnd? t).map ([cell.reverse], ·)
    else none
  | c :: t => readCells (c :: cell) t

def Row.read? : Text → Option Row
  | '|' :: t =>
    (readCells [] t).map fun (cells, comment) => ⟨cells.map Text.trim, comment.map Text.trim⟩
  | _ => none

end ScenarioForest
