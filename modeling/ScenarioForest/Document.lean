import ScenarioForest.Flat
import ScenarioForest.Line
import ScenarioForest.Text.Lines
set_option autoImplicit false

/-!
The flat document: its lines in order, and its text.
-/

namespace ScenarioForest

def indent : Text := List.replicate 4 ' '

/-- There is no widest column. A formatter with widths of 16 bits stops at 65,535. -/
def Text.padRight (width : Nat) (t : Text) : Text := t ++ List.replicate (width - t.length) ' '

theorem Text.length_padRight {width : Nat} {t : Text} (h : t.length ≤ width) :
    (Text.padRight width t).length = width := by
  simp only [padRight, List.length_append, List.length_replicate]
  omega

/-- The cells of a row between bars, each filled up to the width of its column. -/
def Row.fields (r : Row) (widths : List Nat) : Text :=
  (List.zipWith (fun cell width => '|' :: ' ' :: Text.padRight width cell ++ [' ']) r.cells
    widths).flatten ++ ['|']

def Row.tail (r : Row) (comments : Bool) : Text :=
  if comments then r.comment.elim [] (commentMark ++ ·) else []

def Table.lines (t : Table) (comments : Bool) : List Text :=
  t.allRows.map fun r => indent ++ r.fields t.columnWidths ++ r.tail comments

def commentLine (comment : Text) : Text := "# ".toList ++ comment

def Step.lines (s : Step) (first comments : Bool) : List Text :=
  s.line first :: (if comments then (s.comment.map commentLine).toList else []) ++
    s.table.elim [] (·.lines comments)

def stepLines (comments : Bool) : Option StepKind → List Step → List Text
  | _, [] => []
  | previous, s :: rest =>
    s.lines (previous != some s.kind) comments ++ stepLines comments (some s.kind) rest

def FlatScenario.lines (s : FlatScenario) (comments : Bool) : List Text :=
  (scenarioMark ++ s.name) :: stepLines comments none s.steps ++ [[]]

def featureLines (name : Text) (description : List Text) : List Text :=
  (featureMark ++ name) :: [] :: description.map (indent ++ ·) ++
    if description.isEmpty then [] else [[]]

/-- The lines of a document. Free text without a feature is not written. -/
def documentLines (name : Option Text) (description : List Text) (flat : List FlatScenario)
    (comments : Bool) : List Text :=
  name.elim [] (featureLines · description) ++ flat.flatMap (·.lines comments)

def Forest.render (f : Forest) (o : FlattenOptions) : Text × Forest :=
  let (flat, g) := f.flatten o.mode
  (Text.unlines (documentLines f.name f.description flat o.writeComments), g)

end ScenarioForest
