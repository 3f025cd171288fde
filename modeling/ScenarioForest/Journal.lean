import ScenarioForest.Flat
import ScenarioForest.Forest.Draft
import ScenarioForest.Text.Quoted
set_option autoImplicit false

/-!
The journal: what is noted while a document is read and a forest is flattened. The notes follow
from the drafts and the results, so reading itself does not know of them.
-/

namespace ScenarioForest

inductive Severity where
  | trace
  | debug
  | info
  deriving DecidableEq, Repr

def Severity.name : Severity → Text
  | .trace => "TRACE".toList
  | .debug => "DEBUG".toList
  | .info => "INFO".toList

structure Note where
  severity : Severity
  message : Text
  deriving DecidableEq, Repr

def showComment (comment : Option Text) : Text := Text.optional (comment.map Text.quoted)

def Row.shown (r : Row) : Text :=
  Text.record "TableRow"
    [("cells", Text.listed (r.cells.map Text.quoted)), ("comment", showComment r.comment)]

def StepLine.shown (l : StepLine) : Text :=
  Text.record "StepLine"
    [("keyword", l.keyword.text), ("text", Text.quoted l.text), ("comment", showComment l.comment)]

def Line.shown : Line → Text
  | .feature name => Text.record "FeatureHeader" [("name", Text.quoted name)]
  | .scenario name => Text.record "ScenarioHeader" [("name", Text.quoted name)]
  | .step l => Text.tagged "Step" l.shown
  | .row r => Text.tagged "DataTableRow" r.shown
  | .text t => Text.tagged "PlainText" (Text.quoted t)
  | .unrecognized t => Text.tagged "Unrecognized" (Text.quoted t)

def Line.note (lineNo level : Nat) (line : Line) : Note :=
  ⟨.trace, "line ".toList ++ Text.ofNat lineNo ++ " at level ".toList ++ Text.ofNat level ++
    ": ".toList ++ line.shown⟩

def Scenario.note (s : Scenario) : Note :=
  let parent := s.parent.map fun p => Text.tagged "ScenarioId" (Text.ofNat p)
  ⟨.debug, "attached scenario ".toList ++ Text.quoted s.name ++ " at level ".toList ++
    Text.ofNat s.level ++ " under ".toList ++ Text.optional parent⟩

def Draft.notesOn (d : Draft) (lineNo : Nat) (raw : Text) : List Note :=
  let line := IndentedLine.split raw
  if line.isBlank then []
  else
    match line.level? with
    | none => []
    | some level =>
      let content := d.lineOf line.content
      content.note lineNo level ::
        match content, d.push raw with
        | .scenario _, .ok next => (next.forest.scenarios.getLast?.map Scenario.note).toList
        | _, _ => []

def Draft.notesOnAll (d : Draft) (lineNo : Nat) : List Text → List Note
  | [] => []
  | raw :: rest =>
    d.notesOn lineNo raw ++
      match d.push raw with
      | .error _ => []
      | .ok next => next.notesOnAll (lineNo + 1) rest

def Forest.noteRead (f : Forest) : Note :=
  ⟨.info, "parsed ".toList ++ Text.ofNat f.scenarios.length ++ " scenarios in ".toList ++
    Text.ofNat f.roots.length ++ " trees".toList⟩

def notesOnParse (o : ParseOptions) (t : Text) : List Note :=
  (Draft.start o).notesOnAll 1 (Text.lines t) ++
    match Forest.parse o t with
    | .error _ => []
    | .ok f => [f.noteRead]

def FlatScenario.note (mode : FlattenMode) (s : FlatScenario) : Note :=
  ⟨.debug, "emitted ".toList ++ mode.name ++ " scenario ".toList ++ Text.quoted s.name ++
    " with ".toList ++ Text.ofNat s.steps.length ++ " steps".toList⟩

def Forest.notesOnFlatten (f : Forest) (mode : FlattenMode) : List Note :=
  let flat := (f.flatten mode).1
  flat.map (·.note mode) ++
    [⟨.info, "flattened ".toList ++ Text.ofNat f.scenarios.length ++ " scenarios into ".toList ++
      Text.ofNat flat.length ++ ' ' :: mode.name ++ " scenarios".toList⟩]

end ScenarioForest
