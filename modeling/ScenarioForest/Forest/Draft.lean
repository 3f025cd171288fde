import ScenarioForest.Forest
import ScenarioForest.Line
import ScenarioForest.Line.Indented
import ScenarioForest.Options
import ScenarioForest.ParseError
import ScenarioForest.Text.Lines
set_option autoImplicit false

/-!
A forest in the making. Each line of a document either extends the draft or has a fault, and the
first fault ends the reading.
-/

namespace ScenarioForest

structure Draft where
  forest : Forest
  convention : Option StepIndentation
  deriving DecidableEq

def Draft.start (o : ParseOptions) : Draft := ⟨Forest.empty, o.stepIndentation⟩

def Draft.welcomesText (d : Draft) : Bool :=
  d.forest.name.isSome && d.forest.scenarios.isEmpty

def Draft.addFeature (d : Draft) (content name : Text) : Except Fault Draft :=
  if d.forest.name.isSome || !d.forest.scenarios.isEmpty then .error (.featureMisplaced content)
  else .ok { d with forest := { d.forest with name := some name } }

def Draft.addText (d : Draft) (text : Text) : Draft :=
  { d with forest := { d.forest with description := d.forest.description ++ [text] } }

def Draft.attach (d : Draft) (level : Nat) (name : Text) (parent : Option Nat) : Draft :=
  let s := Scenario.named d.forest.scenarios.length name parent level
  { d with forest := { d.forest with scenarios := d.forest.scenarios ++ [s] } }

/-- Opens a scenario. Level 1 makes a root, and a deeper one needs an open scenario one level
further out. -/
def Draft.addScenario (d : Draft) (level : Nat) (name : Text) : Except Fault Draft :=
  if level ≤ 1 then .ok (d.attach level name none)
  else
    match d.forest.openAt? (level - 1) with
    | some p => .ok (d.attach level name (some p.id))
    | none => .error (.excessiveIndentation name)

def Draft.replaceLast (d : Draft) (s : Scenario) : Draft :=
  { d with forest := { d.forest with scenarios := d.forest.scenarios.dropLast ++ [s] } }

/-- The convention that a step shows by its level, unless it breaks the one that holds. -/
def Draft.conventionFor? (d : Draft) (s : Scenario) (level : Nat) : Option StepIndentation :=
  if level < s.level then none
  else
    match StepIndentation.ofOffset? (level - s.level), d.convention with
    | some found, none => some found
    | some found, some c => if c = found then some found else none
    | none, _ => none

def StepLine.toStep (l : StepLine) (kind : StepKind) : Step :=
  { Step.named l.text kind with comment := l.comment }

def Draft.addStep (d : Draft) (level : Nat) (content : Text) (l : StepLine) :
    Except Fault Draft :=
  match d.forest.scenarios.getLast? with
  | none => .error (.stepOutsideScenario content)
  | some s =>
    match d.conventionFor? s level with
    | none => .error (.invalidIndentation l.text)
    | some c =>
      match l.keyword.resolve s.lastKind? with
      | none => .error (.conjunctionWithoutStep content)
      | some kind => .ok { d.replaceLast (s.addStep (l.toStep kind)) with convention := some c }

def Draft.addRow (d : Draft) (content : Text) (r : Row) : Except Fault Draft :=
  match d.forest.scenarios.getLast? with
  | none => .error (.dataRowWithoutStep content)
  | some s =>
    match s.steps.getLast? with
    | none => .error (.dataRowWithoutStep content)
    | some step =>
      match step.addRow r with
      | .error e => .error (.unevenDataRow e)
      | .ok step => .ok (d.replaceLast { s with steps := s.steps.dropLast ++ [step] })

def Draft.add (d : Draft) (level : Nat) (content : Text) : Line → Except Fault Draft
  | .feature name => d.addFeature content name
  | .scenario name => d.addScenario level name
  | .step l => d.addStep level content l
  | .row r => d.addRow content r
  | .text t => .ok (d.addText t)
  | .unrecognized t => .error (.unparseable t)

def Draft.lineOf (d : Draft) (content : Text) : Line := Line.read content d.welcomesText

/-- Reads a line. Blank lines change nothing. -/
def Draft.push (d : Draft) (raw : Text) : Except Fault Draft :=
  let line := IndentedLine.split raw
  if line.isBlank then .ok d
  else
    match line.level? with
    | none => .error (.invalidIndentation line.content)
    | some level => d.add level line.content (d.lineOf line.content)

def Draft.pushAll (d : Draft) (lineNo : Nat) : List Text → Except ParseError Draft
  | [] => .ok d
  | raw :: rest =>
    match d.push raw with
    | .error fault => .error ⟨lineNo, fault⟩
    | .ok next => next.pushAll (lineNo + 1) rest

def Forest.ofLines (o : ParseOptions) (lines : List Text) : Except ParseError Forest :=
  ((Draft.start o).pushAll 1 lines).map (·.forest)

def Forest.parse (o : ParseOptions) (t : Text) : Except ParseError Forest :=
  Forest.ofLines o (Text.lines t)

end ScenarioForest
