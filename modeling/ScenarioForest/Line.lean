import ScenarioForest.Keyword
import ScenarioForest.Row
set_option autoImplicit false

/-!
What the content of a line can be: a header, a step, a table row, or text.
-/

namespace ScenarioForest

structure StepLine where
  keyword : Keyword
  text : Text
  comment : Option Text
  deriving DecidableEq, Repr

/-- Reads a step: one of the five words in exact case, a space, and at least one more character.
The first mark after that character starts the comment. -/
def StepLine.read? (t : Text) : Option StepLine :=
  Keyword.all.findSome? fun k =>
    match (k.text ++ [' ']).isPrefixOf? t with
    | some (c :: rest) =>
      if (c :: rest).contains '\n' then none
      else
        let (said, comment) := Text.cutComment rest
        some ⟨k, Text.trim (c :: said), comment.map Text.trim⟩
    | _ => none

def featureMark : Text := "Feature: ".toList

def scenarioMark : Text := "Scenario: ".toList

def header? (mark t : Text) : Option Text :=
  (mark.isPrefixOf? t).map fun rest => Text.trim (rest.takeWhile (· != '\n'))

inductive Line where
  | feature (name : Text)
  | scenario (name : Text)
  | step (line : StepLine)
  | row (row : Row)
  | text (content : Text)
  | unrecognized (content : Text)
  deriving DecidableEq, Repr

/-- Tells what a content is. Free text is recognized only where it is welcome. -/
def Line.read (content : Text) (welcomesText : Bool) : Line :=
  match header? featureMark content with
  | some name => .feature name
  | none =>
    match header? scenarioMark content with
    | some name => .scenario name
    | none =>
      match StepLine.read? content with
      | some line => .step line
      | none =>
        match Row.read? content with
        | some r => .row r
        | none => if welcomesText then .text content else .unrecognized content

end ScenarioForest
