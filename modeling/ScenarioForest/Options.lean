import ScenarioForest.Text.Blank
set_option autoImplicit false

/-!
The choices a user makes: how a forest is flattened and where steps stand below their scenario.
-/

namespace ScenarioForest

/-- Strict flattening emits one scenario for each scenario that checks something. Relaxed
flattening emits one for each leaf and checks everything once. -/
inductive FlattenMode where
  | strict
  | relaxed
  deriving DecidableEq, Repr

def FlattenMode.name : FlattenMode → Text
  | .strict => "strict".toList
  | .relaxed => "relaxed".toList

def FlattenMode.ofName? (t : Text) : Option FlattenMode :=
  [FlattenMode.strict, .relaxed].find? (·.name == t)

theorem FlattenMode.ofName?_name (m : FlattenMode) : FlattenMode.ofName? m.name = some m := by
  cases m <;> decide

inductive OptionError where
  | invalidMode (value : Text)
  | invalidBool (key value : Text)
  deriving DecidableEq, Repr

/-- Reads a mode in any case, with blanks around it. No letter beyond ASCII becomes a letter of
the two names in lowercase, so the ASCII letters decide. -/
def FlattenMode.read (t : Text) : Except OptionError FlattenMode :=
  match FlattenMode.ofName? ((Text.trim t).map Char.toLower) with
  | some m => .ok m
  | none => .error (.invalidMode t)

theorem FlattenMode.read_name (m : FlattenMode) : FlattenMode.read m.name = .ok m := by
  cases m <;> rfl

/-- Steps stand at the level of their scenario or one level deeper. -/
inductive StepIndentation where
  | sameAsScenario
  | nested
  deriving DecidableEq, Repr

def StepIndentation.name : StepIndentation → Text
  | .sameAsScenario => "same_as_scenario".toList
  | .nested => "nested".toList

def StepIndentation.ofName? (t : Text) : Option StepIndentation :=
  [StepIndentation.sameAsScenario, .nested].find? (·.name == t)

def StepIndentation.offset : StepIndentation → Nat
  | .sameAsScenario => 0
  | .nested => 1

def StepIndentation.ofOffset? : Nat → Option StepIndentation
  | 0 => some .sameAsScenario
  | 1 => some .nested
  | _ => none

theorem StepIndentation.ofOffset?_eq_some_iff {n : Nat} {c : StepIndentation} :
    StepIndentation.ofOffset? n = some c ↔ n = c.offset := by
  rcases n with _ | _ | n <;> cases c <;> simp [ofOffset?, offset]

/-- How a document is read. Without a fixed convention the first step decides. -/
structure ParseOptions where
  stepIndentation : Option StepIndentation := none
  deriving DecidableEq, Repr

structure FlattenOptions where
  mode : FlattenMode := .strict
  writeComments : Bool := false
  deriving DecidableEq, Repr

def modeKey : Text := "MANYWORLDS_FLATTEN_MODE".toList

def commentsKey : Text := "MANYWORLDS_WRITE_COMMENTS".toList

def yesWords : List Text :=
  ["1", "true", "TRUE", "True", "yes", "YES", "Yes", "on", "ON", "On"].map String.toList

def noWords : List Text :=
  ["0", "false", "FALSE", "False", "no", "NO", "No", "off", "OFF", "Off"].map String.toList

def readBool? (t : Text) : Option Bool :=
  let word := Text.trim t
  if yesWords.contains word then some true
  else if noWords.contains word then some false
  else none

/-- Reads the options from named variables. A variable that is not set leaves its default, and
of two faults the one of the mode is told. -/
def FlattenOptions.ofVariables (get : Text → Option Text) : Except OptionError FlattenOptions := do
  let mode ← match get modeKey with
    | none => .ok FlattenMode.strict
    | some value => FlattenMode.read value
  match get commentsKey with
  | none => .ok ⟨mode, false⟩
  | some value =>
    match readBool? value with
    | some b => .ok ⟨mode, b⟩
    | none => .error (.invalidBool commentsKey value)

end ScenarioForest
