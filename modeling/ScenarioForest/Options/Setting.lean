import ScenarioForest.Options
set_option autoImplicit false

/-!
Options as values of a configuration file.
-/

namespace ScenarioForest

/-- A value of a configuration file. No option is a number, so numbers need no content. -/
inductive Setting where
  | null
  | bool (b : Bool)
  | number
  | text (t : Text)
  | list (values : List Setting)
  | object (fields : List (Text × Setting))
  deriving Inhabited

/-- The fields of a group of options by name. An object may lack fields and hold others; a list
gives the fields in order and may be short. -/
def Setting.fields? (names : List Text) : Setting → Option (List (Option Setting))
  | .object fields => some (names.map fun name => List.lookup name fields)
  | .list values =>
    if values.length ≤ names.length then
      some (values.map some ++ List.replicate (names.length - values.length) none)
    else none
  | _ => none

/-- One of several named choices: its name, or an object of that one field, which is null. -/
def Setting.choice? {α : Type} (named : Text → Option α) : Setting → Option α
  | .text t => named t
  | .object [(t, .null)] => named t
  | _ => none

def Setting.optionalChoice? {α : Type} (named : Text → Option α) :
    Option Setting → Option (Option α)
  | none | some .null => some none
  | some s => (s.choice? named).map some

def Setting.bool? : Setting → Option Bool
  | .bool b => some b
  | _ => none

def Setting.default? {α : Type} (default : α) (read : Setting → Option α) :
    Option Setting → Option α
  | none => some default
  | some s => read s

def FlattenOptions.ofSetting? (s : Setting) : Option FlattenOptions :=
  match s.fields? ["mode".toList, "write_comments".toList] with
  | some [mode, comments] => do
    let mode ← Setting.default? .strict (·.choice? FlattenMode.ofName?) mode
    let comments ← Setting.default? false Setting.bool? comments
    some ⟨mode, comments⟩
  | _ => none

def FlattenOptions.toSetting (o : FlattenOptions) : Setting :=
  .object [("mode".toList, .text o.mode.name), ("write_comments".toList, .bool o.writeComments)]

theorem FlattenOptions.ofSetting?_toSetting (o : FlattenOptions) :
    FlattenOptions.ofSetting? o.toSetting = some o := by
  rcases o with ⟨_ | _, _⟩ <;> rfl

def ParseOptions.ofSetting? (s : Setting) : Option ParseOptions :=
  match s.fields? ["step_indentation".toList] with
  | some [convention] =>
    (Setting.optionalChoice? StepIndentation.ofName? convention).map ParseOptions.mk
  | _ => none

def ParseOptions.toSetting (o : ParseOptions) : Setting :=
  .object [("step_indentation".toList, (o.stepIndentation.map (Setting.text ·.name)).getD .null)]

theorem ParseOptions.ofSetting?_toSetting (o : ParseOptions) :
    ParseOptions.ofSetting? o.toSetting = some o := by
  rcases o with ⟨_ | _ | _⟩ <;> rfl

end ScenarioForest
