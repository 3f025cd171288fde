import ScenarioForest.Text.Blank
set_option autoImplicit false

/-!
Comments at the end of a line. A comment follows the mark, a hash between two spaces, and is
never empty.
-/

namespace ScenarioForest

def commentMark : Text := " # ".toList

def Text.comment? (t : Text) : Option Text :=
  match commentMark.isPrefixOf? t with
  | some (c :: rest) => some (c :: rest)
  | _ => none

/-- Cuts a text at the first mark that something follows. -/
def Text.cutComment : Text → Text × Option Text
  | [] => ([], none)
  | c :: t =>
    match Text.comment? (c :: t) with
    | some k => ([], some k)
    | none => (c :: (Text.cutComment t).1, (Text.cutComment t).2)

end ScenarioForest
