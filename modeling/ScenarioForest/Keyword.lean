import ScenarioForest.Text.Blank
set_option autoImplicit false

/-!
What a step does, and the five words that open a step line.
-/

namespace ScenarioForest

inductive StepKind where
  | prerequisite
  | action
  | assertion
  deriving DecidableEq, Repr

def StepKind.name : StepKind → Text
  | .prerequisite => "Prerequisite".toList
  | .action => "Action".toList
  | .assertion => "Assertion".toList

/-- Each kind has a primary word; `And` and `But` go on with the kind of the step before. -/
inductive Keyword where
  | primary (kind : StepKind)
  | and
  | but
  deriving DecidableEq, Repr

def Keyword.text : Keyword → Text
  | .primary .prerequisite => "Given".toList
  | .primary .action => "When".toList
  | .primary .assertion => "Then".toList
  | .and => "And".toList
  | .but => "But".toList

def Keyword.all : List Keyword :=
  [.primary .prerequisite, .primary .action, .primary .assertion, .and, .but]

theorem Keyword.mem_all (k : Keyword) : k ∈ Keyword.all := by
  rcases k with (_ | _ | _) | _ | _ <;> decide

def Keyword.kind? : Keyword → Option StepKind
  | .primary kind => some kind
  | .and | .but => none

def Keyword.isConjunction (k : Keyword) : Bool := k.kind?.isNone

def Keyword.resolve (k : Keyword) (previous : Option StepKind) : Option StepKind :=
  k.kind?.or previous

theorem Keyword.resolve_eq_none_iff {k : Keyword} {previous : Option StepKind} :
    k.resolve previous = none ↔ k.isConjunction = true ∧ previous = none := by
  cases k <;> simp [resolve, isConjunction, kind?]

structure UnsupportedType where
  name : Text
  deriving DecidableEq, Repr

def StepKind.typeName (kind : StepKind) : Text := (Keyword.primary kind).text

def StepKind.ofTypeName (name : Text) : Except UnsupportedType StepKind :=
  match [StepKind.prerequisite, .action, .assertion].find? (·.typeName == name) with
  | some kind => .ok kind
  | none => .error ⟨name⟩

theorem StepKind.ofTypeName_typeName (kind : StepKind) :
    StepKind.ofTypeName kind.typeName = .ok kind := by
  cases kind <;> rfl

structure UnknownKeyword where
  text : Text
  deriving DecidableEq, Repr

/-- Reads a word in any mix of ASCII cases, with blanks around it. -/
def Keyword.read (t : Text) : Except UnknownKeyword Keyword :=
  match Keyword.all.find? fun k =>
    k.text.map Char.toLower == (Text.trim t).map Char.toLower with
  | some k => .ok k
  | none => .error ⟨Text.trim t⟩

theorem Keyword.read_text (k : Keyword) : Keyword.read k.text = .ok k := by
  rcases k with (_ | _ | _) | _ | _ <;> rfl

end ScenarioForest
