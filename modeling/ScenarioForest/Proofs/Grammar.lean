import Mathlib.Data.List.DropRight
import ScenarioForest.Line
import ScenarioForest.Line.Indented
import ScenarioForest.Options
import ScenarioForest.Text.Lines
set_option autoImplicit false

/-!
The grammar of documents, said of the lines alone: what each line is by its content, how deep it
stands, and what stands before it.
-/

namespace ScenarioForest

def Line.isFeature : Line → Bool
  | .feature _ => true
  | _ => false

def Line.isScenario : Line → Bool
  | .scenario _ => true
  | _ => false

def Line.isStep : Line → Bool
  | .step _ => true
  | _ => false

def Line.isText : Line → Bool
  | .text _ => true
  | _ => false

def IndentedLine.line (l : IndentedLine) : Line := Line.read l.content true

def IndentedLine.depth (l : IndentedLine) : Nat := l.indentation / indentWidth + 1

def visibleLines (raws : List Text) : List IndentedLine :=
  (raws.map IndentedLine.split).filter (!·.isBlank)

def Everywhere (P : List IndentedLine → IndentedLine → Prop) (lines : List IndentedLine) : Prop :=
  ∀ before l after, lines = before ++ l :: after → P before l

theorem everywhere_nil {P : List IndentedLine → IndentedLine → Prop} : Everywhere P [] := by
  intro before l after h
  simp at h

theorem everywhere_concat {P : List IndentedLine → IndentedLine → Prop}
    {lines : List IndentedLine} {l : IndentedLine} :
    Everywhere P (lines ++ [l]) ↔ Everywhere P lines ∧ P lines l := by
  constructor
  · intro h
    refine ⟨fun before m after hs => h before m (after ++ [l]) (by simp [hs]), h lines l [] rfl⟩
  · rintro ⟨h, hl⟩ before m after hs
    rcases List.eq_nil_or_concat after with rfl | ⟨after, n, rfl⟩
    · obtain ⟨rfl, hm⟩ := List.append_inj' hs rfl
      cases hm
      exact hl
    · rw [List.concat_eq_append, ← List.cons_append, ← List.append_assoc] at hs
      exact h before m after (List.append_inj' hs rfl).1

def latestHeader? (before : List IndentedLine) : Option IndentedLine :=
  (before.filter (·.line.isScenario)).getLast?

def sinceHeader (before : List IndentedLine) : List IndentedLine :=
  before.rtakeWhile (!·.line.isScenario)

def sinceStep (before : List IndentedLine) : List IndentedLine :=
  before.rtakeWhile (!·.line.isStep)

/-- Steps stand under a scenario header at the distance of a convention, which is the one asked
for if one is. -/
structure KeepsConvention (o : ParseOptions) (lines : List IndentedLine) (c : StepIndentation) :
    Prop where
  asked : ∀ fixed, o.stepIndentation = some fixed → c = fixed
  step : Everywhere (fun before l => l.line.isStep = true →
    ∃ h, latestHeader? before = some h ∧ l.depth = h.depth + c.offset) lines

/-- The documents that can be read, by their visible lines. -/
structure DocumentGrammar (o : ParseOptions) (lines : List IndentedLine) : Prop where
  indented : ∀ l ∈ lines, l.indentation % indentWidth = 0
  text : Everywhere (fun before l => l.line.isText = true →
    (∃ h ∈ before, h.line.isFeature = true) ∧ ∀ h ∈ before, h.line.isScenario = false) lines
  feature : Everywhere (fun before l => l.line.isFeature = true → before = []) lines
  scenario : Everywhere (fun before l => l.line.isScenario = true →
    (latestHeader? before = none → l.depth = 1) ∧
      ∀ h, latestHeader? before = some h → l.depth ≤ h.depth + 1) lines
  step : ∃ c, KeepsConvention o lines c
  keyword : Everywhere (fun before l => ∀ s, l.line = .step s →
    (∀ m ∈ sinceHeader before, m.line.isStep = false) → s.keyword.isConjunction = false) lines
  row : Everywhere (fun before l => ∀ r, l.line = .row r →
    (∃ m ∈ sinceHeader before, m.line.isStep = true) ∧
      ∀ m ∈ sinceStep before, ∀ q, m.line = .row q → r.width = q.width) lines

end ScenarioForest
