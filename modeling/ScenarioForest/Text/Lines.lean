import ScenarioForest.Text.Blank
set_option autoImplicit false

/-!
A document as a list of lines, and back. Reading what was written gives the same lines, as long
as no line holds a line end of its own.
-/

namespace ScenarioForest

def startLine (c : Char) : List Text → List Text
  | [] => [[c]]
  | line :: rest => (c :: line) :: rest

/-- The lines of a document. A line ends with a line feed, a carriage return just before it
belongs to the line end, and nothing after the last line end counts as no line. -/
def Text.lines : Text → List Text
  | [] => []
  | '\n' :: t => [] :: Text.lines t
  | '\r' :: '\n' :: t => [] :: Text.lines t
  | c :: t => startLine c (Text.lines t)

theorem Text.lines_cons_of_ne {c : Char} {t : Text} (hn : c ≠ '\n')
    (hr : c = '\r' → t.head? ≠ some '\n') : Text.lines (c :: t) = startLine c (Text.lines t) := by
  rw [lines.eq_def]
  split <;> simp_all

theorem Text.head?_ne_of_return {c : Char} {t : Text}
    (h : ∀ rest, c = '\r' → t = '\n' :: rest → False) : c = '\r' → t.head? ≠ some '\n' := by
  intro hc ht
  obtain ⟨rest, hrest⟩ := List.head?_eq_some_iff.1 ht
  exact h rest hc hrest

theorem Text.lines_line {line rest : Text} (hn : '\n' ∉ line) (hr : line.getLast? ≠ some '\r') :
    Text.lines (line ++ '\n' :: rest) = line :: Text.lines rest := by
  induction line with
  | nil => simp [lines]
  | cons c line ih =>
    simp only [List.mem_cons, not_or] at hn
    rw [List.cons_append, lines_cons_of_ne (Ne.symm hn.1), ih hn.2]
    · rfl
    · cases line <;> simp_all
    · rintro rfl
      cases line with
      | nil => simp at hr
      | cons d line => simpa [eq_comm] using fun h => hn.2 (by simp [h])

def Text.unlines (lines : List Text) : Text := lines.flatMap (· ++ ['\n'])

@[simp] theorem Text.unlines_cons (line : Text) (rest : List Text) :
    Text.unlines (line :: rest) = line ++ '\n' :: Text.unlines rest := by
  simp [unlines]

theorem Text.unlines_append (first second : List Text) :
    Text.unlines (first ++ second) = Text.unlines first ++ Text.unlines second := by
  simp [unlines]

theorem Text.lines_unlines {lines : List Text}
    (h : ∀ line ∈ lines, '\n' ∉ line ∧ line.getLast? ≠ some '\r') :
    Text.lines (Text.unlines lines) = lines := by
  induction lines with
  | nil => rfl
  | cons line rest ih =>
    rw [unlines_cons, lines_line (h line (by simp)).1 (h line (by simp)).2,
      ih fun l hl => h l (by simp [hl])]

end ScenarioForest
