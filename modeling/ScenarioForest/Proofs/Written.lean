import ScenarioForest.Document
import ScenarioForest.Proofs.Tidy
set_option autoImplicit false

/-!
The lines of a written document, one by one: none holds a line end of its own, and each is read as
what it was written for.
-/

namespace ScenarioForest

theorem blank_of_mem_replicate {n : Nat} {c : Char} (h : c ∈ List.replicate n ' ') :
    isBlank c = true := by
  rw [List.eq_of_mem_replicate h]
  decide

def paddedCell (cell : Text) (width : Nat) : Text := ' ' :: Text.padRight width cell ++ [' ']

theorem isCell_paddedCell (cell : Text) (width : Nat) : isCell (paddedCell cell width) = true := by
  have hlast : (paddedCell cell width).getLast? = some ' ' := List.getLast?_concat
  simp [isCell, hlast]
  simp [paddedCell]

theorem mem_paddedCell {cell : Text} {width : Nat} {c : Char} (h : c ∈ paddedCell cell width) :
    c ∈ cell ∨ c = ' ' := by
  simp only [paddedCell, Text.padRight, List.mem_append, List.mem_cons, List.mem_replicate] at h
  tauto

theorem Text.Trimmed.trim_paddedCell {cell : Text} (h : Text.Trimmed cell) (width : Nat) :
    Text.trim (paddedCell cell width) = cell := by
  have hb : ∀ c ∈ List.replicate (width - cell.length) ' ' ++ [' '], isBlank c = true := by
    rw [← List.replicate_succ']
    exact fun _ => blank_of_mem_replicate
  have ha : ∀ c ∈ [' '], isBlank c = true := fun _ => blank_of_mem_replicate (n := 1)
  have hpad := h.trim_pad ha hb
  simpa [paddedCell, Text.padRight] using hpad

def Row.padded (r : Row) (widths : List Nat) : List Text := List.zipWith paddedCell r.cells widths

theorem Row.fields_eq_flatten (r : Row) (widths : List Nat) :
    r.fields widths = ((r.padded widths).map ('|' :: ·)).flatten ++ ['|'] := by
  rw [fields, padded, List.map_zipWith]
  rfl

theorem Row.fields_eq (r : Row) (widths : List Nat) :
    r.fields widths = '|' :: (r.padded widths).flatMap (· ++ ['|']) := by
  rw [fields_eq_flatten]
  generalize r.padded widths = cells
  induction cells with
  | nil => rfl
  | cons x rest ih => simp [ih]

theorem Row.mem_padded {r : Row} {widths : List Nat} {x : Text} (h : x ∈ r.padded widths) :
    ∃ cell ∈ r.cells, ∃ width, x = paddedCell cell width := by
  obtain ⟨i, hi, rfl⟩ := List.mem_iff_getElem.1 h
  rw [padded, List.length_zipWith] at hi
  exact ⟨r.cells[i], List.getElem_mem _, widths[i], by simp [padded]⟩

theorem Row.newline_not_mem_fields {r : Row} {widths : List Nat}
    (h : ∀ cell ∈ r.cells, '\n' ∉ cell) : '\n' ∉ r.fields widths := by
  rw [fields_eq]
  simp only [List.mem_cons, List.mem_flatMap, List.mem_append, List.not_mem_nil, or_false]
  rintro (hn | ⟨x, hx, hn | hn⟩)
  · exact absurd hn (by decide)
  · obtain ⟨cell, hcell, width, rfl⟩ := mem_padded hx
    cases mem_paddedCell hn with
    | inl hn => exact h cell hcell hn
    | inr hn => exact absurd hn (by decide)
  · exact absurd hn (by decide)

section

variable {r : Row} (h : r.Tidy) {widths : List Nat} (hw : widths.length = r.width)

include h

theorem Row.Tidy.padded_cell : ∀ x ∈ r.padded widths, isCell x = true ∧ '|' ∉ x := by
  intro x hx
  obtain ⟨cell, hcell, width, rfl⟩ := mem_padded hx
  refine ⟨isCell_paddedCell cell width, fun hm => ?_⟩
  rcases mem_paddedCell hm with hm | hm
  · exact (h.cell cell hcell).2 hm
  · exact absurd hm (by decide)

theorem Row.Tidy.solid_fields : Text.Solid (r.fields widths) := by
  have hne : r.fields widths ≠ [] := by simp [fields_eq]
  refine ⟨⟨⟨?_, ?_⟩, ?_⟩, hne⟩
  · intro c hc
    rw [fields_eq] at hc
    cases hc
    decide
  · intro c hc
    rw [fields, List.getLast?_concat] at hc
    cases hc
    decide
  · exact newline_not_mem_fields fun cell hcell => (h.cell cell hcell).1.oneLine

theorem Row.Tidy.solid_fields_tail (comments : Bool) :
    Text.Solid (r.fields widths ++ r.tail comments) := by
  have hfields : Text.Solid (r.fields widths) := h.solid_fields
  cases comments with
  | false => simpa [tail] using hfields
  | true =>
    cases hk : r.comment with
    | none => simpa [tail, hk] using hfields
    | some k =>
      have hmark : '\n' ∉ commentMark := by decide
      simpa [tail, hk] using hfields.append hmark (h.comment k hk)

include hw

theorem Row.Tidy.map_trim_padded : (r.padded widths).map Text.trim = r.cells := by
  have htrim : ∀ i (hi : i < r.cells.length) width,
      Text.trim (paddedCell r.cells[i] width) = r.cells[i] := fun i hi width =>
    (h.cell _ (List.getElem_mem hi)).1.trim_paddedCell width
  refine List.ext_getElem ?_ fun i hi hi' => ?_
  · simp only [padded, List.length_map, List.length_zipWith, hw, width]
    omega
  · simp [padded, htrim]

theorem Row.Tidy.read?_fields_append {t : Text} {found : List Text × Option Text}
    (ht : readRest? t = some found) : Row.read? (r.fields widths ++ t) =
      some ⟨r.cells ++ found.1.map Text.trim, found.2.map Text.trim⟩ := by
  have hmap := h.map_trim_padded hw
  have hne : r.padded widths ≠ [] := by
    intro hnil
    rw [hnil] at hmap
    exact h.cells_ne_nil hmap.symm
  rw [fields_eq, List.cons_append, read?_flatMap_append hne h.padded_cell ht, List.map_append, hmap]

theorem Row.Tidy.read?_fields : Row.read? (r.fields widths) = some r.eraseComment := by
  have hend : readRest? [] = some ([], none) := rfl
  simpa [eraseComment] using h.read?_fields_append hw hend

end

theorem Table.length_columnWidths (t : Table) : t.columnWidths.length = t.width := by
  have hfold : ∀ (rows : List Row) (widths : List Nat), (∀ r ∈ rows, r.width = widths.length) →
      (rows.foldl (fun widths r => List.zipWith max widths (r.cells.map List.length))
        widths).length = widths.length := by
    intro rows
    induction rows with
    | nil => exact fun _ _ => rfl
    | cons r rest ih =>
      intro widths hall
      obtain ⟨hr, hrest⟩ := List.forall_mem_cons.1 hall
      have hlen : (List.zipWith max widths (r.cells.map List.length)).length = widths.length := by
        rw [Row.width] at hr
        simp [hr]
      rw [List.foldl_cons, ih _ (by simpa [hlen] using hrest), hlen]
  rw [columnWidths, hfold]
  · simp [width, Row.width]
  · intro r hr
    rw [t.even r hr]
    simp [Row.width]

theorem Table.width_of_mem {t : Table} {r : Row} (h : r ∈ t.allRows) : r.width = t.width := by
  rcases List.mem_cons.1 h with rfl | h
  · rfl
  · exact t.even r h

/-- Text that is read as one line if it is written as one. -/
def Text.OneLine (t : Text) : Prop := '\n' ∉ t ∧ t.getLast? ≠ some '\r'

theorem Text.oneLine_nil : Text.OneLine [] := ⟨by simp, by simp⟩

theorem Text.Solid.oneLine_append {mark t : Text} (ht : Text.Solid t) (hm : '\n' ∉ mark) :
    Text.OneLine (mark ++ t) := by
  refine ⟨by simp [hm, ht.oneLine], fun hr => ?_⟩
  rw [List.getLast?_append_of_ne_nil _ ht.ne_nil] at hr
  exact absurd (ht.last '\r' hr) (by decide)

theorem newline_not_mem_indent : '\n' ∉ indent := by decide

theorem Step.Tidy.oneLine_line {s : Step} (h : s.Tidy) (first : Bool) :
    Text.OneLine (s.line first) := by
  have hkeyword : '\n' ∉ (s.keyword first).text ++ [' '] := by
    rcases s.keyword first with (_ | _ | _) | _ | _ <;> decide
  rw [Step.line, List.append_cons]
  by_cases hne : s.name = []
  · rw [hne, List.append_nil]
    exact ⟨hkeyword, by simp⟩
  · exact Text.Solid.oneLine_append ⟨h.name, hne⟩ hkeyword

theorem Table.lines_false (t : Table) :
    t.lines false = t.allRows.map fun r => indent ++ r.fields t.columnWidths := by
  simp [lines, Row.tail]

theorem Step.lines_false (s : Step) (first : Bool) :
    s.lines first false = s.line first :: s.table.elim [] (·.lines false) := rfl

theorem Step.Tidy.oneLine_lines {s : Step} (h : s.Tidy) (first comments : Bool) :
    ∀ l ∈ s.lines first comments, Text.OneLine l := by
  intro l hl
  rw [lines, List.cons_append, List.mem_cons, List.mem_append] at hl
  rcases hl with rfl | hl | hl
  · exact h.oneLine_line first
  · cases comments with
    | false => simp at hl
    | true =>
      simp only [if_true, Option.mem_toList, Option.map_eq_some_iff] at hl
      obtain ⟨k, hk, rfl⟩ := hl
      exact (h.comment k hk).oneLine_append (by decide)
  · cases ht : s.table with
    | none => simp [ht] at hl
    | some t =>
      rw [ht, Option.elim_some] at hl
      obtain ⟨r, hr, rfl⟩ := List.mem_map.1 hl
      rw [List.append_assoc]
      exact ((h.table t ht r hr).solid_fields_tail comments).oneLine_append newline_not_mem_indent

theorem oneLine_stepLines {steps : List Step} (h : ∀ s ∈ steps, s.Tidy) (comments : Bool)
    (previous : Option StepKind) : ∀ l ∈ stepLines comments previous steps, Text.OneLine l := by
  induction steps generalizing previous with
  | nil => simp [stepLines]
  | cons s rest ih =>
    obtain ⟨hs, hrest⟩ := List.forall_mem_cons.1 h
    exact List.forall_mem_append.2 ⟨hs.oneLine_lines _ comments, ih hrest _⟩

theorem FlatScenario.Tidy.oneLine_lines {s : FlatScenario} (h : s.Tidy) (comments : Bool) :
    ∀ l ∈ s.lines comments, Text.OneLine l := by
  intro l hl
  rw [lines, List.cons_append, List.mem_cons, List.mem_append, List.mem_singleton] at hl
  rcases hl with rfl | hl | rfl
  · exact h.name.oneLine_append (by decide)
  · exact oneLine_stepLines h.steps comments none l hl
  · exact Text.oneLine_nil

theorem oneLine_featureLines {name : Text} {description : List Text} (hn : Text.Solid name)
    (hd : ∀ t ∈ description, Text.Solid t) :
    ∀ l ∈ featureLines name description, Text.OneLine l := by
  intro l hl
  simp only [featureLines, List.cons_append, List.mem_cons, List.mem_append, List.mem_map] at hl
  rcases hl with rfl | rfl | ⟨t, ht, rfl⟩ | hl
  · exact hn.oneLine_append (by decide)
  · exact Text.oneLine_nil
  · exact (hd t ht).oneLine_append newline_not_mem_indent
  · split at hl
    · simp at hl
    · rw [List.mem_singleton.1 hl]
      exact Text.oneLine_nil

theorem Forest.Tidy.lines_unlines {f : Forest} (h : f.Tidy) {flat : List FlatScenario}
    (hflat : ∀ s ∈ flat, s.Tidy) (comments : Bool) :
    Text.lines (Text.unlines (documentLines f.name f.description flat comments)) =
      documentLines f.name f.description flat comments := by
  refine Text.lines_unlines fun l hl => ?_
  rcases List.mem_append.1 hl with hl | hl
  · cases hn : f.name with
    | none => simp [hn] at hl
    | some name =>
      rw [hn] at hl
      exact oneLine_featureLines (h.name name hn) (fun t ht => (h.description t ht).1) l hl
  · obtain ⟨s, hs, hl⟩ := List.mem_flatMap.1 hl
    exact (hflat s hs).oneLine_lines comments l hl

theorem Line.read_featureMark {name : Text} (h : Text.Tidy name) (w : Bool) :
    Line.read (featureMark ++ name) w = .feature name := by
  simp [read, header?_append h]

theorem Line.read_scenarioMark {name : Text} (h : Text.Tidy name) (w : Bool) :
    Line.read (scenarioMark ++ name) w = .scenario name := by
  have hfeature : header? featureMark (scenarioMark ++ name) = none := rfl
  simp [read, hfeature, header?_append h]

theorem header?_keyword (k : Keyword) (t : Text) :
    header? featureMark (k.text ++ t) = none ∧ header? scenarioMark (k.text ++ t) = none := by
  rcases k with (_ | _ | _) | _ | _ <;> exact ⟨rfl, rfl⟩

/-- No step is taken for a header. -/
theorem Line.read_eq_step_iff {content : Text} {l : StepLine} {w : Bool} :
    Line.read content w = .step l ↔ StepLine.read? content = some l := by
  constructor
  · intro h
    unfold read at h
    split at h
    · cases h
    split at h
    · cases h
    split at h
    · next m hm =>
      cases h
      exact hm
    split at h
    · cases h
    · split at h <;> cases h
  · intro h
    obtain ⟨c, rest, rfl, -⟩ := StepLine.read?_eq_some_iff.1 h
    obtain ⟨hfeature, hscenario⟩ := header?_keyword l.keyword (' ' :: c :: rest)
    simp [read, hfeature, hscenario, h]

theorem Line.read_keyword_append (k : Keyword) {name : Text} (h : Text.Solid name)
    (hm : Text.Unmarked name) (w : Bool) :
    Line.read (k.text ++ ' ' :: name) w = .step ⟨k, name, none⟩ :=
  read_eq_step_iff.2 (StepLine.read?_append k h.toTidy hm h.ne_nil)

theorem Line.read_keyword (k : Keyword) : Line.read k.text false = .unrecognized k.text := by
  rcases k with (_ | _ | _) | _ | _ <;> rfl

theorem StepLine.read?_bar (t : Text) : StepLine.read? ('|' :: t) = none := by
  have hbar : ∀ k : Keyword, some '|' ≠ k.text.head? := by
    rintro ((_ | _ | _) | _ | _) <;> decide
  cases h : StepLine.read? ('|' :: t) with
  | none => rfl
  | some l =>
    obtain ⟨c, rest, ht, -⟩ := StepLine.read?_eq_some_iff.1 h
    have hhead := congrArg List.head? ht
    rw [List.head?_append_of_ne_nil _ l.keyword.text_ne_nil] at hhead
    exact absurd hhead (hbar l.keyword)

theorem Line.read_fields {r : Row} (h : r.Tidy) {widths : List Nat}
    (hw : widths.length = r.width) (w : Bool) :
    Line.read (r.fields widths) w = .row r.eraseComment := by
  have hrow := h.read?_fields hw
  rw [Row.fields_eq] at *
  have hfeature : header? featureMark ('|' :: (r.padded widths).flatMap (· ++ ['|'])) = none := rfl
  have hscenario : header? scenarioMark ('|' :: (r.padded widths).flatMap (· ++ ['|'])) = none := rfl
  simp [read, hfeature, hscenario, StepLine.read?_bar, hrow]

end ScenarioForest
