import ScenarioForest.Proofs.FixedPoint
set_option autoImplicit false

/-!
What the comments of a forest add to its flat document: a line for the comment of each step, and an
end for the line of each row that has a comment. Everything else is written as if there were none.
-/

namespace ScenarioForest

def Scenario.eraseComments (s : Scenario) : Scenario :=
  { s with steps := s.steps.map Step.eraseComments }

theorem Forest.eraseComments_eq (f : Forest) :
    f.eraseComments = f.mapScenarios Scenario.eraseComments := rfl

theorem Scenario.place_eraseComments (s : Scenario) : s.eraseComments.place = s.place := rfl

theorem Scenario.stepsOfKind_eraseComments (s : Scenario) (kind : StepKind) :
    s.eraseComments.stepsOfKind kind = (s.stepsOfKind kind).map Step.eraseComments := by
  simp only [stepsOfKind, eraseComments, List.filter_map]
  rfl

theorem Scenario.isOrganizational_eraseComments (s : Scenario) :
    s.eraseComments.isOrganizational = s.isOrganizational := by
  rw [isOrganizational, assertions, stepsOfKind_eraseComments, List.isEmpty_map, ← assertions,
    ← isOrganizational]

theorem composeName_eraseComments (path : List Scenario) :
    composeName (path.map Scenario.eraseComments) = composeName path :=
  composeName_map (g := Scenario.eraseComments) (fun _ => rfl)
    Scenario.isOrganizational_eraseComments path

theorem Forest.standAlone_eraseComments (f : Forest) (s : Scenario) :
    f.eraseComments.standAlone s.eraseComments = (f.standAlone s).eraseComments := by
  have habove : f.eraseComments.ancestors s.eraseComments.id =
      (f.ancestors s.id).map Scenario.eraseComments :=
    ancestors_mapScenarios Scenario.place_eraseComments s.id
  have hname : composeName (((f.ancestors s.id).map Scenario.eraseComments).filter
      (·.isOrganizational) ++ [s.eraseComments]) =
        composeName ((f.ancestors s.id).filter (·.isOrganizational) ++ [s]) := by
    rw [← composeName_eraseComments (_ ++ [s])]
    simp [List.filter_map, Function.comp_def, Scenario.isOrganizational_eraseComments]
  simp only [standAlone, FlatScenario.eraseComments, habove, hname, Scenario.prerequisites,
    Scenario.actions, List.flatMap_map, Scenario.stepsOfKind_eraseComments, List.map_append,
    List.map_flatMap]
  rfl

theorem Forest.flattenStrict_eraseComments (f : Forest) :
    f.eraseComments.flattenStrict = f.flattenStrict.map FlatScenario.eraseComments := by
  have hscenarios : f.eraseComments.scenarios = f.scenarios.map Scenario.eraseComments := rfl
  simp only [flattenStrict, hscenarios, List.filter_map, List.map_map, Function.comp_def,
    Scenario.isOrganizational_eraseComments, standAlone_eraseComments]

theorem Forest.firstLeaf?_eraseComments (f : Forest) (p : Nat) :
    f.eraseComments.firstLeaf? p = f.firstLeaf? p := by
  have hleaves : f.eraseComments.leaves = f.leaves.map Scenario.eraseComments :=
    leaves_mapScenarios Scenario.place_eraseComments
  have hpath : ∀ l, f.eraseComments.path l = (f.path l).map Scenario.eraseComments :=
    path_mapScenarios Scenario.place_eraseComments
  simp [firstLeaf?, hleaves, hpath, Function.comp_def, Scenario.eraseComments]

theorem Forest.relaxedScenario_eraseComments (f : Forest) (leaf : Nat) :
    f.eraseComments.relaxedScenario leaf = (f.relaxedScenario leaf).eraseComments := by
  have hpath : f.eraseComments.path leaf = (f.path leaf).map Scenario.eraseComments :=
    path_mapScenarios Scenario.place_eraseComments leaf
  have hid : ∀ s : Scenario, s.eraseComments.id = s.id := fun _ => rfl
  simp only [relaxedScenario, FlatScenario.eraseComments, hpath, List.filter_map, Function.comp_def,
    composeName_eraseComments, firstLeaf?_eraseComments, hid, List.flatMap_map, List.map_flatMap,
    Scenario.isOrganizational_eraseComments, Scenario.prerequisites, Scenario.actions,
    Scenario.assertions, Scenario.stepsOfKind_eraseComments, List.map_append]
  refine congrArg _ (List.flatMap_congr fun p _ => ?_)
  split <;> rfl

theorem Forest.Shaped.flatten_eraseComments {f : Forest} (h : f.Shaped) (m : FlattenMode) :
    (f.eraseComments.flatten m).1 = (f.flatten m).1.map FlatScenario.eraseComments := by
  cases m with
  | strict => exact f.flattenStrict_eraseComments
  | relaxed =>
    have hshaped : f.eraseComments.Shaped :=
      h.congr (by simp [Forest.eraseComments_eq, places, mapScenarios, Function.comp_def,
        Scenario.place_eraseComments])
    have hleaves : f.eraseComments.leaves = f.leaves.map Scenario.eraseComments :=
      leaves_mapScenarios Scenario.place_eraseComments
    have hid : ∀ s : Scenario, s.eraseComments.id = s.id := fun _ => rfl
    rw [hshaped.flatten_relaxed, h.flatten_relaxed, hleaves]
    simp only [List.map_map, Function.comp_def, hid, relaxedScenario_eraseComments]

theorem Forest.Shaped.render_eraseComments {f : Forest} (h : f.Shaped) (m : FlattenMode)
    (comments : Bool) : (f.eraseComments.render ⟨m, comments⟩).1 = (f.render ⟨m, false⟩).1 := by
  have hname : f.eraseComments.name = f.name := rfl
  have hdescription : f.eraseComments.description = f.description := rfl
  simp only [render, hname, hdescription, h.flatten_eraseComments, documentLines,
    List.flatMap_map, FlatScenario.lines_eraseComments]

def isRemark (line : Text) : Bool := line.head? == some '#'

def Step.rowComments (s : Step) : List (Text × Text) :=
  s.table.elim [] fun t => t.allRows.filterMap fun r =>
    r.comment.map fun k => (indent ++ r.fields t.columnWidths, k)

/-- The second lines are the first ones with comments added: some in lines of their own, which begin
with a hash, and some behind a line. -/
structure AddsComments (plain commented : List Text) (remarks : List Text)
    (ends : List (Text × Text)) : Prop where
  hashed : commented.filter isRemark = remarks.map commentLine
  length : (commented.filter (!isRemark ·)).length = plain.length
  longer : (plain.zip (commented.filter (!isRemark ·))).filter (fun p => p.1 != p.2) =
    ends.map fun p => (p.1, p.1 ++ commentMark ++ p.2)

theorem AddsComments.nil : AddsComments [] [] [] [] := ⟨rfl, rfl, rfl⟩

theorem AddsComments.append {plain commented remarks plain' commented' remarks' : List Text}
    {ends ends' : List (Text × Text)} (h : AddsComments plain commented remarks ends)
    (h' : AddsComments plain' commented' remarks' ends') :
    AddsComments (plain ++ plain') (commented ++ commented') (remarks ++ remarks')
      (ends ++ ends') where
  hashed := by rw [List.filter_append, h.hashed, h'.hashed, List.map_append]
  length := by
    rw [List.filter_append, List.length_append, h.length, h'.length, List.length_append]
  longer := by
    rw [List.filter_append, List.zip_append h.length.symm, List.filter_append, h.longer, h'.longer,
      List.map_append]

theorem AddsComments.flatMap {α : Type} {plain commented remarks : α → List Text}
    {ends : α → List (Text × Text)} {l : List α}
    (h : ∀ a ∈ l, AddsComments (plain a) (commented a) (remarks a) (ends a)) :
    AddsComments (l.flatMap plain) (l.flatMap commented) (l.flatMap remarks) (l.flatMap ends) := by
  induction l with
  | nil => exact ⟨rfl, rfl, rfl⟩
  | cons a rest ih =>
    obtain ⟨ha, hrest⟩ := List.forall_mem_cons.1 h
    exact ha.append (ih hrest)

theorem AddsComments.same {lines : List Text} (h : ∀ l ∈ lines, isRemark l = false) :
    AddsComments lines lines [] [] := by
  induction lines with
  | nil => exact nil
  | cons l rest ih =>
    obtain ⟨hl, hrest⟩ := List.forall_mem_cons.1 h
    have hline : AddsComments [l] [l] [] [] := ⟨by simp [hl], by simp [hl], by simp [hl]⟩
    exact hline.append (ih hrest)

theorem AddsComments.remark (k : Text) : AddsComments [] [commentLine k] [k] [] := ⟨rfl, rfl, rfl⟩

theorem isRemark_indent (t : Text) : isRemark (indent ++ t) = false := rfl

theorem AddsComments.ending {line k : Text} (h : isRemark (line ++ (commentMark ++ k)) = false) :
    AddsComments [line] [line ++ (commentMark ++ k)] [] [(line, k)] := by
  have hne : line ≠ line ++ (commentMark ++ k) := by
    intro heq
    have hlength := congrArg List.length heq
    simp [commentMark] at hlength
  exact ⟨by simp [h], by simp [h], by simp [h, hne]⟩

theorem Row.addsComments (r : Row) (widths : List Nat) :
    AddsComments [indent ++ r.fields widths] [indent ++ r.fields widths ++ r.tail true] []
      (r.comment.map fun k => (indent ++ r.fields widths, k)).toList := by
  cases hk : r.comment with
  | none =>
    have htail : r.tail true = [] := by simp [tail, hk]
    rw [htail, List.append_nil]
    exact .same (by simp [isRemark_indent])
  | some k =>
    have htail : r.tail true = commentMark ++ k := by simp [tail, hk]
    rw [htail]
    refine .ending ?_
    rw [List.append_assoc, isRemark_indent]

theorem Table.addsComments (t : Table) :
    AddsComments (t.lines false) (t.lines true) []
      (t.allRows.filterMap fun r => r.comment.map fun k => (indent ++ r.fields t.columnWidths, k)) := by
  rw [t.lines_false, lines]
  induction t.allRows with
  | nil => exact .nil
  | cons r rest ih =>
    have hall := (r.addsComments t.columnWidths).append ih
    cases hk : r.comment <;> simpa [hk] using hall

theorem isRemark_keyword (k : Keyword) (t : Text) : isRemark (k.text ++ t) = false := by
  rcases k with (_ | _ | _) | _ | _ <;> rfl

theorem Step.addsComments (s : Step) (first : Bool) :
    AddsComments (s.lines first false) (s.lines first true) s.comment.toList s.rowComments := by
  have hline : AddsComments [s.line first] [s.line first] [] [] :=
    .same (by simp [Step.line, isRemark_keyword])
  have hremark : AddsComments [] (s.comment.map commentLine).toList s.comment.toList [] := by
    cases s.comment with
    | none => exact .nil
    | some k => exact .remark k
  have htable : AddsComments (s.table.elim [] (·.lines false)) (s.table.elim [] (·.lines true)) []
      s.rowComments := by
    rw [rowComments]
    cases s.table with
    | none => exact .nil
    | some t => exact t.addsComments
  simpa [Step.lines] using (hline.append hremark).append htable

theorem stepLines_addsComments (steps : List Step) (previous : Option StepKind) :
    AddsComments (stepLines false previous steps) (stepLines true previous steps)
      (steps.filterMap (·.comment)) (steps.flatMap Step.rowComments) := by
  -- The keyword of a step depends on the kind of the step before, which both sides share.
  induction steps generalizing previous with
  | nil => exact .nil
  | cons s rest ih =>
    have hall := (s.addsComments (previous != some s.kind)).append (ih (some s.kind))
    cases hk : s.comment <;> simpa [stepLines, hk] using hall

theorem FlatScenario.addsComments (s : FlatScenario) :
    AddsComments (s.lines false) (s.lines true) (s.steps.filterMap (·.comment))
      (s.steps.flatMap Step.rowComments) := by
  have hmark : isRemark (scenarioMark ++ s.name) = false := rfl
  have hheader : AddsComments [scenarioMark ++ s.name] [scenarioMark ++ s.name] [] [] :=
    .same (by simp [hmark])
  have hblank : AddsComments [[]] [[]] [] [] := .same (by simp [isRemark])
  have hall := (hheader.append (stepLines_addsComments s.steps none)).append hblank
  rwa [List.nil_append, List.nil_append, List.append_nil, List.append_nil] at hall

theorem isRemark_featureLines {name : Text} {description : List Text} :
    ∀ l ∈ featureLines name description, isRemark l = false := by
  intro l hl
  simp only [featureLines, List.cons_append, List.mem_cons, List.mem_append, List.mem_map] at hl
  rcases hl with rfl | rfl | ⟨t, -, rfl⟩ | hl
  · rfl
  · rfl
  · exact isRemark_indent t
  · split at hl
    · simp at hl
    · rw [List.mem_singleton.1 hl]
      rfl

theorem documentLines_addsComments (name : Option Text) (description : List Text)
    (flat : List FlatScenario) : AddsComments (documentLines name description flat false)
      (documentLines name description flat true) ((flat.flatMap (·.steps)).filterMap (·.comment))
      ((flat.flatMap (·.steps)).flatMap Step.rowComments) := by
  have hfeature : AddsComments (name.elim [] (featureLines · description))
      (name.elim [] (featureLines · description)) [] [] := by
    cases name with
    | none => exact .nil
    | some name => exact .same isRemark_featureLines
  have hflat : AddsComments (flat.flatMap (·.lines false)) (flat.flatMap (·.lines true))
      (flat.flatMap fun s => s.steps.filterMap (·.comment))
      (flat.flatMap fun s => s.steps.flatMap Step.rowComments) :=
    .flatMap fun s _ => s.addsComments
  have hall := hfeature.append hflat
  rwa [List.nil_append, List.nil_append, ← List.filterMap_flatMap, ← List.flatMap_assoc] at hall

/-- Writing with comments adds only comments. Without any comments kept, nothing is added. Otherwise
the lines that begin with a hash are those of the comments of the emitted steps, in order; the other
lines are as many as without comments; and of these lines the ones that differ from their
counterparts are those of the emitted rows with comments, in order, each with its comment behind it. -/
theorem render_adds_comments {o : ParseOptions} {t : Text} {f : Forest}
    (h : Forest.parse o t = .ok f) (m : FlattenMode) :
    let steps := (f.flatten m).1.flatMap (·.steps)
    let plain := Text.lines (f.render ⟨m, false⟩).1
    let commented := Text.lines (f.render ⟨m, true⟩).1
    let kept := commented.filter (!isRemark ·)
    (f.eraseComments.render ⟨m, true⟩).1 = (f.render ⟨m, false⟩).1 ∧
      commented.filter isRemark = (steps.filterMap (·.comment)).map commentLine ∧
      kept.length = plain.length ∧
      (plain.zip kept).filter (fun p => p.1 != p.2) =
        (steps.flatMap Step.rowComments).map fun p => (p.1, p.1 ++ commentMark ++ p.2) := by
  have hshaped := Forest.shaped_of_parse h
  have htidy := Forest.tidy_of_parse h
  have hflat := htidy.flatten hshaped m
  have hlines : ∀ comments, Text.lines (f.render ⟨m, comments⟩).1 =
      documentLines f.name f.description (f.flatten m).1 comments := fun comments =>
    htidy.lines_unlines hflat comments
  have hadds := documentLines_addsComments f.name f.description (f.flatten m).1
  simp only [hlines]
  exact ⟨hshaped.render_eraseComments m true, hadds.hashed, hadds.length, hadds.longer⟩

theorem render_adds_comments_commented : ∃ f, Forest.parse {} commentedDocument = .ok f ∧
    (f.eraseComments.render ⟨.relaxed, true⟩).1 = (f.render ⟨.relaxed, false⟩).1 ∧
    (Text.lines (f.render ⟨.relaxed, true⟩).1).filter isRemark = ["# c".toList] ∧
    ((Text.lines (f.render ⟨.relaxed, false⟩).1).zip
      ((Text.lines (f.render ⟨.relaxed, true⟩).1).filter (!isRemark ·))).filter
        (fun p => p.1 != p.2) =
      [("    | 1 | 2    |".toList, "    | 1 | 2    | # r".toList)] := by
  have hread : (Forest.parse {} commentedDocument).toOption.map (fun f =>
      let steps := (f.flatten .relaxed).1.flatMap (·.steps)
      (steps.filterMap (·.comment), steps.flatMap Step.rowComments)) =
      some ([['c']], [("    | 1 | 2    |".toList, ['r'])]) := by
    decide +kernel
  obtain ⟨f, hf, hfound⟩ := Forest.exists_parse_of_map hread
  simp only [Prod.mk.injEq] at hfound
  obtain ⟨hcomments, hrows⟩ := hfound
  obtain ⟨herase, hhashed, -, hlonger⟩ := render_adds_comments hf .relaxed
  rw [hcomments] at hhashed
  rw [hrows] at hlonger
  exact ⟨f, hf, herase, hhashed, hlonger⟩

end ScenarioForest
