import ScenarioForest.Proofs.Assertions
import ScenarioForest.Proofs.RoundTrip
set_option autoImplicit false

/-!
Flat documents under strict flattening. A flat document whose scenarios all check something is
written again as it stands, and one with a scenario that checks nothing gets shorter.
-/

namespace ScenarioForest

theorem Table.columnWidths_eraseComments (t : Table) :
    t.eraseComments.columnWidths = t.columnWidths := by
  simp [columnWidths, eraseComments, Row.eraseComment, List.foldl_map]

theorem Table.lines_eraseComments (t : Table) (comments : Bool) :
    t.eraseComments.lines comments = t.lines false := by
  have hrow : ∀ r : Row, r.eraseComment.tail comments = r.tail false := by
    intro r
    cases comments <;> rfl
  have hall : t.eraseComments.allRows = t.allRows.map Row.eraseComment := rfl
  simp only [lines, t.columnWidths_eraseComments, hall, List.map_map, Function.comp_def, hrow]
  rfl

theorem Step.lines_eraseComments (s : Step) (first comments : Bool) :
    s.eraseComments.lines first comments = s.lines first false := by
  have htable : s.eraseComments.table.elim [] (·.lines comments) =
      s.table.elim [] (·.lines false) := by
    cases ht : s.table with
    | none => simp [eraseComments, ht]
    | some t => simp [eraseComments, ht, t.lines_eraseComments]
  rw [lines, htable, lines_false]
  cases comments <;> rfl

theorem stepLines_eraseComments (steps : List Step) (previous : Option StepKind)
    (comments : Bool) : stepLines comments previous (steps.map Step.eraseComments) =
      stepLines false previous steps := by
  induction steps generalizing previous with
  | nil => rfl
  | cons s rest ih =>
    rw [List.map_cons, stepLines, stepLines, s.lines_eraseComments, ih]
    rfl

def FlatScenario.eraseComments (s : FlatScenario) : FlatScenario :=
  ⟨s.name, s.steps.map Step.eraseComments⟩

theorem FlatScenario.lines_eraseComments (s : FlatScenario) (comments : Bool) :
    s.eraseComments.lines comments = s.lines false := by
  rw [lines, lines, eraseComments, stepLines_eraseComments]

theorem FlatScenario.assertions_toRoot (s : FlatScenario) (id : Nat) :
    (s.toRoot id).assertions = (s.stepsOfKind .assertion).map Step.eraseComments := by
  simp only [toRoot, Scenario.assertions, Scenario.stepsOfKind, stepsOfKind, List.filter_map]
  rfl

theorem FlatScenario.isOrganizational_toRoot (s : FlatScenario) (id : Nat) :
    (s.toRoot id).isOrganizational = (s.stepsOfKind .assertion).isEmpty := by
  rw [Scenario.isOrganizational, assertions_toRoot, List.isEmpty_map]

theorem composeName_singleton {s : Scenario} (h : s.isOrganizational = false) :
    composeName [s] = s.name := by
  have hsplit : [s].splitBy Scenario.alike = [[s]] := rfl
  simp [composeName, hsplit, groupName, h]

theorem Forest.ancestors_ofFlat (name : Option Text) (description : List Text)
    (flat : List FlatScenario) (id : Nat) :
    (Forest.ofFlat name description flat).ancestors id = [] := by
  have hparent : (Forest.ofFlat name description flat).parent? id = none := by
    cases hs : (Forest.ofFlat name description flat).scenario? id with
    | none => simp [parent?, parentId?, hs]
    | some s =>
      obtain ⟨i, u, -, rfl⟩ := scenarios_ofFlat (List.mem_of_getElem? hs)
      simp [parent?, parentId?, hs, FlatScenario.toRoot]
  rw [ancestors, hparent]

theorem Forest.standAlone_ofFlat (name : Option Text) (description : List Text)
    (flat : List FlatScenario) {s : FlatScenario} (h : s.stepsOfKind .assertion ≠ []) (id : Nat) :
    (Forest.ofFlat name description flat).standAlone (s.toRoot id) = s.eraseComments := by
  have hchecks : (s.toRoot id).isOrganizational = false := by
    rw [s.isOrganizational_toRoot]
    simpa using h
  have hname : composeName [s.toRoot id] = s.name := composeName_singleton hchecks
  simp only [standAlone, ancestors_ofFlat, List.filter_nil, List.nil_append, hname]
  rfl

theorem filter_map_mapIdx {α β γ : Type} {root : Nat → α → β} {p : β → Bool} {q : α → Bool}
    {g : β → γ} {k : α → γ} (hp : ∀ i a, p (root i a) = q a)
    (hg : ∀ i a, q a = true → g (root i a) = k a) (l : List α) :
    ((l.mapIdx root).filter p).map g = (l.filter q).map k := by
  induction l generalizing root with
  | nil => rfl
  | cons a rest ih =>
    have hrest := ih (fun i a => hp (i + 1) a) (fun i a => hg (i + 1) a)
    rw [List.mapIdx_cons]
    cases ha : q a with
    | false => simp [hp, ha, hrest]
    | true => simp [hp, ha, hrest, hg 0 a ha]

theorem Forest.flattenStrict_ofFlat (name : Option Text) (description : List Text)
    (flat : List FlatScenario) : (Forest.ofFlat name description flat).flattenStrict =
      (flat.filter fun s => !(s.stepsOfKind .assertion).isEmpty).map FlatScenario.eraseComments := by
  have hchecks : ∀ (i : Nat) (s : FlatScenario),
      (!(s.toRoot i).isOrganizational) = !(s.stepsOfKind .assertion).isEmpty := fun i s => by
    rw [s.isOrganizational_toRoot]
  have halone : ∀ (i : Nat) (s : FlatScenario), (!(s.stepsOfKind .assertion).isEmpty) = true →
      (Forest.ofFlat name description flat).standAlone (s.toRoot i) = s.eraseComments :=
    fun i s hs => standAlone_ofFlat name description flat (by simpa using hs) i
  exact filter_map_mapIdx (p := fun s => !s.isOrganizational) hchecks halone flat

theorem forall_of_length_flatMap_filter {α β : Type} {g : α → List β} (hg : ∀ a, g a ≠ [])
    {q : α → Bool} {l : List α} (h : (l.flatMap g).length ≤ ((l.filter q).flatMap g).length) :
    ∀ a ∈ l, q a = true := by
  induction l with
  | nil => simp
  | cons a rest ih =>
    have hpos := List.length_pos_iff.2 (hg a)
    have hle := (List.filter_sublist (p := q) (l := rest)).flatMap g |>.length_le
    cases ha : q a with
    | true =>
      simp only [List.filter_cons, ha, if_true, List.flatMap_cons, List.length_append] at h
      exact List.forall_mem_cons.2 ⟨ha, ih (by omega)⟩
    | false =>
      simp only [List.filter_cons, ha, Bool.false_eq_true, if_false, List.flatMap_cons,
        List.length_append] at h
      omega

def documentText (name : Option Text) (description : List Text) (flat : List FlatScenario) : Text :=
  Text.unlines (documentLines name description flat false)

theorem documentText_eraseComments (name : Option Text) (description : List Text)
    (flat : List FlatScenario) : documentText name description (flat.map FlatScenario.eraseComments) =
      documentText name description flat := by
  simp only [documentText, documentLines, List.flatMap_map, FlatScenario.lines_eraseComments]

theorem documentText_filter_eq_iff (name : Option Text) (description : List Text)
    (flat : List FlatScenario) (q : FlatScenario → Bool) :
    documentText name description (flat.filter q) = documentText name description flat ↔
      ∀ s ∈ flat, q s = true := by
  constructor
  · intro h
    have hne : ∀ s : FlatScenario, (s.lines false).flatMap (· ++ ['\n']) ≠ [] := by
      intro s
      simp [FlatScenario.lines]
    refine forall_of_length_flatMap_filter hne (Nat.le_of_eq ?_)
    simp only [documentText, documentLines, Text.unlines_append, List.append_cancel_left_eq] at h
    have hlen := congrArg List.length h
    simpa only [Text.unlines, List.flatMap_assoc] using hlen.symm
  · intro hall
    rw [List.filter_eq_self.2 hall]

/-- Strict flattening emits only what checks something. Writing a forest in one of the modes,
reading it back and writing that in the strict mode gives the same text, character for character,
exactly when everything emitted in the first mode checks something. -/
theorem render_strict_fixed_iff {o : ParseOptions} {t : Text} {f : Forest}
    (h : Forest.parse o t = .ok f) :
    (∀ s ∈ (f.flatten .strict).1, s.stepsOfKind .assertion ≠ []) ∧
    ∀ mode g, Forest.parse {} (f.render ⟨mode, false⟩).1 = .ok g →
      ((g.render ⟨.strict, false⟩).1 = (f.render ⟨mode, false⟩).1 ↔
        ∀ s ∈ (f.flatten mode).1, s.stepsOfKind .assertion ≠ []) := by
  refine ⟨fun s hs => ?_, fun mode g hg => ?_⟩
  · obtain ⟨u, hu, rfl⟩ := List.mem_map.1 hs
    have hchecks := (List.mem_filter.1 hu).2
    rw [f.stepsOfKind_standAlone]
    simpa [Scenario.isOrganizational, Scenario.assertions] using hchecks
  · have htidy := Forest.tidy_of_parse h
    have hflat := htidy.flatten (Forest.shaped_of_parse h) mode
    rw [(htidy.parse_documentLines hflat).2 g hg]
    have hsecond : ((Forest.ofFlat f.name f.description (f.flatten mode).1).render
        ⟨.strict, false⟩).1 = documentText f.name f.description
          (Forest.ofFlat f.name f.description (f.flatten mode).1).flattenStrict := rfl
    have hfirst : (f.render ⟨mode, false⟩).1 =
        documentText f.name f.description (f.flatten mode).1 := rfl
    rw [hsecond, hfirst, Forest.flattenStrict_ofFlat, documentText_eraseComments,
      documentText_filter_eq_iff]
    simp

theorem render_strict_fixed_commented : ∃ f g, Forest.parse {} commentedDocument = .ok f ∧
    Forest.parse {} (f.render ⟨.relaxed, false⟩).1 = .ok g ∧
    (f.flatten .relaxed).1.map (·.name) = ["[A] B".toList] ∧
    (g.render ⟨.strict, false⟩).1 = (f.render ⟨.relaxed, false⟩).1 := by
  have hread : (Forest.parse {} commentedDocument).toOption.map (fun f =>
      ((f.flatten .relaxed).1.map (·.name),
        (f.flatten .relaxed).1.all fun s => !(s.stepsOfKind .assertion).isEmpty,
        (Forest.parse {} (f.render ⟨.relaxed, false⟩).1).toOption.isSome)) =
      some (["[A] B".toList], true, true) := by
    decide +kernel
  obtain ⟨f, hf, hfound⟩ := Forest.exists_parse_of_map hread
  simp only [Prod.mk.injEq, List.all_eq_true] at hfound
  obtain ⟨hname, hchecks, hsecond⟩ := hfound
  cases hg : Forest.parse {} (f.render ⟨.relaxed, false⟩).1 with
  | error e => simp [hg, Except.toOption] at hsecond
  | ok g =>
    have hfixed := (render_strict_fixed_iff hf).2 .relaxed g hg
    exact ⟨f, g, hf, hg, hname, hfixed.2 fun s hs => by simpa using hchecks s hs⟩

end ScenarioForest
