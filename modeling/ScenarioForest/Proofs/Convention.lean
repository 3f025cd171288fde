import ScenarioForest.Proofs.FirstFault
import ScenarioForest.Proofs.SilentStep
set_option autoImplicit false

/-!
Where steps stand. A document that leaves it open is read as it is under one of the two
conventions. Until the first step nothing looks at the convention, and that step shows which of the
two it is; under the other one it is the first fault.
-/

namespace ScenarioForest

def Draft.fixed (d : Draft) (c : StepIndentation) : Draft := { d with convention := some c }

/-- The line with the first step of a document, by its number and by what it says. -/
def IsFirstStep (lines : List Text) (n : Nat) (l : StepLine) : Prop :=
  ∃ before raw after, lines = before ++ raw :: after ∧ n = before.length + 1 ∧
    (IndentedLine.split raw).line = .step l ∧
      ∀ other ∈ before, (IndentedLine.split other).line.isStep = false

theorem StepIndentation.eq_of_offset_eq {c k : StepIndentation} (h : c.offset = k.offset) :
    c = k := by
  cases c <;> cases k <;> first | rfl | cases h

section

variable {d e : Draft} {c : StepIndentation} {raw : Text} {l : StepLine}

theorem Draft.isStep_lineOf (d : Draft) (l : IndentedLine) :
    (d.lineOf l.content).isStep = l.line.isStep := by
  rw [lineOf, IndentedLine.line, Line.read_eq l.content d.welcomesText]
  cases ht : Line.read l.content true with
  | text t => cases d.welcomesText <;> rfl
  | _ => rfl

theorem Draft.add_fixed (c : StepIndentation) (level : Nat) (content : Text) {line : Line}
    (h : line.isStep = false) :
    (d.fixed c).add level content line = (d.add level content line).map (·.fixed c) := by
  cases line with
  | feature name =>
    simp only [add, addFeature]
    rw [apply_ite (Except.map _)]
    rfl
  | scenario name =>
    simp only [add, addScenario, fixed]
    split
    · rfl
    · split <;> rfl
  | step l => cases h
  | row r =>
    simp only [add, addRow, fixed]
    split
    · rfl
    · split
      · rfl
      · split <;> rfl
  | text t => rfl
  | unrecognized t => rfl

theorem Draft.push_fixed (h : (IndentedLine.split raw).line.isStep = false) :
    (d.fixed c).push raw = (d.push raw).map (·.fixed c) := by
  rw [← d.isStep_lineOf] at h
  simp only [push]
  split
  · rfl
  · split
    · rfl
    · exact add_fixed c _ _ h

theorem Draft.Adds.convention_eq {level : Nat} {line : Line} (h : d.Adds level line e)
    (hline : line.isStep = false) : e.convention = d.convention := by
  cases h with
  | step => cases hline
  | feature => rfl
  | root => rfl
  | child => rfl
  | row => rfl
  | text => rfl

theorem Draft.adds_of_push (h : (IndentedLine.split raw).line.isStep = false)
    (hpush : d.push raw = .ok e) :
    e = d ∨ ∃ level line, line.isStep = false ∧ d.Adds level line e := by
  cases hb : (IndentedLine.split raw).isBlank with
  | true =>
    rw [push_of_blank hb] at hpush
    cases hpush
    exact .inl rfl
  | false =>
    obtain ⟨level, -, hadds⟩ := (push_eq_ok_iff hb).1 hpush
    exact .inr ⟨level, _, by rw [isStep_lineOf, h], hadds⟩

theorem Draft.convention_of_push (h : (IndentedLine.split raw).line.isStep = false)
    (hpush : d.push raw = .ok e) : e.convention = d.convention := by
  cases adds_of_push h hpush with
  | inl hsame => rw [hsame]
  | inr hadds =>
    obtain ⟨level, line, hline, hadds⟩ := hadds
    exact hadds.convention_eq hline

theorem Draft.reads_fixed_iff {lines : List Text}
    (h : ∀ raw ∈ lines, (IndentedLine.split raw).line.isStep = false) :
    (d.fixed c).Reads lines e ↔ ∃ m, d.Reads lines m ∧ e = m.fixed c := by
  induction lines generalizing d with
  | nil => simp [Reads]
  | cons raw rest ih =>
    obtain ⟨hraw, hrest⟩ := List.forall_mem_cons.1 h
    simp only [Reads, push_fixed hraw]
    cases d.push raw with
    | error fault => simp [Except.map]
    | ok m => simp [Except.map, ih hrest]

theorem Draft.Reads.convention_eq {lines : List Text} (hd : d.Reads lines e)
    (h : ∀ raw ∈ lines, (IndentedLine.split raw).line.isStep = false) :
    e.convention = d.convention :=
  hd.induction (P := fun m => m.convention = d.convention)
    (fun _ _ raw hraw hm hpush => (convention_of_push (h raw hraw) hpush).trans hm) rfl

theorem IndentedLine.isBlank_of_step {line : IndentedLine} (h : line.line = .step l) :
    line.isBlank = false := by
  cases hb : line.content with
  | nil =>
    rw [IndentedLine.line, hb] at h
    cases h
  | cons c rest => simp [isBlank, hb]

theorem Draft.lineOf_of_step (d : Draft) {line : IndentedLine} (h : line.line = .step l) :
    d.lineOf line.content = .step l :=
  Line.read_eq_step_iff.2 (Line.read_eq_step_iff.1 h)

theorem Draft.push_step_eq_ok_iff (hl : (IndentedLine.split raw).line = .step l) :
    d.push raw = .ok e ↔
      ∃ level, (IndentedLine.split raw).level? = some level ∧ d.Adds level (.step l) e := by
  rw [push_eq_ok_iff (IndentedLine.isBlank_of_step hl), lineOf_of_step _ hl]

theorem Draft.exists_convention_of_push (hl : (IndentedLine.split raw).line = .step l)
    (hpush : d.push raw = .ok e) : ∃ c, e.convention = some c := by
  obtain ⟨level, -, hadds⟩ := (push_step_eq_ok_iff hl).1 hpush
  cases hadds with
  | step => exact ⟨_, rfl⟩

/-- As long as the convention is open, a step is taken exactly if it is under one of the two. -/
theorem Draft.push_step_fixed_iff (hd : d.convention = none)
    (hl : (IndentedLine.split raw).line = .step l) :
    (d.fixed c).push raw = .ok e ↔ d.push raw = .ok e ∧ e.convention = some c := by
  rw [push_step_eq_ok_iff hl, push_step_eq_ok_iff hl]
  constructor
  · intro h
    obtain ⟨level, hlevel, hadds⟩ := h
    cases hadds with
    | step hs hat hconv hkind =>
      obtain rfl : c = _ := by simpa [fixed] using hconv
      exact ⟨⟨level, hlevel, .step hs hat (.inl hd) hkind⟩, rfl⟩
  · intro h
    obtain ⟨⟨level, hlevel, hadds⟩, hc⟩ := h
    cases hadds with
    | step hs hat hconv hkind =>
      cases hc
      exact ⟨level, hlevel, .step hs hat (.inr rfl) hkind⟩

theorem Draft.push_step_misplaced (hl : (IndentedLine.split raw).line = .step l)
    (hpush : d.push raw = .ok e) {k : StepIndentation} (hc : e.convention = some c) (hk : k ≠ c) :
    (d.fixed k).push raw = .error (.invalidIndentation l.text) := by
  obtain ⟨level, hlevel, hadds⟩ := (push_step_eq_ok_iff hl).1 hpush
  cases hadds with
  | @step l before s c kind hs hat hconv hkind =>
    cases hc
    have hnone : (d.fixed k).conventionFor? s level = none := by
      rw [Option.eq_none_iff_forall_ne_some]
      intro other hother
      obtain ⟨hat', hfixed⟩ := conventionFor?_eq_some_iff.1 hother
      obtain rfl : k = other := by simpa [fixed] using hfixed
      exact hk (StepIndentation.eq_of_offset_eq (by omega))
    have hlast : (d.fixed k).forest.scenarios.getLast? = some s := by simp [fixed, hs]
    simp [push, IndentedLine.isBlank_of_step hl, hlevel, lineOf_of_step _ hl, add, addStep, hlast,
      hnone]

end

theorem no_step_or_isFirstStep (lines : List Text) :
    (∀ raw ∈ lines, (IndentedLine.split raw).line.isStep = false) ∨
      ∃ n l, IsFirstStep lines n l := by
  cases hfind : lines.find? (fun raw => (IndentedLine.split raw).line.isStep) with
  | none => exact .inl fun raw hraw => by simpa using List.find?_eq_none.1 hfind raw hraw
  | some first =>
    obtain ⟨hfirst, before, after, hlines, hbefore⟩ := List.find?_eq_some_iff_append.1 hfind
    cases hl : (IndentedLine.split first).line with
    | step l =>
      refine .inr ⟨before.length + 1, l, before, first, after, hlines, rfl, hl, fun other ho => ?_⟩
      simpa using hbefore other ho
    | _ =>
      rw [hl] at hfirst
      cases hfirst

theorem Draft.exists_reads_fixed_iff {d : Draft} (hd : d.convention = none) {lines : List Text}
    {f : Forest} : (∃ e, d.Reads lines e ∧ e.forest = f) ↔
      ∃ c e, (d.fixed c).Reads lines e ∧ e.forest = f := by
  cases no_step_or_isFirstStep lines with
  | inl hno =>
    simp only [reads_fixed_iff hno]
    constructor
    · intro h
      obtain ⟨e, he, hf⟩ := h
      exact ⟨.nested, e.fixed .nested, ⟨e, he, rfl⟩, hf⟩
    · intro h
      obtain ⟨c, e, ⟨m, hm, rfl⟩, hf⟩ := h
      exact ⟨m, hm, hf⟩
  | inr hfirst =>
    obtain ⟨n, l, before, raw, after, rfl, -, hl, hbefore⟩ := hfirst
    have hopen : ∀ m, d.Reads before m → m.convention = none := by
      intro m hm
      rw [hm.convention_eq hbefore, hd]
    simp only [reads_append, Reads, reads_fixed_iff hbefore]
    constructor
    · intro h
      obtain ⟨e, ⟨m, hm, k, hk, hrest⟩, hf⟩ := h
      obtain ⟨c, hc⟩ := exists_convention_of_push hl hk
      have hfixed := (push_step_fixed_iff (hopen m hm) hl).2 ⟨hk, hc⟩
      exact ⟨c, e, ⟨m.fixed c, ⟨m, hm, rfl⟩, k, hfixed, hrest⟩, hf⟩
    · intro h
      obtain ⟨c, e, ⟨p, ⟨m, hm, rfl⟩, k, hk, hrest⟩, hf⟩ := h
      exact ⟨e, ⟨m, hm, k, ((push_step_fixed_iff (hopen m hm) hl).1 hk).1, hrest⟩, hf⟩

/-- Under the convention that the first step shows the run is the same, and under the other one it
ends at the first step. -/
theorem Draft.exists_convention_of_reads {d e : Draft} (hd : d.convention = none)
    {lines : List Text} (hreads : d.Reads lines e) {n : Nat} {l : StepLine}
    (hfirst : IsFirstStep lines n l) : ∃ c, (d.fixed c).Reads lines e ∧ ∀ k, k ≠ c →
      ∃ i, n = i + 1 ∧ (d.fixed k).FailsAt lines i (.invalidIndentation l.text) := by
  obtain ⟨before, raw, after, rfl, rfl, hl, hbefore⟩ := hfirst
  obtain ⟨m, hm, p, hp, hrest⟩ := reads_append.1 hreads
  obtain ⟨c, hc⟩ := exists_convention_of_push hl hp
  have hopen : m.convention = none := by rw [hm.convention_eq hbefore, hd]
  have hsame : ∀ k, (d.fixed k).Reads before (m.fixed k) := fun k =>
    (reads_fixed_iff hbefore).2 ⟨m, hm, rfl⟩
  refine ⟨c, ?_, fun k hk => ⟨before.length, rfl, m.fixed k, raw, ?_, ?_, ?_⟩⟩
  · exact reads_append.2 ⟨m.fixed c, hsame c, p, (push_step_fixed_iff hopen hl).2 ⟨hp, hc⟩, hrest⟩
  · rw [List.take_left]
    exact hsame k
  · simp
  · exact push_step_misplaced hl hp hc hk

theorem Forest.parse_detected_iff (t : Text) (f : Forest) : Forest.parse {} t = .ok f ↔
    ∃ c, Forest.parse ⟨some c⟩ t = .ok f := by
  have hstart : ∀ c, Draft.start ⟨some c⟩ = (Draft.start {}).fixed c := fun _ => rfl
  simp only [parse_eq_ok_iff, hstart]
  exact Draft.exists_reads_fixed_iff rfl

theorem flatMap_stepTexts_eq_nil {raws : List Text}
    (h : ∀ raw ∈ raws, (IndentedLine.split raw).line.isStep = false) :
    (visibleLines raws).flatMap (·.line.stepTexts) = [] := by
  rw [List.flatMap_eq_nil_iff]
  intro line hline
  obtain ⟨raw, hraw, rfl⟩ := List.mem_map.1 (List.mem_filter.1 hline).1
  have hno := h raw hraw
  cases hl : (IndentedLine.split raw).line with
  | step l =>
    rw [hl] at hno
    cases hno
  | _ => rfl

theorem Forest.head?_stepNames_of_parse {o : ParseOptions} {t : Text} {f : Forest}
    (h : Forest.parse o t = .ok f) {n : Nat} {l : StepLine}
    (hfirst : IsFirstStep (Text.lines t) n l) :
    (f.authoredSteps.map (·.name)).head? = some l.text := by
  obtain ⟨before, raw, after, hlines, -, hl, hbefore⟩ := hfirst
  have htrim : Text.trim l.text = l.text :=
    (StepLine.tidy_text (Line.read_eq_step_iff.1 hl)).trim_eq
  rw [stepNames_of_parse h, hlines, visibleLines_append, visibleLines_cons,
    IndentedLine.isBlank_of_step hl, List.flatMap_append, flatMap_stepTexts_eq_nil hbefore,
    List.nil_append]
  simp [hl, Line.stepTexts, htrim]

/-- To leave open where the steps stand is to try both conventions: a document is read that way
exactly if it is read under one of the two, and then as the same forest. If it has a step, only one
of the two will do, and under the other one the first step is misplaced. -/
theorem parse_detects_convention (t : Text) (f : Forest) :
    (Forest.parse {} t = .ok f ↔ Forest.parse ⟨some .sameAsScenario⟩ t = .ok f ∨
      Forest.parse ⟨some .nested⟩ t = .ok f) ∧
    (Forest.parse {} t = .ok f → f.authoredSteps ≠ [] →
      ∃ c, Forest.parse ⟨some c⟩ t = .ok f ∧ ∀ k, k ≠ c →
        ∃ n l, IsFirstStep (Text.lines t) n l ∧
          (f.authoredSteps.map (·.name)).head? = some l.text ∧
          Forest.parse ⟨some k⟩ t = .error ⟨n, .invalidIndentation l.text⟩) := by
  constructor
  · rw [Forest.parse_detected_iff]
    constructor
    · intro h
      obtain ⟨c, hc⟩ := h
      cases c with
      | sameAsScenario => exact .inl hc
      | nested => exact .inr hc
    · intro h
      cases h with
      | inl h => exact ⟨_, h⟩
      | inr h => exact ⟨_, h⟩
  · intro h hsteps
    obtain ⟨n, l, hfirst⟩ := (no_step_or_isFirstStep (Text.lines t)).resolve_left fun hno =>
      hsteps (List.map_eq_nil_iff.1 ((Forest.stepNames_of_parse h).trans
        (flatMap_stepTexts_eq_nil hno)))
    have hname := Forest.head?_stepNames_of_parse h hfirst
    obtain ⟨d, hd, rfl⟩ := Forest.parse_eq_ok_iff.1 h
    obtain ⟨c, hc, hother⟩ := Draft.exists_convention_of_reads rfl hd hfirst
    refine ⟨c, Forest.parse_eq_ok_iff.2 ⟨d, hc, rfl⟩, fun k hk => ⟨n, l, hfirst, hname, ?_⟩⟩
    exact Forest.parse_eq_error_iff.2 (hother k hk)

def nestedDocument : Text :=
  "Feature: F\n\nScenario: A\n    Scenario: B\n        Given b # c\n        Then d".toList

theorem parse_detects_convention_nested : ∃ f, Forest.parse {} nestedDocument = .ok f ∧
    f.authoredSteps ≠ [] ∧ Forest.parse ⟨some .nested⟩ nestedDocument = .ok f ∧
    ∃ n l, IsFirstStep (Text.lines nestedDocument) n l ∧ l.text = ['b'] ∧
      Forest.parse ⟨some .sameAsScenario⟩ nestedDocument =
        .error ⟨n, .invalidIndentation l.text⟩ := by
  have hread : (Forest.parse {} nestedDocument).toOption.map (·.authoredSteps.map (·.name)) =
      some [['b'], ['d']] := by
    decide +kernel
  have hmisplaced : (Forest.parse ⟨some .sameAsScenario⟩ nestedDocument).toOption = none := by
    decide +kernel
  obtain ⟨f, hf, hnames⟩ := Forest.exists_parse_of_map hread
  have hsteps : f.authoredSteps ≠ [] := by
    intro hnil
    rw [hnil] at hnames
    cases hnames
  obtain ⟨c, hc, hother⟩ := (parse_detects_convention nestedDocument f).2 hf hsteps
  cases c with
  | sameAsScenario =>
    rw [hc] at hmisplaced
    cases hmisplaced
  | nested =>
    obtain ⟨n, l, hfirst, hname, herror⟩ := hother .sameAsScenario (by decide)
    rw [hnames, List.head?_cons, Option.some.injEq] at hname
    exact ⟨f, hf, hsteps, hc, n, l, hfirst, hname.symm, herror⟩

end ScenarioForest
