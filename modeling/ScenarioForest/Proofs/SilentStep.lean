import ScenarioForest.Proofs.Acceptance
import ScenarioForest.Proofs.Beginning
import ScenarioForest.Proofs.Visible
import ScenarioForest.Proofs.Written
set_option autoImplicit false

/-!
Steps that say nothing. The text of a step is trimmed only after its comment has been cut off, so a
step line needs no more than a blank between its keyword and its comment. Apart from the steps of
such lines, everything that is kept of a document is canonical.
-/

namespace ScenarioForest

/-- A step line that says nothing: between its keyword and its comment stand only blanks. -/
def SilentStep (content : Text) : Prop :=
  ∃ (k : Keyword) (gap comment : Text),
    content = k.text ++ ' ' :: (gap ++ (commentMark ++ comment)) ∧ gap ≠ [] ∧
      (∀ c ∈ gap, isBlank c = true) ∧ comment ≠ []

def Forest.authoredSteps (f : Forest) : List Step := f.scenarios.flatMap (·.steps)

/-- All texts of a forest are trimmed parts of lines, and every step says something. -/
structure Forest.Canonical (f : Forest) : Prop extends f.Tidy where
  said : ∀ s ∈ f.authoredSteps, s.name ≠ []

theorem Text.cutComment_append_mark {t k : Text} (ht : '#' ∉ t) (hk : k ≠ []) :
    Text.cutComment (t ++ (commentMark ++ k)) = (t, some k) := by
  induction t with
  | nil =>
    have hmark : commentMark ++ k = ' ' :: ('#' :: ' ' :: k) := rfl
    have hcomment := Text.comment?_append hk
    rw [hmark] at hcomment
    rw [List.nil_append, hmark, cutComment, hcomment]
  | cons c t ih =>
    simp only [List.mem_cons, not_or] at ht
    have hnone : Text.comment? (c :: (t ++ (commentMark ++ k))) = none := by
      rw [Option.eq_none_iff_forall_not_mem]
      intro m hm
      have hsecond := congrArg (·[1]?) (comment?_eq_some_iff.1 hm).1
      cases t with
      | nil => simp [commentMark] at hsecond
      | cons d t =>
        have hd : d = '#' := by simpa [commentMark] using hsecond
        exact ht.2 (by simp [hd])
    rw [List.cons_append, cutComment, hnone, ih ht.2]

theorem hash_not_mem_of_blank {t : Text} (h : ∀ c ∈ t, isBlank c = true) : '#' ∉ t := by
  intro hm
  have := h _ hm
  revert this
  decide

section

variable {content : Text}

theorem StepLine.text_eq_nil_iff {l : StepLine} (ht : Text.Trimmed content)
    (h : StepLine.read? content = some l) : l.text = [] ↔ SilentStep content := by
  obtain ⟨c, rest, rfl, -, htext, -⟩ := StepLine.read?_eq_some_iff.1 h
  rw [htext, Text.trim_eq_nil_iff]
  constructor
  · intro hblank
    have hall := Text.cutComment_append rest
    cases hcut : (Text.cutComment rest).2 with
    | none =>
      -- A content of blanks behind a keyword would not be trimmed.
      have hrest : (Text.cutComment rest).1 = rest := by simpa [hcut] using hall
      rw [hrest] at hblank
      have hlast := List.getLast?_eq_some_getLast (List.cons_ne_nil c rest)
      have hsuffix : c :: rest <:+ l.keyword.text ++ ' ' :: c :: rest :=
        ⟨l.keyword.text ++ [' '], by simp⟩
      have hvisible := ht.suffix_last hsuffix _ hlast
      rw [hblank _ (List.getLast_mem _)] at hvisible
      cases hvisible
    | some k =>
      rw [hcut, Option.elim_some] at hall
      exact ⟨l.keyword, c :: (Text.cutComment rest).1, k, by rw [List.cons_append, hall],
        by simp, hblank, Text.cutComment_ne_nil hcut⟩
  · intro hsilent
    obtain ⟨k, gap, comment, hcontent, hgap, hblank, hcomment⟩ := hsilent
    obtain rfl := Keyword.eq_of_text_append hcontent
    obtain ⟨d, gap, rfl⟩ := List.exists_cons_of_ne_nil hgap
    simp only [List.append_cancel_left_eq, List.cons_append, List.cons.injEq, true_and] at hcontent
    obtain ⟨rfl, rfl⟩ := hcontent
    have hhash : '#' ∉ gap := fun hm => hash_not_mem_of_blank hblank (List.mem_cons_of_mem _ hm)
    rw [Text.cutComment_append_mark hhash hcomment]
    exact hblank

theorem SilentStep.exists_read? (h : SilentStep content) (hn : '\n' ∉ content) :
    ∃ l, StepLine.read? content = some l := by
  obtain ⟨k, gap, comment, rfl, hgap, -, -⟩ := h
  obtain ⟨c, gap, rfl⟩ := List.exists_cons_of_ne_nil hgap
  refine ⟨⟨k, _, _⟩, StepLine.read?_eq_some_iff.2 ⟨c, _, rfl, fun hm => hn ?_, rfl, rfl⟩⟩
  have hm : '\n' ∈ c :: gap ++ (commentMark ++ comment) := hm
  exact List.mem_append_right _ (List.mem_cons_of_mem _ hm)

end

def Line.stepTexts : Line → List Text
  | .step l => [Text.trim l.text]
  | _ => []

theorem IndentedLine.nil_mem_stepTexts_iff {l : IndentedLine} (ht : Text.Tidy l.content) :
    [] ∈ l.line.stepTexts ↔ SilentStep l.content := by
  cases hread : StepLine.read? l.content with
  | some s =>
    have hline : l.line = .step s := Line.read_eq_step_iff.2 hread
    rw [hline, Line.stepTexts, List.mem_singleton, (StepLine.tidy_text hread).trim_eq, eq_comm,
      StepLine.text_eq_nil_iff ht.toTrimmed hread]
  | none =>
    have hno : l.line.stepTexts = [] := by
      cases hline : l.line with
      | step s =>
        rw [Line.read_eq_step_iff.1 hline] at hread
        cases hread
      | _ => rfl
    have hloud : ¬ SilentStep l.content := by
      intro hsilent
      obtain ⟨s, hs⟩ := hsilent.exists_read? ht.oneLine
      rw [hread] at hs
      cases hs
    simp [hno, hloud]

/-- A step line adds its step behind all others, and no line changes the name of a step. -/
theorem Draft.Adds.stepNames {d e : Draft} {level : Nat} {line : Line} (h : d.Adds level line e) :
    e.forest.authoredSteps.map (·.name) =
      d.forest.authoredSteps.map (·.name) ++ line.stepTexts := by
  cases h with
  | feature => simp [Forest.authoredSteps, Line.stepTexts]
  | text => simp [Forest.authoredSteps, Line.stepTexts, addText]
  | root => simp [Forest.authoredSteps, Line.stepTexts, attach, Scenario.named]
  | child => simp [Forest.authoredSteps, Line.stepTexts, attach, Scenario.named]
  | step hs =>
    simp [Forest.authoredSteps, Line.stepTexts, hs, Scenario.addStep, StepLine.toStep, Step.named]
  | row hs hsteps hadds =>
    have hname := hadds.begins.name
    simp [Forest.authoredSteps, Line.stepTexts, hs, hsteps, hname]

theorem Draft.stepNames_takeAll {d e : Draft} {lines : List IndentedLine}
    (h : d.takeAll lines = .ok e) : e.forest.authoredSteps.map (·.name) =
      d.forest.authoredSteps.map (·.name) ++ lines.flatMap (·.line.stepTexts) := by
  induction lines generalizing d with
  | nil =>
    cases h
    simp
  | cons l rest ih =>
    obtain ⟨m, hm, hrest⟩ := takeAll_cons_eq_ok_iff.1 h
    obtain ⟨level, -, hadds⟩ := take_eq_ok_iff.1 hm
    rw [ih hrest, (adds_lineOf_iff.1 hadds).1.stepNames, List.flatMap_cons, List.append_assoc]

theorem Forest.stepNames_of_parse {o : ParseOptions} {t : Text} {f : Forest}
    (h : Forest.parse o t = .ok f) : f.authoredSteps.map (·.name) =
      (visibleLines (Text.lines t)).flatMap (·.line.stepTexts) := by
  obtain ⟨d, hd, rfl⟩ := parse_eq_ok_iff_takeAll.1 h
  exact Draft.stepNames_takeAll hd

theorem tidy_of_mem_visibleLines {t : Text} {l : IndentedLine}
    (h : l ∈ visibleLines (Text.lines t)) : Text.Tidy l.content := by
  obtain ⟨raw, hraw, rfl⟩ := List.mem_map.1 (List.mem_filter.1 h).1
  exact IndentedLine.tidy_content (Text.newline_not_mem_lines t raw hraw)

/-- Everything kept of a document is canonical, except for one thing: a step has no words if its
line is silent. So all of the document is canonical exactly if none of its lines is silent. -/
theorem canonical_iff_no_silentStep {o : ParseOptions} {t : Text} {f : Forest}
    (h : Forest.parse o t = .ok f) : f.Tidy ∧
      (f.Canonical ↔ ∀ l ∈ visibleLines (Text.lines t), ¬ SilentStep l.content) := by
  have htidy := Forest.tidy_of_parse h
  have hsaid : (∀ s ∈ f.authoredSteps, s.name ≠ []) ↔ [] ∉ f.authoredSteps.map (·.name) := by
    simp
  refine ⟨htidy, ?_⟩
  calc f.Canonical ↔ ∀ s ∈ f.authoredSteps, s.name ≠ [] := ⟨(·.said), fun hs => ⟨htidy, hs⟩⟩
    _ ↔ ∀ l ∈ visibleLines (Text.lines t), [] ∉ l.line.stepTexts := by
      rw [hsaid, Forest.stepNames_of_parse h, List.mem_flatMap]
      simp
    _ ↔ ∀ l ∈ visibleLines (Text.lines t), ¬ SilentStep l.content :=
      forall₂_congr fun l hl =>
        not_congr (IndentedLine.nil_mem_stepTexts_iff (tidy_of_mem_visibleLines hl))

def hashedDocument : Text :=
  "Feature:  F \n    As a user\nScenario:  A\nGiven  a #b  # c \n    | x |  y | # z".toList

theorem canonical_iff_no_silentStep_hashed : ∃ f, Forest.parse {} hashedDocument = .ok f ∧
    f.Canonical ∧ ∀ l ∈ visibleLines (Text.lines hashedDocument), ¬ SilentStep l.content := by
  have hread : (Forest.parse {} hashedDocument).toOption.map (·.authoredSteps.map (·.name)) =
      some ["a #b".toList] := by
    decide +kernel
  obtain ⟨f, hf, hnames⟩ := Forest.exists_parse_of_map hread
  obtain ⟨htidy, hiff⟩ := canonical_iff_no_silentStep hf
  have hcanonical : f.Canonical := by
    refine ⟨htidy, fun s hs => ?_⟩
    have hname := List.mem_map_of_mem (f := (·.name)) hs
    rw [hnames, List.mem_singleton] at hname
    rw [hname]
    decide
  exact ⟨f, hf, hcanonical, hiff.1 hcanonical⟩

def silentDocument : Text := "Scenario: A\nGiven   # c".toList

theorem not_canonical_silent : ∃ f, Forest.parse {} silentDocument = .ok f ∧
    f.authoredSteps = [⟨[], .prerequisite, some ['c'], none⟩] ∧ ¬ f.Canonical := by
  have hread : (Forest.parse {} silentDocument).toOption.map Forest.authoredSteps =
      some [⟨[], .prerequisite, some ['c'], none⟩] := by
    decide +kernel
  obtain ⟨f, hf, hsteps⟩ := Forest.exists_parse_of_map hread
  refine ⟨f, hf, hsteps, fun hcanonical => ?_⟩
  exact hcanonical.said ⟨[], .prerequisite, some ['c'], none⟩ (by simp [hsteps]) rfl

end ScenarioForest
