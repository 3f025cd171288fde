import ScenarioForest.Proofs.Convention
import ScenarioForest.Proofs.Layout
import ScenarioForest.Proofs.Sections
set_option autoImplicit false

/-!
Conjunctions. A conjunction stands for the kind that was stated last in its section, and writing
out that kind in place of every conjunction leaves the forest as it is.
-/

namespace ScenarioForest

def respell (kind : StepKind) (old : Keyword) (raw : Text) : Text :=
  raw.takeWhile isBlank ++ ((Keyword.primary kind).text ++
    (Text.trimStart raw).drop old.text.length)

def StepLine.spellOut (l : StepLine) (kind : StepKind) (raw : Text) : Text :=
  if l.keyword.isConjunction then respell kind l.keyword raw else raw

/-- Respells the conjunctions among some lines, whose steps are of the given kinds. -/
def spellOutAll : List StepKind → List Text → List Text
  | _, [] => []
  | kinds, raw :: rest =>
    match (IndentedLine.split raw).line.step?, kinds with
    | some l, kind :: later => l.spellOut kind raw :: spellOutAll later rest
    | _, _ => raw :: spellOutAll kinds rest

def Text.spelledOut (t : Text) (f : Forest) : Text :=
  List.intercalate ['\n'] (spellOutAll (f.authoredSteps.map (·.kind)) (t.splitOn '\n'))

theorem Text.newline_not_mem_splitOn (t : Text) : ∀ piece ∈ t.splitOn '\n', '\n' ∉ piece := by
  induction t using Text.line_induction with
  | last a ha =>
    rw [List.splitOn_eq_singleton ha]
    simpa using ha
  | more a t ha ih =>
    have hsplit : (a ++ '\n' :: t).splitOn '\n' = a.splitOn '\n' ++ t.splitOn '\n' :=
      List.splitOnP_append_cons _ _ (by simp)
    rw [hsplit, List.splitOn_eq_singleton ha]
    exact List.forall_mem_cons.2 ⟨ha, ih⟩

/-- The pieces of a text show the same as its lines, for a carriage return at the end of a piece is
one more blank. -/
theorem visibleLines_lines_intercalate {pieces : List Text} (h : ∀ piece ∈ pieces, '\n' ∉ piece) :
    visibleLines (Text.lines (List.intercalate ['\n'] pieces)) = visibleLines pieces := by
  induction pieces with
  | nil => rfl
  | cons a rest ih =>
    obtain ⟨ha, hrest⟩ := List.forall_mem_cons.1 h
    cases rest with
    | nil => rw [List.intercalate_singleton, visibleLines_lines_of_oneLine ha]
    | cons b rest =>
      rw [List.intercalate_cons_cons, List.append_assoc, List.singleton_append,
        visibleLines_lines_append, ih hrest, visibleLines_lines_of_oneLine ha,
        ← visibleLines_append, List.singleton_append]

theorem Forest.parse_intercalate_eq_ok_iff {o : ParseOptions} {pieces : List Text} {f : Forest}
    (h : ∀ piece ∈ pieces, '\n' ∉ piece) :
    Forest.parse o (List.intercalate ['\n'] pieces) = .ok f ↔
      ∃ d, (Draft.start o).Reads pieces d ∧ d.forest = f := by
  simp only [parse_eq_ok_iff_takeAll, visibleLines_lines_intercalate h, Draft.reads_iff_takeAll]

section

variable {raw : Text} {l : StepLine}

theorem newline_not_mem_respell (kind : StepKind) (old : Keyword) (h : '\n' ∉ raw) :
    '\n' ∉ respell kind old raw := by
  have hfront : '\n' ∉ raw.takeWhile isBlank := fun hm => h (List.takeWhile_subset _ hm)
  have hback : '\n' ∉ (Text.trimStart raw).drop old.text.length := fun hm =>
    h ((Text.trimStart_suffix raw).subset (List.mem_of_mem_drop hm))
  have hword : '\n' ∉ (Keyword.primary kind).text := by cases kind <;> decide
  simp [respell, hfront, hword, hback]

theorem Text.Trimmed.respell {t : Text} (ht : Text.Trimmed t) (kind : StepKind) {old : Keyword}
    {c : Char} {rest : Text} (h : t = old.text ++ c :: rest) :
    Text.Trimmed ((Keyword.primary kind).text ++ c :: rest) where
  head d hd := by
    have hword : (Keyword.primary kind).text.head?.any isBlank = false := by cases kind <;> rfl
    rw [List.head?_append_of_ne_nil _ (Keyword.text_ne_nil _), Option.mem_def] at hd
    simpa [hd] using hword
  last d hd := by
    rw [List.getLast?_append_of_ne_nil _ (List.cons_ne_nil c rest)] at hd
    exact ht.suffix_last ⟨old.text, h.symm⟩ d hd

theorem split_respell (h : (IndentedLine.split raw).line = .step l)
    (kind : StepKind) :
    (IndentedLine.split (respell kind l.keyword raw)).indentation =
        (IndentedLine.split raw).indentation ∧
      (IndentedLine.split (respell kind l.keyword raw)).line =
        .step { l with keyword := .primary kind } := by
  have hvisible : raw.all isBlank = false := by
    rw [Bool.eq_false_iff]
    intro hblank
    rw [IndentedLine.split_of_blank hblank] at h
    cases h
  rw [IndentedLine.split_eq_lineLayout hvisible] at h ⊢
  obtain ⟨c, rest, hcontent, hline, htext, hcomment⟩ :=
    StepLine.read?_eq_some_iff.1 (Line.read_eq_step_iff.1 h)
  obtain ⟨b, hb, hback⟩ := Text.exists_trimEnd_append (Text.trimStart raw)
  have hfront : ∀ c ∈ raw.takeWhile isBlank, isBlank c = true :=
    fun c hc => List.mem_takeWhile_imp hc
  have hrespelled : respell kind l.keyword raw = raw.takeWhile isBlank ++
      ((Keyword.primary kind).text ++ ' ' :: c :: rest) ++ b := by
    have htrim : Text.trimEnd (Text.trimStart raw) = l.keyword.text ++ ' ' :: c :: rest := hcontent
    rw [respell, hback, htrim, List.append_assoc, List.drop_left]
    simp
  have htrimmed := (Text.trimmed_trim raw).respell kind hcontent
  rw [hrespelled, IndentedLine.split_append_of_blank hb,
    IndentedLine.split_append hfront htrimmed (by simp)]
  refine ⟨rfl, Line.read_eq_step_iff.2 (StepLine.read?_eq_some_iff.2 ?_)⟩
  exact ⟨c, rest, rfl, hline, htext, hcomment⟩

end

section

variable {d e : Draft} {raw : Text}

def Draft.kinds (d : Draft) : List StepKind := d.forest.authoredSteps.map (·.kind)

theorem Draft.Adds.kinds_eq {level : Nat} {line : Line} (h : d.Adds level line e)
    (hline : line.isStep = false) : e.kinds = d.kinds := by
  cases h with
  | step => cases hline
  | feature => rfl
  | text => rfl
  | root => simp [Draft.kinds, Forest.authoredSteps, attach, Scenario.named]
  | child => simp [Draft.kinds, Forest.authoredSteps, attach, Scenario.named]
  | row hs hsteps hadds =>
    have hkind := hadds.begins.kind
    simp [Draft.kinds, Forest.authoredSteps, hs, hsteps, hkind]

theorem Draft.Adds.exists_kind {level : Nat} {l : StepLine} (h : d.Adds level (.step l) e) :
    ∃ kind, e.kinds = d.kinds ++ [kind] ∧
      d.Adds level (.step { l with keyword := .primary kind }) e := by
  cases h with
  | @step l before s c kind hs hat hconv hkind =>
    refine ⟨kind, ?_, .step hs hat hconv rfl⟩
    simp [Draft.kinds, Forest.authoredSteps, hs, Scenario.addStep, StepLine.toStep, Step.named]

theorem Draft.kinds_of_push (h : (IndentedLine.split raw).line.step? = none)
    (hpush : d.push raw = .ok e) : e.kinds = d.kinds := by
  cases adds_of_push (by rw [Line.isStep_eq, h]; rfl) hpush with
  | inl hsame => rw [hsame]
  | inr hadds =>
    obtain ⟨level, line, hline, hadds⟩ := hadds
    exact hadds.kinds_eq hline

/-- A step line adds a kind. It would do the same if it stated that kind itself. -/
theorem Draft.push_respell {l : StepLine} (h : (IndentedLine.split raw).line = .step l)
    (hpush : d.push raw = .ok e) : ∃ kind, e.kinds = d.kinds ++ [kind] ∧
      d.push (respell kind l.keyword raw) = .ok e := by
  obtain ⟨level, hlevel, hadds⟩ := (push_step_eq_ok_iff h).1 hpush
  obtain ⟨kind, hkinds, hstated⟩ := hadds.exists_kind
  obtain ⟨hindentation, hline⟩ := split_respell h kind
  refine ⟨kind, hkinds, (push_step_eq_ok_iff hline).2 ⟨level, ?_, hstated⟩⟩
  rw [← hlevel, IndentedLine.level?, IndentedLine.level?, hindentation]

theorem Draft.push_spellOut {l : StepLine} (h : (IndentedLine.split raw).line = .step l)
    (hpush : d.push raw = .ok e) : ∃ kind, e.kinds = d.kinds ++ [kind] ∧
      d.push (l.spellOut kind raw) = .ok e ∧
        ∀ s, (IndentedLine.split (l.spellOut kind raw)).line = .step s →
          s.keyword.isConjunction = false := by
  obtain ⟨kind, hkinds, hrespelled⟩ := push_respell h hpush
  refine ⟨kind, hkinds, ?_⟩
  rw [StepLine.spellOut]
  cases hc : l.keyword.isConjunction with
  | true =>
    refine ⟨hrespelled, fun s hs => ?_⟩
    simp only [if_true] at hs
    rw [(split_respell h kind).2] at hs
    cases hs
    rfl
  | false =>
    refine ⟨hpush, fun s hs => ?_⟩
    simp only [Bool.false_eq_true, if_false] at hs
    rw [h] at hs
    cases hs
    exact hc

theorem Draft.Reads.kinds_prefix {raws : List Text} (h : d.Reads raws e) :
    d.kinds <+: e.kinds := by
  refine h.induction (P := fun m => d.kinds <+: m.kinds) ?_ (List.prefix_refl _)
  intro m k raw _ hm hpush
  cases hstep : (IndentedLine.split raw).line.step? with
  | none => rwa [kinds_of_push hstep hpush]
  | some l =>
    obtain ⟨kind, hkinds, -⟩ := push_respell (Line.step?_eq_some_iff.1 hstep) hpush
    rw [hkinds]
    exact hm.trans (List.prefix_append _ _)

theorem Draft.Reads.spellOutAll {raws : List Text} (h : d.Reads raws e) {kinds : List StepKind}
    (hkinds : e.kinds = d.kinds ++ kinds) : d.Reads (spellOutAll kinds raws) e ∧
      ∀ raw ∈ ScenarioForest.spellOutAll kinds raws, ∀ l,
        (IndentedLine.split raw).line = .step l → l.keyword.isConjunction = false := by
  induction raws generalizing d kinds with
  | nil => exact ⟨h, by simp [ScenarioForest.spellOutAll]⟩
  | cons raw rest ih =>
    obtain ⟨m, hm, hrest⟩ := h
    cases hstep : (IndentedLine.split raw).line.step? with
    | none =>
      rw [← kinds_of_push hstep hm] at hkinds
      obtain ⟨hreads, hclear⟩ := ih hrest hkinds
      simp only [ScenarioForest.spellOutAll, hstep]
      refine ⟨⟨m, hm, hreads⟩, List.forall_mem_cons.2 ⟨fun l hl => ?_, hclear⟩⟩
      rw [hl] at hstep
      cases hstep
    | some l =>
      obtain ⟨kind, hkind, hpush, hword⟩ := push_spellOut (Line.step?_eq_some_iff.1 hstep) hm
      obtain ⟨later, hlater⟩ := hrest.kinds_prefix
      obtain rfl : kind :: later = kinds := by
        rw [← hlater, hkind, List.append_assoc] at hkinds
        exact List.append_cancel_left hkinds
      obtain ⟨hreads, hclear⟩ := ih hrest hlater.symm
      simp only [ScenarioForest.spellOutAll, hstep]
      exact ⟨⟨m, hpush, hreads⟩, List.forall_mem_cons.2 ⟨hword, hclear⟩⟩

end

theorem newline_not_mem_spellOutAll (kinds : List StepKind) {raws : List Text}
    (h : ∀ raw ∈ raws, '\n' ∉ raw) : ∀ raw ∈ spellOutAll kinds raws, '\n' ∉ raw := by
  fun_induction spellOutAll kinds raws with
  | case1 => simp
  | case2 raw rest l hstep kind later ih =>
    obtain ⟨hraw, hrest⟩ := List.forall_mem_cons.1 h
    refine List.forall_mem_cons.2 ⟨?_, ih hrest⟩
    rw [StepLine.spellOut]
    split
    · exact newline_not_mem_respell _ _ hraw
    · exact hraw
  | case3 kinds raw rest hnone ih =>
    obtain ⟨hraw, hrest⟩ := List.forall_mem_cons.1 h
    exact List.forall_mem_cons.2 ⟨hraw, ih hrest⟩

/-- A conjunction says no more than the keyword before it. Each step of a scenario is of the kind
that was stated last in the section of that scenario. The same document with that kind written out
in place of every conjunction has none left and makes the same forest. -/
theorem parse_spelledOut {o : ParseOptions} {t : Text} {f : Forest}
    (h : Forest.parse o t = .ok f) :
    List.Forall₂ Scenario.SaidBy f.scenarios (stepSections (visibleLines (Text.lines t))) ∧
    Forest.parse o (t.spelledOut f) = .ok f ∧
    ∀ l ∈ visibleLines (Text.lines (t.spelledOut f)), ∀ s, l.line = .step s →
      s.keyword.isConjunction = false := by
  have hpieces := Text.newline_not_mem_splitOn t
  have hspelled := newline_not_mem_spellOutAll (f.authoredSteps.map (·.kind)) hpieces
  have hjoined : List.intercalate ['\n'] (t.splitOn '\n') = t := List.intercalate_splitOn '\n'
  have hread := h
  rw [← hjoined, Forest.parse_intercalate_eq_ok_iff hpieces] at hread
  obtain ⟨d, hd, rfl⟩ := hread
  have hkinds : d.kinds = (Draft.start o).kinds ++ d.kinds := rfl
  obtain ⟨hreads, hclear⟩ := hd.spellOutAll hkinds
  refine ⟨?_, (Forest.parse_intercalate_eq_ok_iff hspelled).2 ⟨d, hreads, rfl⟩, ?_⟩
  · obtain ⟨e, he, hforest⟩ := Forest.parse_eq_ok_iff_takeAll.1 h
    rw [← hforest]
    exact Draft.sections_takeAll he
  · intro l hl
    rw [Text.spelledOut, visibleLines_lines_intercalate hspelled] at hl
    obtain ⟨raw, hraw, rfl⟩ := List.mem_map.1 (List.mem_filter.1 hl).1
    exact hclear raw hraw

def conjoinedDocument : Text :=
  ("Scenario: A\nGiven a # c\nAnd b\n    | x |\n\nBut d\nWhen e\n" ++
    "    Scenario: B\n    Then g\r\n    But  h").toList

def plainlyStatedDocument : Text :=
  ("Scenario: A\nGiven a # c\nGiven b\n    | x |\n\nGiven d\nWhen e\n" ++
    "    Scenario: B\n    Then g\r\n    Then  h").toList

theorem parse_spelledOut_conjoined : ∃ f, Forest.parse {} conjoinedDocument = .ok f ∧
    List.Forall₂ Scenario.SaidBy f.scenarios
      (stepSections (visibleLines (Text.lines conjoinedDocument))) ∧
    f.scenarios.map (·.lastKind?) = [some .action, some .assertion] ∧
    conjoinedDocument.spelledOut f = plainlyStatedDocument ∧
    Forest.parse {} plainlyStatedDocument = .ok f := by
  have hread : (Forest.parse {} conjoinedDocument).toOption.map
      (fun f => (f.authoredSteps.map (·.kind), f.scenarios.map (·.lastKind?))) =
      some ([.prerequisite, .prerequisite, .prerequisite, .action, .assertion, .assertion],
        [some .action, some .assertion]) := by
    decide +kernel
  obtain ⟨f, hf, hkinds⟩ := Forest.exists_parse_of_map hread
  obtain ⟨hsteps, hlast⟩ := Prod.mk.inj hkinds
  have hspelled : conjoinedDocument.spelledOut f = plainlyStatedDocument := by
    rw [Text.spelledOut, hsteps]
    decide +kernel
  obtain ⟨hsections, hparse, -⟩ := parse_spelledOut hf
  rw [hspelled] at hparse
  exact ⟨f, hf, hsections, hlast, hspelled, hparse⟩

end ScenarioForest
