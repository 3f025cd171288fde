import ScenarioForest.Proofs.Grammar
import ScenarioForest.Proofs.Line
import ScenarioForest.Proofs.Shape
set_option autoImplicit false

/-!
A document is read exactly when its lines keep the grammar. The draft is related to the lines
that led to it, and each line is taken exactly when the grammar allows it after those lines.
-/

namespace ScenarioForest

theorem Line.read_eq (content : Text) (w : Bool) : Line.read content w =
    if (Line.read content true).isText then
      if w then .text content else .unrecognized content
    else Line.read content true := by
  rcases read_cases content with ⟨line, hread, hfixed⟩ | hread
  · have htext : line.isText = false := by
      cases line with
      | text t => exact absurd rfl (hfixed t).1
      | _ => rfl
    simp [hread, htext]
  · simp [hread, isText]

theorem Draft.adds_lineOf_iff {d e : Draft} {level : Nat} {l : IndentedLine} :
    d.Adds level (d.lineOf l.content) e ↔
      d.Adds level l.line e ∧ (l.line.isText = true → d.welcomesText = true) := by
  unfold lineOf IndentedLine.line
  cases ht : (Line.read l.content true).isText with
  | false => simp [Line.read_eq l.content d.welcomesText, ht]
  | true =>
    cases hw : d.welcomesText with
    | true => simp
    | false =>
      rw [Line.read_eq l.content false]
      simp only [ht, if_true, Bool.false_eq_true, if_false, forall_const, and_false, iff_false]
      rintro ⟨⟩

theorem Draft.push_eq_ok_iff_line {d e : Draft} {raw : Text} {l : IndentedLine}
    (hl : IndentedLine.split raw = l) (hb : l.isBlank = false) : d.push raw = .ok e ↔
      l.indentation % indentWidth = 0 ∧ d.Adds l.depth l.line e ∧
        (l.line.isText = true → d.welcomesText = true) := by
  subst hl
  rw [push_eq_ok_iff hb]
  simp only [adds_lineOf_iff, IndentedLine.level?, IndentedLine.depth]
  split
  · next h => simp [h]
  · next h => simp [h]

theorem sinceHeader_concat {before : List IndentedLine} {l : IndentedLine} :
    sinceHeader (before ++ [l]) = if l.line.isScenario then [] else sinceHeader before ++ [l] := by
  cases h : l.line.isScenario <;> simp [sinceHeader, h]

theorem sinceStep_concat {before : List IndentedLine} {l : IndentedLine} :
    sinceStep (before ++ [l]) = if l.line.isStep then [] else sinceStep before ++ [l] := by
  cases h : l.line.isStep <;> simp [sinceStep, h]

theorem keepsConvention_concat {o : ParseOptions} {lines : List IndentedLine} {l : IndentedLine}
    {c : StepIndentation} : KeepsConvention o (lines ++ [l]) c ↔ KeepsConvention o lines c ∧
      (l.line.isStep = true → ∃ h, latestHeader? lines = some h ∧ l.depth = h.depth + c.offset) := by
  constructor
  · intro h
    obtain ⟨hs, hl⟩ := everywhere_concat.1 h.step
    exact ⟨⟨h.asked, hs⟩, hl⟩
  · rintro ⟨h, hl⟩
    exact ⟨h.asked, everywhere_concat.2 ⟨h.step, hl⟩⟩

theorem documentGrammar_nil {o : ParseOptions} : DocumentGrammar o [] where
  indented := by simp
  text := everywhere_nil
  feature := everywhere_nil
  scenario := everywhere_nil
  step := by
    refine ⟨o.stepIndentation.getD .sameAsScenario, ?_, everywhere_nil⟩
    intro fixed hf
    simp [hf]
  keyword := everywhere_nil
  row := everywhere_nil

structure AllowsNext (o : ParseOptions) (lines : List IndentedLine) (l : IndentedLine) : Prop where
  indented : l.indentation % indentWidth = 0
  text : l.line.isText = true →
    (∃ h ∈ lines, h.line.isFeature = true) ∧ ∀ h ∈ lines, h.line.isScenario = false
  feature : l.line.isFeature = true → lines = []
  scenario : l.line.isScenario = true → (latestHeader? lines = none → l.depth = 1) ∧
    ∀ h, latestHeader? lines = some h → l.depth ≤ h.depth + 1
  step : ∃ c, KeepsConvention o (lines ++ [l]) c
  keyword : ∀ s, l.line = .step s →
    (∀ m ∈ sinceHeader lines, m.line.isStep = false) → s.keyword.isConjunction = false
  row : ∀ r, l.line = .row r → (∃ m ∈ sinceHeader lines, m.line.isStep = true) ∧
    ∀ m ∈ sinceStep lines, ∀ q, m.line = .row q → r.width = q.width

theorem documentGrammar_concat {o : ParseOptions} {lines : List IndentedLine} {l : IndentedLine} :
    DocumentGrammar o (lines ++ [l]) ↔ DocumentGrammar o lines ∧ AllowsNext o lines l := by
  constructor
  · intro h
    have hi := h.indented
    simp only [List.mem_append, List.mem_singleton] at hi
    obtain ⟨ht, ht'⟩ := everywhere_concat.1 h.text
    obtain ⟨hf, hf'⟩ := everywhere_concat.1 h.feature
    obtain ⟨hs, hs'⟩ := everywhere_concat.1 h.scenario
    obtain ⟨hk, hk'⟩ := everywhere_concat.1 h.keyword
    obtain ⟨hr, hr'⟩ := everywhere_concat.1 h.row
    obtain ⟨c, hc⟩ := h.step
    exact ⟨⟨fun m hm => hi m (.inl hm), ht, hf, hs, ⟨c, (keepsConvention_concat.1 hc).1⟩, hk, hr⟩,
      ⟨hi l (.inr rfl), ht', hf', hs', ⟨c, hc⟩, hk', hr'⟩⟩
  · rintro ⟨h, hl⟩
    refine ⟨?_, everywhere_concat.2 ⟨h.text, hl.text⟩, everywhere_concat.2 ⟨h.feature, hl.feature⟩,
      everywhere_concat.2 ⟨h.scenario, hl.scenario⟩, hl.step,
      everywhere_concat.2 ⟨h.keyword, hl.keyword⟩, everywhere_concat.2 ⟨h.row, hl.row⟩⟩
    intro m hm
    rcases List.mem_append.1 hm with hm | hm
    · exact h.indented m hm
    · rw [List.mem_singleton.1 hm]
      exact hl.indented

/-- What a draft knows of the lines that led to it. A width fits the table of the last step if it
is the width of every row since that step, so no table stands for every width. -/
structure Draft.Reflects (o : ParseOptions) (lines : List IndentedLine) (d : Draft) : Prop where
  shaped : d.forest.Shaped
  name : d.forest.name.isSome = true ↔ ∃ h ∈ lines, h.line.isFeature = true
  levels : d.forest.scenarios.map (·.level) =
    (lines.filter (·.line.isScenario)).map (·.depth)
  started : lines ≠ [] → d.forest.name ≠ none ∨ d.forest.scenarios ≠ []
  convention : ∀ c, (d.convention = none ∨ d.convention = some c) ↔ KeepsConvention o lines c
  steps : ∀ s, d.forest.scenarios.getLast? = some s →
    (s.steps = [] ↔ ∀ m ∈ sinceHeader lines, m.line.isStep = false)
  rows : ∀ s step, d.forest.scenarios.getLast? = some s → s.steps.getLast? = some step →
    ∀ n, (∀ t, step.table = some t → n = t.width) ↔
      ∀ m ∈ sinceStep lines, ∀ q, m.line = .row q → n = q.width

theorem Draft.reflects_start (o : ParseOptions) : (Draft.start o).Reflects o [] where
  shaped := Forest.shaped_empty
  name := by simp [start, Forest.empty]
  levels := rfl
  started h := absurd rfl h
  convention c := by
    constructor
    · rintro h
      refine ⟨fun fixed hf => ?_, everywhere_nil⟩
      simpa [start, hf, eq_comm] using h
    · intro h
      cases hf : o.stepIndentation with
      | none => exact .inl hf
      | some fixed =>
        rw [h.asked fixed hf]
        exact .inr hf
  steps s hs := by simp [start, Forest.empty] at hs
  rows s step hs := by simp [start, Forest.empty] at hs

section

variable {o : ParseOptions} {lines : List IndentedLine} {d : Draft}

theorem Draft.Reflects.last_level (h : d.Reflects o lines) :
    d.forest.scenarios.getLast?.map (·.level) = (latestHeader? lines).map (·.depth) := by
  rw [latestHeader?, ← List.getLast?_map, ← List.getLast?_map, h.levels]

theorem Draft.Reflects.scenarios_eq_nil_iff (h : d.Reflects o lines) :
    d.forest.scenarios = [] ↔ ∀ m ∈ lines, m.line.isScenario = false := by
  rw [← List.map_eq_nil_iff (f := fun s : Scenario => s.level), h.levels, List.map_eq_nil_iff,
    List.filter_eq_nil_iff]
  simp

theorem Draft.Reflects.welcomesText_iff (h : d.Reflects o lines) : d.welcomesText = true ↔
    (∃ m ∈ lines, m.line.isFeature = true) ∧ ∀ m ∈ lines, m.line.isScenario = false := by
  rw [welcomesText, Bool.and_eq_true, h.name, List.isEmpty_iff, h.scenarios_eq_nil_iff]

theorem Draft.Reflects.exists_feature_iff (h : d.Reflects o lines) (level : Nat) (name : Text) :
    (∃ e, d.Adds level (.feature name) e) ↔ lines = [] := by
  constructor
  · rintro ⟨e, hn, hs⟩
    by_contra hne
    rcases h.started hne with h' | h'
    · exact h' hn
    · exact h' hs
  · rintro rfl
    have hn : d.forest.name = none := by simpa using h.name
    exact ⟨_, .feature hn (h.scenarios_eq_nil_iff.2 (by simp))⟩

theorem Draft.Reflects.exists_scenario_iff (h : d.Reflects o lines) {level : Nat} (name : Text)
    (hpos : 1 ≤ level) : (∃ e, d.Adds level (.scenario name) e) ↔
      (latestHeader? lines = none → level = 1) ∧
        ∀ m, latestHeader? lines = some m → level ≤ m.depth + 1 := by
  have hlast := h.last_level
  constructor
  · rintro ⟨e, he⟩
    cases he with
    | root hl => exact ⟨fun _ => by omega, fun m _ => by omega⟩
    | @child name p hl hp =>
      obtain ⟨s, hs, hle⟩ := (h.shaped.exists_openAt?_iff (by omega)).1 ⟨p, hp⟩
      rw [hs] at hlast
      constructor
      · intro hn
        simp [hn] at hlast
      · intro m hm
        simp only [hm, Option.map_some, Option.some.injEq] at hlast
        omega
  · rintro ⟨hfirst, hlater⟩
    by_cases hl : level ≤ 1
    · exact ⟨_, .root hl⟩
    · cases hm : latestHeader? lines with
      | none => exact absurd (hfirst hm) (by omega)
      | some m =>
        rw [hm, Option.map_some, Option.map_eq_some_iff] at hlast
        obtain ⟨s, hs, hlevel⟩ := hlast
        have hle := hlater m hm
        have hup : 1 ≤ level - 1 := by omega
        obtain ⟨p, hp⟩ := (h.shaped.exists_openAt?_iff hup).2 ⟨s, hs, by omega⟩
        exact ⟨_, .child (by omega) hp⟩

theorem Draft.Reflects.exists_step_iff (h : d.Reflects o lines) (level : Nat) (l : StepLine) :
    (∃ e, d.Adds level (.step l) e) ↔
      (∃ c, KeepsConvention o lines c ∧
        ∃ m, latestHeader? lines = some m ∧ level = m.depth + c.offset) ∧
      ((∀ m ∈ sinceHeader lines, m.line.isStep = false) → l.keyword.isConjunction = false) := by
  have hlast := h.last_level
  constructor
  · rintro ⟨e, he⟩
    cases he with
    | @step l before s c kind hs hl hc hk =>
      have hs' : d.forest.scenarios.getLast? = some s := by simp [hs]
      rw [hs', Option.map_some, eq_comm, Option.map_eq_some_iff] at hlast
      obtain ⟨m, hm, hd⟩ := hlast
      refine ⟨⟨c, (h.convention c).1 hc, m, hm, by omega⟩, fun hno => ?_⟩
      have hnil := (h.steps s hs').2 hno
      by_contra hconj
      rw [Keyword.resolve_eq_none_iff.2 ⟨by simpa using hconj, by simp [Scenario.lastKind?, hnil]⟩]
        at hk
      cases hk
  · rintro ⟨⟨c, hc, m, hm, hl⟩, hkey⟩
    rw [hm, Option.map_some, Option.map_eq_some_iff] at hlast
    obtain ⟨s, hs, hd⟩ := hlast
    obtain ⟨before, hb⟩ := List.getLast?_eq_some_iff.1 hs
    cases hk : l.keyword.resolve s.lastKind? with
    | none =>
      obtain ⟨hconj, hnone⟩ := Keyword.resolve_eq_none_iff.1 hk
      have hnil : s.steps = [] := by simpa [Scenario.lastKind?] using hnone
      rw [hkey ((h.steps s hs).1 hnil)] at hconj
      cases hconj
    | some kind => exact ⟨_, .step hb (by omega) ((h.convention c).2 hc) hk⟩

theorem Step.exists_addsRow_iff {s : Step} {r : Row} :
    (∃ u, s.AddsRow r u) ↔ ∀ t, s.table = some t → r.width = t.width := by
  constructor
  · rintro ⟨u, hu⟩ t ht
    cases hu with
    | header h => simp [h] at ht
    | data h hp =>
      rw [h] at ht
      cases ht
      exact Table.exists_push_iff.1 ⟨_, hp⟩
  · intro h
    cases ht : s.table with
    | none => exact ⟨_, .header ht⟩
    | some t =>
      obtain ⟨u, hu⟩ := Table.exists_push_iff.2 (h t ht)
      exact ⟨_, .data ht hu⟩

theorem Draft.Reflects.exists_row_iff (h : d.Reflects o lines) (level : Nat) (r : Row) :
    (∃ e, d.Adds level (.row r) e) ↔ (∃ s, d.forest.scenarios.getLast? = some s) ∧
      (∃ m ∈ sinceHeader lines, m.line.isStep = true) ∧
      ∀ m ∈ sinceStep lines, ∀ q, m.line = .row q → r.width = q.width := by
  constructor
  · rintro ⟨e, he⟩
    cases he with
    | @row r before s steps step next hs hst hr =>
      have hs' : d.forest.scenarios.getLast? = some s := by simp [hs]
      refine ⟨⟨s, hs'⟩, ?_, ?_⟩
      · by_contra hno
        have hnil := (h.steps s hs').2 fun m hm => by
          by_contra hm'
          exact hno ⟨m, hm, by simpa using hm'⟩
        simp [hst] at hnil
      · exact (h.rows s step hs' (by simp [hst]) _).1 (Step.exists_addsRow_iff.1 ⟨next, hr⟩)
  · rintro ⟨⟨s, hs⟩, ⟨m, hm, hstep⟩, hwidth⟩
    obtain ⟨before, hb⟩ := List.getLast?_eq_some_iff.1 hs
    have hne : s.steps ≠ [] := by
      intro hnil
      rw [(h.steps s hs).1 hnil m hm] at hstep
      cases hstep
    obtain ⟨steps, step, hst⟩ := (List.eq_nil_or_concat s.steps).resolve_left hne
    rw [List.concat_eq_append] at hst
    obtain ⟨next, hr⟩ := Step.exists_addsRow_iff.2
      ((h.rows s step hs (by simp [hst]) r.width).2 hwidth)
    exact ⟨_, .row hb hst hr⟩

theorem Draft.Reflects.scenarios_ne_nil (h : d.Reflects o lines) (hg : DocumentGrammar o lines)
    {m : IndentedLine} (hm : m ∈ lines) (hstep : m.line.isStep = true) :
    d.forest.scenarios ≠ [] := by
  obtain ⟨before, after, hsplit⟩ := List.append_of_mem hm
  obtain ⟨c, hc⟩ := hg.step
  obtain ⟨k, hk, -⟩ := hc.step before m after hsplit hstep
  have hkmem := List.mem_filter.1 (List.mem_of_getLast? hk)
  intro hnil
  have hall := h.scenarios_eq_nil_iff.1 hnil k (by simp [hsplit, hkmem.1])
  simp [hkmem.2] at hall

/-- A line is taken exactly when the grammar allows it after the lines before. -/
theorem Draft.Reflects.exists_adds_iff (h : d.Reflects o lines) (hg : DocumentGrammar o lines)
    {l : IndentedLine} : (l.indentation % indentWidth = 0 ∧ (∃ e, d.Adds l.depth l.line e) ∧
      (l.line.isText = true → d.welcomesText = true)) ↔ AllowsNext o lines l := by
  have hdepth : 1 ≤ l.depth := by simp [IndentedLine.depth]
  have hconv : ∀ hn : l.line.isStep = false, ∃ c, KeepsConvention o (lines ++ [l]) c := by
    intro hn
    obtain ⟨c, hc⟩ := hg.step
    exact ⟨c, keepsConvention_concat.2 ⟨hc, by simp [hn]⟩⟩
  cases hl : l.line with
  | feature name =>
    have hiff := h.exists_feature_iff l.depth name
    constructor
    · rintro ⟨hi, ha, -⟩
      exact ⟨hi, by simp [hl, Line.isText], fun _ => hiff.1 ha, by simp [hl, Line.isScenario],
        hconv (by simp [hl, Line.isStep]), by simp [hl], by simp [hl]⟩
    · intro hn
      exact ⟨hn.indented, hiff.2 (hn.feature (by simp [hl, Line.isFeature])), by simp [Line.isText]⟩
  | scenario name =>
    have hiff := h.exists_scenario_iff name hdepth
    constructor
    · rintro ⟨hi, ha, -⟩
      exact ⟨hi, by simp [hl, Line.isText], by simp [hl, Line.isFeature], fun _ => hiff.1 ha,
        hconv (by simp [hl, Line.isStep]), by simp [hl], by simp [hl]⟩
    · intro hn
      exact ⟨hn.indented, hiff.2 (hn.scenario (by simp [hl, Line.isScenario])),
        by simp [Line.isText]⟩
  | step s =>
    have hiff := h.exists_step_iff l.depth s
    constructor
    · rintro ⟨hi, ha, -⟩
      obtain ⟨⟨c, hc, hm⟩, hk⟩ := hiff.1 ha
      refine ⟨hi, by simp [hl, Line.isText], by simp [hl, Line.isFeature],
        by simp [hl, Line.isScenario], ⟨c, keepsConvention_concat.2 ⟨hc, fun _ => hm⟩⟩, ?_,
        by simp [hl]⟩
      intro t ht
      rw [hl] at ht
      cases ht
      exact hk
    · intro hn
      obtain ⟨c, hc⟩ := hn.step
      obtain ⟨hc, hm⟩ := keepsConvention_concat.1 hc
      exact ⟨hn.indented, hiff.2 ⟨⟨c, hc, hm (by simp [hl, Line.isStep])⟩, hn.keyword s hl⟩,
        by simp [Line.isText]⟩
  | row r =>
    have hiff := h.exists_row_iff l.depth r
    constructor
    · rintro ⟨hi, ha, -⟩
      refine ⟨hi, by simp [hl, Line.isText], by simp [hl, Line.isFeature],
        by simp [hl, Line.isScenario], hconv (by simp [hl, Line.isStep]), by simp [hl], ?_⟩
      intro q hq
      rw [hl] at hq
      cases hq
      exact (hiff.1 ha).2
    · intro hn
      obtain ⟨⟨m, hm, hstep⟩, hwidth⟩ := hn.row r hl
      have hmem : m ∈ lines := (List.rtakeWhile_suffix _ lines).subset hm
      have hne := h.scenarios_ne_nil hg hmem hstep
      exact ⟨hn.indented, hiff.2 ⟨⟨_, List.getLast?_eq_some_getLast hne⟩, ⟨m, hm, hstep⟩, hwidth⟩,
        by simp [Line.isText]⟩
  | text t =>
    constructor
    · rintro ⟨hi, -, hw⟩
      exact ⟨hi, fun _ => h.welcomesText_iff.1 (hw rfl), by simp [hl, Line.isFeature],
        by simp [hl, Line.isScenario], hconv (by simp [hl, Line.isStep]), by simp [hl],
        by simp [hl]⟩
    · intro hn
      exact ⟨hn.indented, ⟨_, .text⟩,
        fun _ => h.welcomesText_iff.2 (hn.text (by simp [hl, Line.isText]))⟩
  | unrecognized t => exact absurd hl Line.read_ne_unrecognized

theorem Step.AddsRow.fits_iff {s u : Step} {r : Row} (h : s.AddsRow r u) (n : Nat) :
    (∀ t, u.table = some t → n = t.width) ↔
      (∀ t, s.table = some t → n = t.width) ∧ n = r.width := by
  cases h with
  | header hs => simp [hs, Step.withTable, Table.ofHeader, Table.width]
  | data hs hp =>
    obtain ⟨hw, hh, -⟩ := Table.push_eq_ok_iff.1 hp
    simp only [hs, Step.withTable, Option.some.injEq, forall_eq', Table.width, hh] at *
    omega

theorem Draft.Reflects.attach (h : d.Reflects o lines) {l : IndentedLine} {name : Text}
    {parent : Option Nat} (hl : l.line = .scenario name)
    (hshaped : (d.attach l.depth name parent).forest.Shaped) :
    (d.attach l.depth name parent).Reflects o (lines ++ [l]) where
  shaped := hshaped
  name := by
    rw [show (d.attach l.depth name parent).forest.name = d.forest.name from rfl, h.name]
    simp [hl, Line.isFeature]
  levels := by simp [Draft.attach, Scenario.named, h.levels, hl, Line.isScenario]
  started := by simp [Draft.attach]
  convention c := by
    rw [keepsConvention_concat, ← h.convention c]
    simp [Draft.attach, hl, Line.isStep]
  steps s hs := by
    simp only [Draft.attach, List.getLast?_concat, Option.some.injEq] at hs
    subst hs
    simp [Scenario.named, sinceHeader_concat, hl, Line.isScenario]
  rows s step hs ht := by
    simp only [Draft.attach, List.getLast?_concat, Option.some.injEq] at hs
    subst hs
    simp [Scenario.named] at ht

theorem Draft.Reflects.addFeature (h : d.Reflects o lines) {l : IndentedLine} {name : Text}
    (hl : l.line = .feature name) (hs : d.forest.scenarios = []) {e : Draft}
    (he : e = { d with forest := { d.forest with name := some name } })
    (hshaped : e.forest.Shaped) : e.Reflects o (lines ++ [l]) where
  shaped := hshaped
  name := by simp [he, hl, Line.isFeature]
  levels := by simpa [he, hl, Line.isScenario] using h.levels
  started := by simp [he]
  convention c := by
    rw [keepsConvention_concat, ← h.convention c]
    simp [he, hl, Line.isStep]
  steps s hs' := by simp [he, hs] at hs'
  rows s step hs' := by simp [he, hs] at hs'

theorem Draft.Reflects.addText (h : d.Reflects o lines) {l : IndentedLine} {t : Text}
    (hl : l.line = .text t) (hw : d.welcomesText = true)
    (hshaped : (d.addText t).forest.Shaped) : (d.addText t).Reflects o (lines ++ [l]) := by
  simp only [welcomesText, Bool.and_eq_true, List.isEmpty_iff] at hw
  exact {
    shaped := hshaped
    name := by simpa [Draft.addText, hl, Line.isFeature] using h.name
    levels := by simpa [Draft.addText, hl, Line.isScenario] using h.levels
    started := fun _ => .inl (Option.isSome_iff_ne_none.1 hw.1)
    convention := fun c => by
      rw [keepsConvention_concat, ← h.convention c]
      simp [Draft.addText, hl, Line.isStep]
    steps := fun s hs => by simp [Draft.addText, hw.2] at hs
    rows := fun s step hs => by simp [Draft.addText, hw.2] at hs }

theorem Draft.Reflects.keepsConvention_step (h : d.Reflects o lines) {l : IndentedLine}
    {s : StepLine} (hl : l.line = .step s) {m : IndentedLine} (hm : latestHeader? lines = some m)
    {c : StepIndentation} (hc : d.convention = none ∨ d.convention = some c)
    (hlevel : l.depth = m.depth + c.offset) (k : StepIndentation) :
    c = k ↔ KeepsConvention o (lines ++ [l]) k := by
  simp only [keepsConvention_concat, hl, Line.isStep, forall_const, hm, Option.some.injEq,
    exists_eq_left']
  constructor
  · rintro rfl
    exact ⟨(h.convention c).1 hc, hlevel⟩
  · rintro ⟨-, hoff⟩
    have : c.offset = k.offset := by omega
    cases c <;> cases k <;> simp_all [StepIndentation.offset]

theorem Draft.Reflects.addStep (h : d.Reflects o lines) {l : IndentedLine} {s : StepLine}
    (hl : l.line = .step s) {before : List Scenario} {last : Scenario}
    (hs : d.forest.scenarios = before ++ [last]) {c : StepIndentation}
    (hlevel : l.depth = last.level + c.offset)
    (hc : d.convention = none ∨ d.convention = some c) {kind : StepKind} {e : Draft}
    (he : e = ⟨{ d.forest with scenarios := before ++ [last.addStep (s.toStep kind)] }, some c⟩)
    (hshaped : e.forest.Shaped) : e.Reflects o (lines ++ [l]) := by
  have hlast := h.last_level
  rw [hs, List.getLast?_concat, Option.map_some, eq_comm, Option.map_eq_some_iff] at hlast
  obtain ⟨m, hm, hd⟩ := hlast
  have hconv := h.keepsConvention_step hl hm hc (by omega)
  subst he
  exact {
    shaped := hshaped
    name := by simpa [hl, Line.isFeature] using h.name
    levels := by simpa [hl, Line.isScenario, hs, Scenario.addStep] using h.levels
    started := by simp
    convention := fun k => by simp [← hconv k]
    steps := fun t ht => by
      simp only [List.getLast?_concat, Option.some.injEq] at ht
      subst ht
      simp [Scenario.addStep, sinceHeader_concat, hl, Line.isScenario, Line.isStep]
    rows := fun t step ht hstep => by
      simp only [List.getLast?_concat, Option.some.injEq] at ht
      subst ht
      simp only [Scenario.addStep, List.getLast?_concat, Option.some.injEq] at hstep
      subst hstep
      simp [StepLine.toStep, Step.named, sinceStep_concat, hl, Line.isStep] }

theorem Draft.Reflects.addRow (h : d.Reflects o lines) {l : IndentedLine} {r : Row}
    (hl : l.line = .row r) {before : List Scenario} {last : Scenario}
    (hs : d.forest.scenarios = before ++ [last]) {steps : List Step} {step next : Step}
    (hst : last.steps = steps ++ [step]) (hr : step.AddsRow r next) {e : Draft}
    (he : e = { d with forest := { d.forest with
      scenarios := before ++ [{ last with steps := steps ++ [next] }] } })
    (hshaped : e.forest.Shaped) : e.Reflects o (lines ++ [l]) := by
  have hlast : d.forest.scenarios.getLast? = some last := by simp [hs]
  subst he
  exact {
    shaped := hshaped
    name := by simpa [hl, Line.isFeature] using h.name
    levels := by simpa [hl, Line.isScenario, hs] using h.levels
    started := by simp
    convention := fun c => by
      rw [keepsConvention_concat, ← h.convention c]
      simp [hl, Line.isStep]
    steps := fun t ht => by
      simp only [List.getLast?_concat, Option.some.injEq] at ht
      subst ht
      have hsome := h.steps last hlast
      simp only [hst, List.append_eq_nil_iff, List.cons_ne_nil, and_false, false_iff] at hsome
      simp only [List.append_eq_nil_iff, List.cons_ne_nil, and_false, false_iff,
        sinceHeader_concat, hl, Line.isScenario, Bool.false_eq_true, if_false]
      exact fun hall => hsome fun m hm => hall m (by simp [hm])
    rows := fun t u ht hu n => by
      simp only [List.getLast?_concat, Option.some.injEq] at ht
      subst ht
      simp only [List.getLast?_concat, Option.some.injEq] at hu
      subst hu
      rw [hr.fits_iff, h.rows last step hlast (by simp [hst]) n, sinceStep_concat]
      simp [hl, Line.isStep, or_imp, forall_and] }

theorem Draft.Reflects.adds (h : d.Reflects o lines) {l : IndentedLine} {e : Draft}
    (ha : d.Adds l.depth l.line e) (hw : l.line.isText = true → d.welcomesText = true) :
    e.Reflects o (lines ++ [l]) := by
  have hshaped := ha.shaped (by simp [IndentedLine.depth]) h.shaped
  generalize hl : l.line = line at ha
  cases ha with
  | feature hn hs => exact h.addFeature hl hs rfl hshaped
  | text => exact h.addText hl (hw (by simp [hl, Line.isText])) hshaped
  | root => exact h.attach hl hshaped
  | child => exact h.attach hl hshaped
  | step hs hlevel hc hk => exact h.addStep hl hs hlevel hc rfl hshaped
  | row hs hst hr => exact h.addRow hl hs hst hr rfl hshaped

end

theorem Draft.exists_reads_iff (o : ParseOptions) (raws : List Text) :
    ((∃ d, (Draft.start o).Reads raws d) ↔ DocumentGrammar o (visibleLines raws)) ∧
      ∀ d, (Draft.start o).Reads raws d → d.Reflects o (visibleLines raws) := by
  induction raws using List.reverseRecOn with
  | nil =>
    have hstart : ∀ d, (Draft.start o).Reads [] d → d.Reflects o (visibleLines []) := by
      rintro d rfl
      exact reflects_start o
    exact ⟨⟨fun _ => documentGrammar_nil, fun _ => ⟨_, rfl⟩⟩, hstart⟩
  | append_singleton raws raw ih =>
    obtain ⟨hiff, hreflects⟩ := ih
    simp only [reads_append, reads_singleton]
    cases hb : (IndentedLine.split raw).isBlank with
    | true =>
      have hv : visibleLines (raws ++ [raw]) = visibleLines raws := by simp [visibleLines, hb]
      simp only [hv, push_of_blank hb, Except.ok.injEq, exists_eq_right]
      exact ⟨hiff, hreflects⟩
    | false =>
      have hv : visibleLines (raws ++ [raw]) = visibleLines raws ++ [IndentedLine.split raw] := by
        simp [visibleLines, hb]
      rw [hv, documentGrammar_concat]
      have hpush := fun d e => push_eq_ok_iff_line (d := d) (e := e) rfl hb
      constructor
      · constructor
        · rintro ⟨e, d, hd, he⟩
          obtain ⟨hi, ha, hw⟩ := (hpush d e).1 he
          have hg := hiff.1 ⟨d, hd⟩
          exact ⟨hg, ((hreflects d hd).exists_adds_iff hg).1 ⟨hi, ⟨e, ha⟩, hw⟩⟩
        · rintro ⟨hg, hn⟩
          obtain ⟨d, hd⟩ := hiff.2 hg
          obtain ⟨hi, ⟨e, ha⟩, hw⟩ := ((hreflects d hd).exists_adds_iff hg).2 hn
          exact ⟨e, d, hd, (hpush d e).2 ⟨hi, ha, hw⟩⟩
      · rintro e ⟨d, hd, he⟩
        obtain ⟨-, ha, hw⟩ := (hpush d e).1 he
        exact (hreflects d hd).adds ha hw

/-- A document is read if and only if its visible lines keep the grammar. -/
theorem parse_ok_iff_documentGrammar (o : ParseOptions) (t : Text) :
    (∃ f, Forest.parse o t = .ok f) ↔ DocumentGrammar o (visibleLines (Text.lines t)) := by
  rw [← (Draft.exists_reads_iff o (Text.lines t)).1]
  simp [Forest.parse_eq_ok_iff]

end ScenarioForest
