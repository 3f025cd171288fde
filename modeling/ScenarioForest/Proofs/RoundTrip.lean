import ScenarioForest.Proofs.Written
set_option autoImplicit false

/-!
A flat document is read back as a forest of roots that hold what was written.
-/

namespace ScenarioForest

/-- A draft of a forest whose steps stand below no scenario so far. -/
structure Draft.Holds (d : Draft) (f : Forest) : Prop where
  forest : d.forest = f
  convention : d.convention = none ∨ d.convention = some .sameAsScenario

/-- Lines that can be read after a forest exactly under a condition, and then lead to another
forest. -/
def Forest.Grows (f : Forest) (lines : List Text) (ok : Prop) (g : Forest) : Prop :=
  ∀ d : Draft, d.Holds f → ((∃ e, d.Reads lines e) ↔ ok) ∧ ∀ e, d.Reads lines e → e.Holds g

theorem Forest.grows_nil (f : Forest) : f.Grows [] True f := by
  intro d hd
  refine ⟨⟨fun _ => trivial, fun _ => ⟨d, rfl⟩⟩, fun e he => ?_⟩
  rw [show e = d from he]
  exact hd

theorem Forest.Grows.append {f g k : Forest} {first second : List Text} {P Q : Prop}
    (hf : f.Grows first P g) (hg : g.Grows second Q k) : f.Grows (first ++ second) (P ∧ Q) k := by
  intro d hd
  obtain ⟨hp, hmid⟩ := hf d hd
  constructor
  · constructor
    · rintro ⟨e, he⟩
      obtain ⟨m, hm, he⟩ := Draft.reads_append.1 he
      exact ⟨hp.1 ⟨m, hm⟩, (hg m (hmid m hm)).1.1 ⟨e, he⟩⟩
    · rintro ⟨h, hq⟩
      obtain ⟨m, hm⟩ := hp.2 h
      obtain ⟨e, he⟩ := (hg m (hmid m hm)).1.2 hq
      exact ⟨e, Draft.reads_append.2 ⟨m, hm, he⟩⟩
  · intro e he
    obtain ⟨m, hm, he⟩ := Draft.reads_append.1 he
    exact (hg m (hmid m hm)).2 e he

theorem Forest.Grows.congr {f g : Forest} {lines : List Text} {P Q : Prop}
    (h : f.Grows lines P g) (hpq : P ↔ Q) : f.Grows lines Q g := fun d hd =>
  ⟨(h d hd).1.trans hpq, (h d hd).2⟩

theorem Forest.grows_of_push {f g : Forest} {raw : Text}
    (h : ∀ d : Draft, d.Holds f → ∃ e, d.push raw = .ok e ∧ e.Holds g) :
    f.Grows [raw] True g := by
  intro d hd
  obtain ⟨e, he, hg⟩ := h d hd
  refine ⟨⟨fun _ => trivial, fun _ => ⟨e, Draft.reads_singleton.2 he⟩⟩, fun e' he' => ?_⟩
  rw [Draft.reads_singleton, he] at he'
  cases he'
  exact hg

theorem Forest.grows_of_error {f : Forest} {raw : Text} (g : Forest)
    (h : ∀ d : Draft, d.Holds f → ∃ fault, d.push raw = .error fault) :
    f.Grows [raw] False g := by
  intro d hd
  obtain ⟨fault, hfault⟩ := h d hd
  have hnone : ∀ e, ¬ d.Reads [raw] e := by
    intro e he
    rw [Draft.reads_singleton, hfault] at he
    cases he
  exact ⟨by simpa using hnone, fun e he => absurd he (hnone e)⟩

theorem Forest.grows_blank (f : Forest) : f.Grows [[]] True f :=
  grows_of_push fun d hd => ⟨d, Draft.push_of_blank rfl, hd⟩

theorem Draft.push_eq_add (d : Draft) {n : Nat} {a content : Text}
    (ha : a = List.replicate (n * indentWidth) ' ') (h : Text.Solid content) :
    d.push (a ++ content) = d.add (n + 1) content (d.lineOf content) := by
  have hblank : ∀ c ∈ a, isBlank c = true := by
    rw [ha]
    exact fun _ => blank_of_mem_replicate
  have hsplit := IndentedLine.split_append hblank h.toTrimmed h.ne_nil
  have hlevel : (IndentedLine.mk a.length content).level? = some (n + 1) := by
    simp [IndentedLine.level?, ha, indentWidth]
  have hne : content.isEmpty = false := by simpa using h.ne_nil
  simp [push, hsplit, IndentedLine.isBlank, hne, hlevel]

theorem Draft.push_of_adds {d e : Draft} {n : Nat} {a content : Text} {line : Line}
    (ha : a = List.replicate (n * indentWidth) ' ') (h : Text.Solid content)
    (hline : Line.read content d.welcomesText = line) (hadds : d.Adds (n + 1) line e) :
    d.push (a ++ content) = .ok e := by
  rw [push_eq_add d ha h, lineOf, hline]
  exact add_eq_ok_iff.2 hadds

theorem Forest.grows_feature {name : Text} (h : Text.Solid name) :
    Forest.empty.Grows [featureMark ++ name] True ⟨some name, [], []⟩ := by
  refine grows_of_push fun d hd => ⟨⟨⟨some name, [], []⟩, d.convention⟩, ?_, rfl, hd.convention⟩
  have hsolid : Text.Solid (featureMark ++ name) :=
    h.marked (by decide) (by decide) (by decide)
  refine Draft.push_of_adds (n := 0) (a := []) rfl hsolid (Line.read_featureMark h.toTidy _) ?_
  have hadds : d.Adds 1 (.feature name) _ :=
    .feature (by rw [hd.forest]; rfl) (by rw [hd.forest]; rfl)
  rw [hd.forest] at hadds
  exact hadds

theorem Forest.grows_description (name : Text) {texts : List Text}
    (h : ∀ t ∈ texts, Text.Solid t ∧ Line.read t true = .text t) (before : List Text) :
    Forest.Grows ⟨some name, before, []⟩ (texts.map (indent ++ ·)) True
      ⟨some name, before ++ texts, []⟩ := by
  induction texts generalizing before with
  | nil => simpa using grows_nil _
  | cons t rest ih =>
    obtain ⟨⟨ht, hread⟩, hrest⟩ := List.forall_mem_cons.1 h
    have hline : Forest.Grows ⟨some name, before, []⟩ [indent ++ t] True
        ⟨some name, before ++ [t], []⟩ := by
      refine grows_of_push fun d hd =>
        ⟨⟨⟨some name, before ++ [t], []⟩, d.convention⟩, ?_, rfl, hd.convention⟩
      have hwelcome : d.welcomesText = true := by simp [Draft.welcomesText, hd.forest]
      refine Draft.push_of_adds (n := 1) rfl ht (by rw [hwelcome, hread]) ?_
      have hadds : d.Adds 2 (.text t) _ := .text
      rw [Draft.addText, hd.forest] at hadds
      exact hadds
    have hall := hline.append (ih hrest (before ++ [t]))
    rw [List.append_assoc, List.singleton_append] at hall
    exact hall.congr and_self_iff

section

variable (name : Option Text) (description : List Text) (before : List Scenario)

theorem Forest.grows_header {title : Text} (h : Text.Solid title) :
    Forest.Grows ⟨name, description, before⟩ [scenarioMark ++ title] True
      ⟨name, description, before ++ [⟨before.length, title, [], none, 1, false⟩]⟩ := by
  refine grows_of_push fun d hd => ⟨d.attach 1 title none, ?_, ?_, hd.convention⟩
  · have hsolid : Text.Solid (scenarioMark ++ title) :=
      h.marked (by decide) (by decide) (by decide)
    exact Draft.push_of_adds (n := 0) (a := []) rfl hsolid (Line.read_scenarioMark h.toTidy _)
      (.root (Nat.le_refl 1))
  · simp [Draft.attach, hd.forest, Scenario.named, h.trim_eq]

theorem Step.resolve_keyword (t : Step) (previous : Option StepKind) :
    (t.keyword (previous != some t.kind)).resolve previous = some t.kind := by
  by_cases h : previous = some t.kind
  · simp [keyword, h, Keyword.resolve, Keyword.kind?]
  · simp [keyword, h, Keyword.resolve, Keyword.kind?]

theorem Keyword.split_text (k : Keyword) : IndentedLine.split (k.text ++ [' ']) = ⟨0, k.text⟩ := by
  rcases k with (_ | _ | _) | _ | _ <;> rfl

theorem Forest.grows_step {s : Scenario} (hl : s.level = 1) {t : Step} (ht : t.Tidy) :
    Forest.Grows ⟨name, description, before ++ [s]⟩ [t.line (s.lastKind? != some t.kind)]
      (t.name ≠ []) ⟨name, description, before ++ [s.addStep ⟨t.name, t.kind, none, none⟩]⟩ := by
  by_cases hne : t.name = []
  · refine (grows_of_error _ fun d hd => ?_).congr (by simp [hne])
    have hwelcome : d.welcomesText = false := by simp [Draft.welcomesText, hd.forest]
    rw [Step.line, hne, Draft.push, Keyword.split_text]
    simp [IndentedLine.isBlank, Keyword.text_ne_nil, IndentedLine.level?, Draft.lineOf, hwelcome,
      Line.read_keyword, Draft.add]
  · refine (grows_of_push fun d hd => ?_).congr (by simp [hne])
    have hname : Text.Solid t.name := ⟨ht.name, hne⟩
    have hsolid : Text.Solid (t.line (s.lastKind? != some t.kind)) := by
      rw [Step.line, List.append_cons]
      refine hname.marked (by simp) ?_ ?_
      · rcases t.keyword _ with (_ | _ | _) | _ | _ <;> decide
      · rcases t.keyword _ with (_ | _ | _) | _ | _ <;> decide
    refine ⟨_, Draft.push_of_adds (n := 0) (a := []) rfl hsolid
      (Line.read_keyword_append _ hname ht.unmarked _)
      (.step (c := .sameAsScenario) (by rw [hd.forest]) (by simp [hl, StepIndentation.offset])
        hd.convention (t.resolve_keyword _)), ?_, .inr rfl⟩
    simp [hd.forest, StepLine.toStep, Step.named, hname.trim_eq]

theorem Forest.grows_row {s : Scenario} {t u : Step} {r : Row} (hr : r.Tidy) {widths : List Nat}
    (hw : widths.length = r.width) (h : t.AddsRow r.eraseComment u) :
    Forest.Grows ⟨name, description, before ++ [s.addStep t]⟩ [indent ++ r.fields widths] True
      ⟨name, description, before ++ [s.addStep u]⟩ := by
  refine grows_of_push fun d hd => ⟨_, Draft.push_of_adds (n := 1) rfl hr.solid_fields
    (Line.read_fields hr hw _) (.row (by rw [hd.forest]) rfl h), ?_, hd.convention⟩
  simp [hd.forest, Scenario.addStep]

theorem Forest.grows_rows {s : Scenario} {t : Step} {widths : List Nat} {rows : List Row}
    (hrows : ∀ r ∈ rows, r.Tidy ∧ widths.length = r.width) {u v : Table}
    (hheader : v.header = u.header) (hv : v.rows = u.rows ++ rows.map Row.eraseComment) :
    Forest.Grows ⟨name, description, before ++ [s.addStep (t.withTable u)]⟩
      (rows.map fun r => indent ++ r.fields widths) True
      ⟨name, description, before ++ [s.addStep (t.withTable v)]⟩ := by
  induction rows generalizing u with
  | nil =>
    have huv : u = v := Table.ext hheader.symm (by simpa using hv.symm)
    rw [huv]
    exact grows_nil _
  | cons r rest ih =>
    obtain ⟨⟨hr, hw⟩, hrest⟩ := List.forall_mem_cons.1 hrows
    have hwidth : r.eraseComment.width = u.width := by
      rw [Table.width, ← hheader]
      exact v.even _ (by simp [hv])
    obtain ⟨m, hm⟩ := Table.exists_push_iff.2 hwidth
    obtain ⟨-, hmheader, hmrows⟩ := Table.push_eq_ok_iff.1 hm
    have hdata : (t.withTable u).AddsRow r.eraseComment (t.withTable m) := .data rfl hm
    have hrow := grows_row name description before (s := s) hr hw hdata
    have hall := hrow.append (ih hrest (by rw [hheader, hmheader]) (by simp [hv, hmrows]))
    exact hall.congr and_self_iff

theorem Forest.grows_table {s : Scenario} {t : Step} (hnone : t.table = none) {table : Table}
    (h : ∀ r ∈ table.allRows, r.Tidy) :
    Forest.Grows ⟨name, description, before ++ [s.addStep t]⟩ (table.lines false) True
      ⟨name, description, before ++ [s.addStep (t.withTable table.eraseComments)]⟩ := by
  have hall : ∀ r ∈ table.allRows, r.Tidy ∧ table.columnWidths.length = r.width := fun r hr =>
    ⟨h r hr, by rw [Table.length_columnWidths, Table.width_of_mem hr]⟩
  obtain ⟨⟨hr, hw⟩, hrows⟩ := List.forall_mem_cons.1 hall
  rw [Table.lines_false]
  have hheader := grows_row name description before (s := s) hr hw (.header hnone)
  have hdata := grows_rows name description before (s := s) (t := t)
    (u := Table.ofHeader table.header.eraseComment) (v := table.eraseComments) hrows rfl rfl
  exact (hheader.append hdata).congr and_self_iff

theorem Forest.grows_stepTable {s : Scenario} {t : Step} (ht : t.Tidy) :
    Forest.Grows ⟨name, description, before ++ [s.addStep ⟨t.name, t.kind, none, none⟩]⟩
      (t.table.elim [] (·.lines false)) True
      ⟨name, description, before ++ [s.addStep t.eraseComments]⟩ := by
  cases htable : t.table with
  | none =>
    have herase : t.eraseComments = ⟨t.name, t.kind, none, none⟩ := by
      simp [Step.eraseComments, htable]
    rw [herase]
    exact grows_nil _
  | some table =>
    have herase : t.eraseComments =
        (⟨t.name, t.kind, none, none⟩ : Step).withTable table.eraseComments := by
      simp [Step.eraseComments, htable, Step.withTable]
    rw [herase]
    exact grows_table name description before rfl (ht.table table htable)

theorem Forest.grows_stepLines {s : Scenario} (hl : s.level = 1) {steps : List Step}
    (h : ∀ t ∈ steps, t.Tidy) :
    Forest.Grows ⟨name, description, before ++ [s]⟩ (stepLines false s.lastKind? steps)
      (∀ t ∈ steps, t.name ≠ [])
      ⟨name, description,
        before ++ [{ s with steps := s.steps ++ steps.map Step.eraseComments }]⟩ := by
  -- The scenario read so far tells the kind that a conjunction goes on with.
  induction steps generalizing s with
  | nil =>
    rw [List.map_nil, List.append_nil]
    exact (grows_nil _).congr (by simp)
  | cons t rest ih =>
    obtain ⟨ht, hrest⟩ := List.forall_mem_cons.1 h
    have hline := grows_step name description before hl ht
    have hstep := hline.append (grows_stepTable name description before ht)
    have hlast : (s.addStep t.eraseComments).lastKind? = some t.kind := by
      simp [Scenario.lastKind?, Scenario.addStep, Step.eraseComments]
    have hnext := ih (s := s.addStep t.eraseComments) hl hrest
    rw [hlast] at hnext
    have hall := hstep.append hnext
    simp only [Scenario.addStep, List.append_assoc, List.singleton_append] at hall
    refine hall.congr ?_
    simp

end

def FlatScenario.toRoot (s : FlatScenario) (id : Nat) : Scenario :=
  ⟨id, s.name, s.steps.map Step.eraseComments, none, 1, false⟩

def Forest.ofFlat (name : Option Text) (description : List Text) (flat : List FlatScenario) :
    Forest := ⟨name, description, flat.mapIdx fun i s => s.toRoot i⟩

theorem Forest.grows_flatScenario {name : Option Text} {description : List Text}
    (done : List FlatScenario) {s : FlatScenario} (h : s.Tidy) :
    (Forest.ofFlat name description done).Grows (s.lines false) (∀ t ∈ s.steps, t.name ≠ [])
      (Forest.ofFlat name description (done ++ [s])) := by
  have hheader := grows_header name description (done.mapIdx fun i s => s.toRoot i) h.name
  have hsteps := grows_stepLines name description (done.mapIdx fun i s => s.toRoot i)
    (s := ⟨done.length, s.name, [], none, 1, false⟩) rfl h.steps
  rw [List.length_mapIdx] at hheader
  have hall := (hheader.append hsteps).append (grows_blank _)
  rw [List.nil_append] at hall
  rw [ofFlat, ofFlat, List.mapIdx_concat]
  exact hall.congr (by simp)

theorem Forest.grows_flat {name : Option Text} {description : List Text}
    {flat : List FlatScenario} (h : ∀ s ∈ flat, s.Tidy) (done : List FlatScenario) :
    (Forest.ofFlat name description done).Grows (flat.flatMap (·.lines false))
      (∀ s ∈ flat, ∀ t ∈ s.steps, t.name ≠ [])
      (Forest.ofFlat name description (done ++ flat)) := by
  induction flat generalizing done with
  | nil => simpa using (grows_nil _).congr (by simp)
  | cons s rest ih =>
    obtain ⟨hs, hrest⟩ := List.forall_mem_cons.1 h
    have hall := (grows_flatScenario done hs).append (ih hrest (done ++ [s]))
    rw [List.append_assoc, List.singleton_append] at hall
    exact hall.congr (by simp)

theorem Forest.Tidy.grows_documentLines {f : Forest} (h : f.Tidy) {flat : List FlatScenario}
    (hflat : ∀ s ∈ flat, s.Tidy) :
    Forest.empty.Grows (documentLines f.name f.description flat false)
      (∀ s ∈ flat, ∀ t ∈ s.steps, t.name ≠ []) (Forest.ofFlat f.name f.description flat) := by
  have hfeature : Forest.empty.Grows (f.name.elim [] (featureLines · f.description)) True
      (Forest.ofFlat f.name f.description []) := by
    cases hn : f.name with
    | none =>
      rw [h.described hn]
      exact grows_nil _
    | some name =>
      have hmark := grows_feature (h.name name hn)
      have htexts := grows_description name h.description []
      have hall := ((hmark.append (grows_blank _)).append htexts).congr (Q := True) (by simp)
      cases hd : f.description with
      | nil =>
        rw [hd] at hall
        exact hall
      | cons t rest =>
        rw [hd] at hall
        exact (hall.append (grows_blank _)).congr and_self_iff
  exact (hfeature.append (grows_flat hflat [])).congr (by simp)

theorem Draft.start_holds : (Draft.start {}).Holds Forest.empty := ⟨rfl, .inl rfl⟩

theorem Forest.Tidy.parse_documentLines {f : Forest} (h : f.Tidy) {flat : List FlatScenario}
    (hflat : ∀ s ∈ flat, s.Tidy) :
    let written := Text.unlines (documentLines f.name f.description flat false)
    ((∃ g, Forest.parse {} written = .ok g) ↔ ∀ s ∈ flat, ∀ t ∈ s.steps, t.name ≠ []) ∧
      ∀ g, Forest.parse {} written = .ok g → g = Forest.ofFlat f.name f.description flat := by
  obtain ⟨hiff, hresult⟩ := h.grows_documentLines hflat _ Draft.start_holds
  simp only [parse_eq_ok_iff, h.lines_unlines hflat false]
  constructor
  · rw [← hiff]
    constructor
    · rintro ⟨-, e, he, -⟩
      exact ⟨e, he⟩
    · rintro ⟨e, he⟩
      exact ⟨_, e, he, rfl⟩
  · rintro g ⟨e, he, rfl⟩
    exact (hresult e he).forest

theorem Forest.scenarios_ofFlat {name : Option Text} {description : List Text}
    {flat : List FlatScenario} {s : Scenario}
    (h : s ∈ (Forest.ofFlat name description flat).scenarios) :
    ∃ i, ∃ u ∈ flat, s = u.toRoot i := by
  obtain ⟨i, hi, rfl⟩ := List.mem_mapIdx.1 h
  exact ⟨i, flat[i], List.getElem_mem hi, rfl⟩

theorem Forest.children_ofFlat (name : Option Text) (description : List Text)
    (flat : List FlatScenario) (id : Nat) :
    (Forest.ofFlat name description flat).children id = [] := by
  rw [children, List.filter_eq_nil_iff]
  intro s hs
  obtain ⟨i, u, -, rfl⟩ := scenarios_ofFlat hs
  simp [FlatScenario.toRoot]

/-- The flat document of a forest, written without comments, is read back unless some step in it
says nothing. It gives the feature as it was, and for each flat scenario a root of its own with
the same name and steps. -/
theorem parse_render {o : ParseOptions} {t : Text} {f : Forest} (h : Forest.parse o t = .ok f)
    (m : FlattenMode) :
    ((∃ g, Forest.parse {} (f.render ⟨m, false⟩).1 = .ok g) ↔
      ∀ s ∈ (f.flatten m).1, ∀ step ∈ s.steps, step.name ≠ []) ∧
    ∀ g, Forest.parse {} (f.render ⟨m, false⟩).1 = .ok g →
      g.name = f.name ∧ g.description = f.description ∧
      g.scenarios.map (fun s => (s.name, s.steps)) =
        (f.flatten m).1.map (fun s => (s.name, s.steps.map Step.eraseComments)) ∧
      ∀ s ∈ g.scenarios, s.level = 1 ∧ s.parent = none ∧ g.children s.id = [] ∧
        s.validated = false := by
  have htidy := Forest.tidy_of_parse h
  have hflat := htidy.flatten (Forest.shaped_of_parse h) m
  obtain ⟨hiff, hresult⟩ := htidy.parse_documentLines hflat
  refine ⟨hiff, fun g hg => ?_⟩
  rw [hresult g hg]
  refine ⟨rfl, rfl, ?_, fun s hs => ?_⟩
  · exact List.ext_getElem (by simp [Forest.ofFlat]) fun i hi hi' => by
      simp [Forest.ofFlat, FlatScenario.toRoot]
  · obtain ⟨i, u, -, rfl⟩ := Forest.scenarios_ofFlat hs
    exact ⟨rfl, rfl, Forest.children_ofFlat _ _ _ _, rfl⟩

def commentedDocument : Text :=
  "Feature: F\n\n    on G\n\nScenario: A\n    Given x # c\n    | k | long |\n    | 1 | 2 | # r\n    Scenario: B\n        Then y".toList

theorem parse_render_commented : ∃ f g, Forest.parse {} commentedDocument = .ok f ∧
    Forest.parse {} (f.render ⟨.relaxed, false⟩).1 = .ok g ∧
    g.name = some ['F'] ∧ g.scenarios.length = 1 := by
  have hread : (Forest.parse {} commentedDocument).toOption.map (fun f =>
      (f.name, f.leaves.length, f.scenarios.all (·.steps.all (·.name != [])))) =
      some (some ['F'], 1, true) := by
    decide +kernel
  obtain ⟨f, hf, hfound⟩ := Forest.exists_parse_of_map hread
  simp only [Prod.mk.injEq] at hfound
  obtain ⟨hname, hleaves, hsteps⟩ := hfound
  have hshaped := Forest.shaped_of_parse hf
  obtain ⟨hiff, hresult⟩ := parse_render hf .relaxed
  obtain ⟨g, hg⟩ := hiff.2 fun s hs t ht => by
    obtain ⟨p, hp, ht⟩ := hshaped.exists_scenario_of_mem_flatten hs ht
    simpa using List.all_eq_true.1 (List.all_eq_true.1 hsteps p hp) t ht
  obtain ⟨hgname, -, hscenarios, -⟩ := hresult g hg
  refine ⟨f, g, hf, hg, hgname.trans hname, ?_⟩
  have hlen := congrArg List.length hscenarios
  simpa [hshaped.flatten_relaxed, hleaves] using hlen

end ScenarioForest
