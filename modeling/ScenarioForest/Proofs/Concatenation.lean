import ScenarioForest.Proofs.Acceptance
import ScenarioForest.Proofs.Append
import ScenarioForest.Proofs.Visible
set_option autoImplicit false

/-!
One document after another. Under a fixed place for the steps, a document without a feature is read
after another document just as it is read alone.
-/

namespace ScenarioForest

/-- A draft with the scenarios of a forest put before its own, under the feature of that forest. -/
def Draft.behind (d : Draft) (k : Forest) : Draft := ⟨k.append d.forest, d.convention⟩

section

variable {k : Forest} {d e : Draft}

theorem Draft.behind_attach (level : Nat) (name : Text) (parent : Option Nat) :
    (d.attach level name parent).behind k =
      (d.behind k).attach level name (parent.map (· + k.scenarios.length)) := by
  simp [behind, attach, Forest.append, Scenario.named, Scenario.shift, Nat.add_comm]

/-- What a line does to a draft it does behind other scenarios too, unless it tells of a feature. -/
theorem Draft.Adds.behind {level : Nat} {line : Line} (h : d.Adds level line e) (hk : k.Shaped)
    (hd : d.forest.Shaped) (hfeature : line.isFeature = false) (htext : line.isText = false) :
    (d.behind k).Adds level line (e.behind k) := by
  cases h with
  | feature => cases hfeature
  | text => cases htext
  | root hl =>
    rw [behind_attach]
    exact .root hl
  | child hl hp =>
    rw [behind_attach]
    have hopen : (d.behind k).forest.openAt? (level - 1) = some _ := hk.openAt?_append hd hp
    exact .child hl hopen
  | @step l before s c kind hs hl hc hkind =>
    have hadds : (d.behind k).Adds level (.step l) _ :=
      .step (k.append_concat hs) hl hc hkind
    simpa [Draft.behind, Forest.append, Scenario.shift, Scenario.addStep] using hadds
  | @row r before s steps step next hs hsteps hnext =>
    have hadds : (d.behind k).Adds level (.row r) _ :=
      .row (k.append_concat hs) hsteps hnext
    simpa [Draft.behind, Forest.append, Scenario.shift] using hadds

theorem Draft.Adds.unnamed {level : Nat} {line : Line} (h : d.Adds level line e)
    (hname : e.forest.name = none) : d.forest.name = none ∧ line.isFeature = false := by
  cases h with
  | feature => cases hname
  | text => exact ⟨hname, rfl⟩
  | root => exact ⟨hname, rfl⟩
  | child => exact ⟨hname, rfl⟩
  | step => exact ⟨hname, rfl⟩
  | row => exact ⟨hname, rfl⟩

theorem Draft.Adds.convention {level : Nat} {line : Line} (h : d.Adds level line e)
    {c : StepIndentation} (hc : d.convention = some c) : e.convention = some c := by
  cases h with
  | feature => exact hc
  | text => exact hc
  | root => exact hc
  | child => exact hc
  | step _ _ hfound =>
    rw [hc] at hfound
    simpa [eq_comm] using hfound
  | row => exact hc

theorem Draft.shaped_of_take {l : IndentedLine} (h : d.take l = .ok e) (hd : d.forest.Shaped) :
    e.forest.Shaped := by
  obtain ⟨level, hl, hadds⟩ := take_eq_ok_iff.1 h
  exact hadds.shaped (IndentedLine.level?_eq_some_iff.1 hl).1 hd

theorem Draft.unnamed_of_takeAll {lines : List IndentedLine} (h : d.takeAll lines = .ok e)
    (hname : e.forest.name = none) : d.forest.name = none := by
  by_contra hd
  refine takeAll_induction (P := fun d => d.forest.name ≠ none) ?_ h hd hname
  intro d e l hd htake he
  obtain ⟨level, -, hadds⟩ := take_eq_ok_iff.1 htake
  exact hd (hadds.unnamed he).1

theorem Draft.take_behind {l : IndentedLine} (h : d.take l = .ok e) (hk : k.Shaped)
    (hd : d.forest.Shaped) (hname : e.forest.name = none) :
    (d.behind k).take l = .ok (e.behind k) := by
  obtain ⟨level, hl, hadds⟩ := take_eq_ok_iff.1 h
  obtain ⟨hadds, hwelcome⟩ := adds_lineOf_iff.1 hadds
  obtain ⟨hdname, hfeature⟩ := hadds.unnamed hname
  have htext : l.line.isText = false := by
    by_contra ht
    have hw := hwelcome (by simpa using ht)
    simp [welcomesText, hdname] at hw
  refine take_eq_ok_iff.2 ⟨level, hl, adds_lineOf_iff.2 ⟨hadds.behind hk hd hfeature htext, ?_⟩⟩
  simp [htext]

theorem Draft.takeAll_behind {lines : List IndentedLine} (h : d.takeAll lines = .ok e)
    (hk : k.Shaped) (hd : d.forest.Shaped) (hname : e.forest.name = none) :
    (d.behind k).takeAll lines = .ok (e.behind k) := by
  induction lines generalizing d with
  | nil =>
    cases h
    rfl
  | cons l rest ih =>
    obtain ⟨m, hm, hrest⟩ := takeAll_cons_eq_ok_iff.1 h
    have hmname := unnamed_of_takeAll hrest hname
    exact takeAll_cons_eq_ok_iff.2 ⟨m.behind k, take_behind hm hk hd hmname,
      ih hrest (shaped_of_take hm hd)⟩

theorem Draft.start_behind {c : StepIndentation} (hc : d.convention = some c) :
    (Draft.start ⟨some c⟩).behind d.forest = d := by
  cases d with
  | mk forest convention =>
    cases hc
    simp [behind, start, Forest.append, Forest.empty]

end

/-- Two documents that put their steps at the same fixed place, the second without a feature, make
one document when they are put one after the other. Its forest has the feature of the first and the
scenarios of both, and it is flattened and written as the first and then as the second. -/
theorem parse_append {c : StepIndentation} {t u : Text} {f g : Forest}
    (hf : Forest.parse ⟨some c⟩ t = .ok f) (hg : Forest.parse ⟨some c⟩ u = .ok g)
    (hname : g.name = none) :
    Forest.parse ⟨some c⟩ (t ++ '\n' :: u) = .ok (f.append g) ∧
    (∀ mode, ((f.append g).flatten mode).1 = (f.flatten mode).1 ++ (g.flatten mode).1) ∧
    ∀ o : FlattenOptions, ((f.append g).render o).1 = (f.render o).1 ++ (g.render o).1 := by
  have hfshaped := Forest.shaped_of_parse hf
  have hgshaped := Forest.shaped_of_parse hg
  refine ⟨?_, hfshaped.flatten_append hgshaped, hfshaped.render_append hgshaped hname⟩
  obtain ⟨d, hd, rfl⟩ := Forest.parse_eq_ok_iff_takeAll.1 hf
  obtain ⟨e, he, rfl⟩ := Forest.parse_eq_ok_iff_takeAll.1 hg
  have hc : d.convention = some c := by
    refine Draft.takeAll_induction (P := fun d => d.convention = some c) ?_ hd rfl
    intro d e l hd htake
    obtain ⟨level, -, hadds⟩ := Draft.take_eq_ok_iff.1 htake
    exact hadds.convention hd
  have hbehind := Draft.takeAll_behind he hfshaped Forest.shaped_empty hname
  rw [Draft.start_behind hc] at hbehind
  refine Forest.parse_eq_ok_iff_takeAll.2 ⟨e.behind d.forest, ?_, rfl⟩
  rw [visibleLines_lines_append]
  exact Draft.takeAll_append_eq_ok_iff.2 ⟨d, hd, hbehind⟩

def describedDocument : Text := "Feature: F\n\n    on G\nScenario: A\nThen a".toList

def continuedDocument : Text :=
  "Scenario: B\nGiven b\nThen c\n\n    Scenario: C\n    Then d".toList

theorem parse_append_described : ∃ f g,
    Forest.parse ⟨some .sameAsScenario⟩ describedDocument = .ok f ∧
    Forest.parse ⟨some .sameAsScenario⟩ continuedDocument = .ok g ∧
    Forest.parse ⟨some .sameAsScenario⟩ (describedDocument ++ '\n' :: continuedDocument) =
      .ok (f.append g) ∧
    (f.append g).name = some ['F'] ∧
    (f.append g).scenarios.map (fun s => (s.id, s.parent)) =
      [(0, none), (1, none), (2, some 1)] ∧
    ((f.append g).flatten .relaxed).1 = (f.flatten .relaxed).1 ++ (g.flatten .relaxed).1 := by
  have hread : (Forest.parse ⟨some .sameAsScenario⟩ describedDocument).toOption.map
      (fun f => (f.name, f.scenarios.map fun s => (s.id, s.parent))) =
        some (some ['F'], [(0, none)]) := by
    decide +kernel
  have hnext : (Forest.parse ⟨some .sameAsScenario⟩ continuedDocument).toOption.map
      (fun g => (g.name, g.scenarios.map fun s => (s.id, s.parent))) =
        some (none, [(0, none), (1, some 0)]) := by
    decide +kernel
  obtain ⟨f, hf, hfirst⟩ := Forest.exists_parse_of_map hread
  obtain ⟨g, hg, hsecond⟩ := Forest.exists_parse_of_map hnext
  obtain ⟨hfname, hfplaces⟩ := Prod.mk.inj hfirst
  obtain ⟨hgname, hgplaces⟩ := Prod.mk.inj hsecond
  obtain ⟨hparse, hflatten, -⟩ := parse_append hf hg hgname
  have hplaces : (f.append g).scenarios.map (fun s => (s.id, s.parent)) =
      f.scenarios.map (fun s => (s.id, s.parent)) ++
        (g.scenarios.map fun s => (s.id, s.parent)).map fun place =>
          (place.1 + f.scenarios.length, place.2.map (· + f.scenarios.length)) := by
    simp [Forest.append, Scenario.shift]
  have hcount : f.scenarios.length = 1 := by simpa using congrArg List.length hfplaces
  refine ⟨f, g, hf, hg, hparse, hfname, ?_, hflatten .relaxed⟩
  rw [hplaces, hfplaces, hgplaces, hcount]
  rfl

end ScenarioForest
