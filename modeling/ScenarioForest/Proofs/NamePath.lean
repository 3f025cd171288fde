import ScenarioForest.Proofs.Preorder
set_option autoImplicit false

/-!
Name paths. The search for a scenario by the names along its path takes the first scenario of each
name and never goes back. So it finds a scenario exactly when everything on the path to it comes
first among its namesakes, and it misses what stands only below a later namesake.
-/

namespace ScenarioForest

def Forest.namePath (f : Forest) (s : Scenario) : List Text := (f.path s.id).map (·.name)

/-- No scenario with the same parent and the same name comes before this one. -/
def Forest.IsFirstNamed (f : Forest) (s : Scenario) : Prop :=
  ∀ q ∈ f.scenarios, q.parent = s.parent → q.name = s.name → s.id ≤ q.id

/-- The search for a name path finds a scenario with this path if there is one, and nothing
otherwise. -/
structure Forest.Resolves (f : Forest) (names : List Text) : Prop where
  found : (∃ s ∈ f.scenarios, f.namePath s = names) →
    ∃ s, f.find? names = some s ∧ f.namePath s = names
  absent : (∀ s ∈ f.scenarios, f.namePath s ≠ names) → f.find? names = none

theorem Forest.roots_eq (f : Forest) : f.roots = f.scenarios.filter (·.parent == none) :=
  List.filter_congr fun s _ => by cases hp : s.parent <;> simp [Scenario.isRoot, hp]

theorem Forest.descend?_append (f : Forest) (s : Scenario) (first second : List Text) :
    f.descend? s (first ++ second) = (f.descend? s first).bind (f.descend? · second) := by
  induction first generalizing s with
  | nil => rfl
  | cons name names ih =>
    rw [List.cons_append, descend?, descend?]
    cases (f.children s.id).find? (·.name == name) with
    | none => rfl
    | some child => exact ih child

theorem Forest.descend?_singleton (f : Forest) (s : Scenario) (name : Text) :
    f.descend? s [name] = (f.children s.id).find? (·.name == name) := by
  rw [descend?]
  cases (f.children s.id).find? (·.name == name) <;> rfl

theorem Forest.find?_singleton (f : Forest) (name : Text) :
    f.find? [name] = f.roots.find? (·.name == name) := by
  rw [find?]
  cases f.roots.find? (·.name == name) <;> rfl

theorem Forest.find?_concat (f : Forest) {names : List Text} (hne : names ≠ []) (name : Text) :
    f.find? (names ++ [name]) =
      (f.find? names).bind fun s => (f.children s.id).find? (·.name == name) := by
  cases names with
  | nil => exact absurd rfl hne
  | cons first rest =>
    simp only [List.cons_append, find?, descend?_append, descend?_singleton, Option.bind_assoc]

section

variable {f : Forest} (h : f.Shaped) {s : Scenario}

include h

theorem Forest.Shaped.find?_filter_parent {parent : Option Nat} {name : Text} :
    (f.scenarios.filter (·.parent == parent)).find? (·.name == name) = some s ↔
      s ∈ f.scenarios ∧ s.parent = parent ∧ s.name = name ∧ f.IsFirstNamed s := by
  have hpair := h.pairwise_filter (·.parent == parent)
  rw [List.find?_eq_some_iff_append]
  constructor
  · intro hfind
    obtain ⟨hname, before, after, hsplit, hbefore⟩ := hfind
    have hmem : s ∈ f.scenarios.filter (·.parent == parent) := by simp [hsplit]
    rw [List.mem_filter, beq_iff_eq] at hmem
    rw [beq_iff_eq] at hname
    refine ⟨hmem.1, hmem.2, hname, fun q hq hparent hqname => ?_⟩
    have hin : q ∈ before ++ s :: after := by
      rw [← hsplit, List.mem_filter, beq_iff_eq]
      exact ⟨hq, hparent.trans hmem.2⟩
    rcases List.mem_append.1 hin with hin | hin
    · have := hbefore q hin
      simp [hqname, hname] at this
    · rw [hsplit, List.pairwise_append, List.pairwise_cons] at hpair
      rcases List.mem_cons.1 hin with rfl | hin
      · exact Nat.le_refl _
      · exact Nat.le_of_lt (hpair.2.1.1 q hin)
  · intro hs
    obtain ⟨hmem, hparent, hname, hfirst⟩ := hs
    have hin : s ∈ f.scenarios.filter (·.parent == parent) := by simp [hmem, hparent]
    obtain ⟨before, after, hsplit⟩ := List.append_of_mem hin
    refine ⟨by simpa using hname, before, after, hsplit, fun q hq => ?_⟩
    have hqin : q ∈ f.scenarios.filter (·.parent == parent) := by simp [hsplit, hq]
    rw [List.mem_filter, beq_iff_eq] at hqin
    rw [hsplit, List.pairwise_append] at hpair
    have hlt := hpair.2.2 q hq s (by simp)
    rw [Bool.not_eq_true', beq_eq_false_iff_ne]
    intro hqname
    have := hfirst q hqin.1 (hqin.2.trans hparent.symm) (hqname.trans hname.symm)
    omega

theorem Forest.Shaped.exists_parent (hs : s ∈ f.scenarios) {p : Nat} (hp : s.parent = some p) :
    ∃ q ∈ f.scenarios, q.id = p ∧ f.path s.id = f.path q.id ++ [s] ∧
      f.namePath s = f.namePath q ++ [s.name] := by
  have hget := h.scenario?_id hs
  obtain ⟨q, hq, -⟩ := h.child s.id s p hget hp
  have hid := h.id_eq p q hq
  have hpath := h.path_of_child hget hp
  rw [← hid] at hpath
  exact ⟨q, List.mem_of_getElem? hq, hid, hpath, by simp [namePath, hpath]⟩

theorem Forest.Shaped.namePath_of_root (hs : s ∈ f.scenarios) (hp : s.parent = none) :
    f.namePath s = [s.name] := by
  rw [namePath, path_of_root (h.scenario?_id hs) hp, List.map_singleton]

theorem Forest.Shaped.namePath_ne_nil (hs : s ∈ f.scenarios) : f.namePath s ≠ [] := by
  rw [namePath, path_eq_concat (h.scenario?_id hs)]
  simp

theorem Forest.Shaped.find?_singleton_eq_some_iff {name : Text} : f.find? [name] = some s ↔
    s ∈ f.scenarios ∧ f.namePath s = [name] ∧ ∀ p ∈ f.path s.id, f.IsFirstNamed p := by
  rw [find?_singleton, roots_eq, h.find?_filter_parent]
  refine and_congr_right fun hs => ?_
  cases hp : s.parent with
  | none => simp [h.namePath_of_root hs hp, path_of_root (h.scenario?_id hs) hp]
  | some p =>
    obtain ⟨q, hq, -, -, hnames⟩ := h.exists_parent hs hp
    have hne := h.namePath_ne_nil hq
    have hlong : f.namePath s ≠ [name] := by
      rw [hnames]
      intro hone
      have hone : f.namePath q ++ [s.name] = [] ++ [name] := hone
      exact hne (List.append_inj' hone rfl).1
    simp [hlong]

/-- The search finds a scenario exactly when its name path is the one asked for and all of its path
comes first among the namesakes. -/
theorem Forest.Shaped.find?_eq_some_iff {names : List Text} : f.find? names = some s ↔
    s ∈ f.scenarios ∧ f.namePath s = names ∧ ∀ p ∈ f.path s.id, f.IsFirstNamed p := by
  induction names using List.reverseRecOn generalizing s with
  | nil =>
    refine iff_of_false (by simp [find?]) fun hs => ?_
    exact h.namePath_ne_nil hs.1 hs.2.1
  | append_singleton names name ih =>
    by_cases hnames : names = []
    · subst hnames
      exact h.find?_singleton_eq_some_iff
    rw [f.find?_concat hnames, Option.bind_eq_some_iff]
    simp only [ih, children, h.find?_filter_parent]
    constructor
    · intro hstep
      obtain ⟨p, ⟨-, hnp, hfirst⟩, hs, hparent, hname, hown⟩ := hstep
      have hpath := h.path_of_child (h.scenario?_id hs) hparent
      refine ⟨hs, ?_, ?_⟩
      · rw [namePath, hpath, List.map_append, ← namePath, hnp, ← hname, List.map_singleton]
      · rw [hpath, List.forall_mem_append]
        exact ⟨hfirst, by simpa using hown⟩
    · intro hfound
      obtain ⟨hs, hnp, hfirst⟩ := hfound
      cases hp : s.parent with
      | none =>
        rw [h.namePath_of_root hs hp] at hnp
        have hnp : [] ++ [s.name] = names ++ [name] := hnp
        exact absurd (List.append_inj' hnp rfl).1.symm hnames
      | some p =>
        obtain ⟨q, hq, rfl, hpath, hsnames⟩ := h.exists_parent hs hp
        rw [hsnames] at hnp
        obtain ⟨hqnames, hname⟩ := List.append_inj' hnp rfl
        rw [hpath, List.forall_mem_append] at hfirst
        exact ⟨q, ⟨hq, hqnames, hfirst.1⟩, hs, rfl, by simpa using hname, hfirst.2 s (by simp)⟩

theorem Forest.Shaped.resolves_iff {names : List Text} : f.Resolves names ↔
    ((∃ s ∈ f.scenarios, f.namePath s = names) → ∃ s ∈ f.scenarios,
      f.namePath s = names ∧ ∀ p ∈ f.path s.id, f.IsFirstNamed p) := by
  constructor
  · intro hresolves hex
    obtain ⟨s, hs, -⟩ := hresolves.found hex
    exact ⟨s, h.find?_eq_some_iff.1 hs⟩
  · intro hfirst
    refine ⟨fun hex => ?_, fun hno => ?_⟩
    · obtain ⟨s, hs, hnames, hall⟩ := hfirst hex
      exact ⟨s, h.find?_eq_some_iff.2 ⟨hs, hnames, hall⟩, hnames⟩
    · rw [Option.eq_none_iff_forall_not_mem]
      intro s hs
      obtain ⟨hmem, hnames, -⟩ := h.find?_eq_some_iff.1 hs
      exact hno s hmem hnames

end

/-- The search for a name path finds just the scenario with this path all of whose path comes first
among its namesakes. So a name path resolves exactly when it leads to such a scenario or to none at
all, and every name path resolves if no two scenarios with the same parent have the same name. -/
theorem resolves_iff_first_named {o : ParseOptions} {t : Text} {f : Forest}
    (h : Forest.parse o t = .ok f) (names : List Text) :
    (∀ s, f.find? names = some s ↔ s ∈ f.scenarios ∧ f.namePath s = names ∧
      ∀ p ∈ f.path s.id, f.IsFirstNamed p) ∧
    (f.Resolves names ↔ ((∃ s ∈ f.scenarios, f.namePath s = names) → ∃ s ∈ f.scenarios,
      f.namePath s = names ∧ ∀ p ∈ f.path s.id, f.IsFirstNamed p)) ∧
    ((∀ s ∈ f.scenarios, f.IsFirstNamed s) → f.Resolves names) := by
  have hshaped := Forest.shaped_of_parse h
  refine ⟨fun s => hshaped.find?_eq_some_iff, hshaped.resolves_iff, fun hfirst => ?_⟩
  refine hshaped.resolves_iff.2 fun hex => ?_
  obtain ⟨s, hs, hnames⟩ := hex
  obtain ⟨hpath, -⟩ := hshaped.path_spec (hshaped.scenario?_id hs)
  exact ⟨s, hs, hnames, fun p hp => hfirst p (hpath p hp).1⟩

theorem resolves_iff_first_named_stepped : ∃ f, Forest.parse {} steppedDocument = .ok f ∧
    ∃ s, f.find? [['B'], ['E']] = some s ∧ f.namePath s = [['B'], ['E']] := by
  have hread : (Forest.parse {} steppedDocument).toOption.map (fun f =>
      (f.scenarios.map f.namePath, decide (∀ s ∈ f.scenarios, ∀ q ∈ f.scenarios,
        q.parent = s.parent → q.name = s.name → s.id ≤ q.id))) =
      some ([[['A']], [['B']], [['B'], ['C']], [['B'], ['C'], ['D']], [['B'], ['E']]], true) := by
    decide +kernel
  obtain ⟨f, hf, hfound⟩ := Forest.exists_parse_of_map hread
  obtain ⟨hnames, hfirst⟩ := Prod.mk.inj hfound
  obtain ⟨-, -, hresolves⟩ := resolves_iff_first_named hf [['B'], ['E']]
  refine ⟨f, hf, (hresolves fun s hs => of_decide_eq_true hfirst s hs).found ?_⟩
  rw [← List.mem_map, hnames]
  decide

def namesakeDocument : Text := "Scenario: A\nScenario: A\n    Scenario: B".toList

theorem not_resolves_namesake : ∃ f, Forest.parse {} namesakeDocument = .ok f ∧
    (∃ s ∈ f.scenarios, f.namePath s = [['A'], ['B']]) ∧ f.find? [['A'], ['B']] = none ∧
      ¬ f.Resolves [['A'], ['B']] := by
  have hread : (Forest.parse {} namesakeDocument).toOption.map (fun f =>
      (f.scenarios.map f.namePath, f.find? [['A'], ['B']])) =
      some ([[['A']], [['A']], [['A'], ['B']]], none) := by
    decide +kernel
  obtain ⟨f, hf, hfound⟩ := Forest.exists_parse_of_map hread
  obtain ⟨hnames, hnone⟩ := Prod.mk.inj hfound
  have hex : ∃ s ∈ f.scenarios, f.namePath s = [['A'], ['B']] := by
    rw [← List.mem_map, hnames]
    decide
  refine ⟨f, hf, hex, hnone, fun hresolves => ?_⟩
  obtain ⟨s, hs, -⟩ := hresolves.found hex
  rw [hnone] at hs
  cases hs

end ScenarioForest
