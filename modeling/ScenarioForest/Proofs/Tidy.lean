import ScenarioForest.Proofs.FirstVisit
set_option autoImplicit false

/-!
What is kept of a document is tidy, whatever the document looks like: every text is a trimmed part
of a line, and no step says anything that could be taken for a comment.
-/

namespace ScenarioForest

structure Step.Tidy (s : Step) : Prop where
  name : Text.Tidy s.name
  unmarked : Text.Unmarked s.name
  comment : ∀ k ∈ s.comment, Text.Solid k
  table : ∀ t ∈ s.table, ∀ r ∈ t.allRows, r.Tidy

structure Scenario.Tidy (s : Scenario) : Prop where
  name : Text.Solid s.name
  steps : ∀ t ∈ s.steps, t.Tidy

/-- Free text would be taken for free text again, and there is none without a feature. -/
structure Forest.Tidy (f : Forest) : Prop where
  name : ∀ n ∈ f.name, Text.Solid n
  description : ∀ t ∈ f.description, Text.Solid t ∧ Line.read t true = .text t
  described : f.name = none → f.description = []
  scenarios : ∀ s ∈ f.scenarios, s.Tidy

structure FlatScenario.Tidy (s : FlatScenario) : Prop where
  name : Text.Solid s.name
  steps : ∀ t ∈ s.steps, t.Tidy

theorem Forest.tidy_empty : Forest.empty.Tidy where
  name := by simp [empty]
  description := by simp [empty]
  described _ := rfl
  scenarios := by simp [empty]

def Line.Tidy : Line → Prop
  | .feature name => Text.Solid name
  | .scenario name => Text.Solid name
  | .step l => ∀ kind, (l.toStep kind).Tidy
  | .row r => r.Tidy
  | .text t => Text.Solid t ∧ Line.read t true = .text t
  | .unrecognized _ => True

theorem StepLine.tidy_toStep {t : Text} {l : StepLine} (ht : Text.Trimmed t)
    (h : StepLine.read? t = some l) (kind : StepKind) : (l.toStep kind).Tidy where
  name := by
    have htext := StepLine.tidy_text h
    simpa [toStep, Step.named, htext.trim_eq] using htext
  unmarked := by
    have htext := StepLine.tidy_text h
    simpa [toStep, Step.named, htext.trim_eq] using StepLine.unmarked_text h
  comment k hk := StepLine.tidy_comment ht h hk
  table t ht := by simp [toStep, Step.named] at ht

theorem Line.tidy_read {content : Text} (h : Text.Solid content) (w : Bool) :
    (Line.read content w).Tidy := by
  unfold read
  split
  · next name hf => exact header?_tidy (by decide) h.toTidy hf
  · next hf =>
    split
    · next name hs => exact header?_tidy (by decide) h.toTidy hs
    · next hs =>
      split
      · next l hl => exact StepLine.tidy_toStep h.toTrimmed hl
      · next hl =>
        split
        · next r hr => exact Row.tidy_of_read? h.toTidy hr
        · next hr =>
          cases w with
          | false => trivial
          | true => exact ⟨h, by simp [read, hf, hs, hl, hr]⟩

theorem Step.AddsRow.tidy {s next : Step} {r : Row} (h : s.AddsRow r next) (hr : r.Tidy)
    (hs : s.Tidy) : next.Tidy := by
  refine ⟨?_, ?_, ?_, ?_⟩
  · cases h <;> exact hs.name
  · cases h <;> exact hs.unmarked
  · cases h <;> exact hs.comment
  · cases h with
    | header =>
      simp only [withTable, Option.mem_some_iff]
      rintro t rfl q hq
      rw [List.mem_singleton.1 hq]
      exact hr
    | @data t u ht hp =>
      simp only [withTable, Option.mem_some_iff]
      rintro v rfl q hq
      obtain ⟨-, hheader, hrows⟩ := Table.push_eq_ok_iff.1 hp
      have hall : ∀ q ∈ t.allRows, q.Tidy := hs.table t ht
      rw [Table.allRows, hheader, hrows, ← List.cons_append] at hq
      rcases List.mem_append.1 hq with hq | hq
      · exact hall q hq
      · rw [List.mem_singleton.1 hq]
        exact hr

theorem Forest.Tidy.replaceLast {f : Forest} (h : f.Tidy) {before : List Scenario}
    {s u : Scenario} (hs : f.scenarios = before ++ [s]) (hu : s.Tidy → u.Tidy) :
    Forest.Tidy { f with scenarios := before ++ [u] } := by
  refine ⟨h.name, h.description, h.described, ?_⟩
  have hall := h.scenarios
  rw [hs, List.forall_mem_append] at hall
  rw [List.forall_mem_append]
  exact ⟨hall.1, by simpa using hu (hall.2 s (by simp))⟩

theorem Draft.attach_tidy {d : Draft} {level : Nat} {name : Text} {parent : Option Nat}
    (h : d.forest.Tidy) (hn : Text.Solid name) : (d.attach level name parent).forest.Tidy := by
  refine ⟨h.name, h.description, h.described, List.forall_mem_append.2 ⟨h.scenarios, ?_⟩⟩
  simp only [List.mem_singleton, forall_eq]
  refine ⟨?_, by simp [Scenario.named]⟩
  simpa [Scenario.named, hn.trim_eq] using hn

theorem Draft.Adds.tidy {d e : Draft} {level : Nat} {line : Line} (h : d.Adds level line e)
    (hline : line.Tidy) (hwelcome : ∀ t, line = .text t → d.welcomesText = true)
    (hd : d.forest.Tidy) : e.forest.Tidy := by
  cases h with
  | feature =>
    exact ⟨by simpa [Line.Tidy] using hline, hd.description, by simp, hd.scenarios⟩
  | text =>
    refine ⟨hd.name, List.forall_mem_append.2 ⟨hd.description, ?_⟩, ?_, hd.scenarios⟩
    · simpa [Line.Tidy] using hline
    · intro hn
      have hw := hwelcome _ rfl
      simp only [addText] at hn
      simp [welcomesText, hn] at hw
  | root => exact attach_tidy hd hline
  | child => exact attach_tidy hd hline
  | step hs =>
    refine hd.replaceLast hs fun htidy => ⟨htidy.name, ?_⟩
    exact List.forall_mem_append.2 ⟨htidy.steps, by simpa using hline _⟩
  | row hs hsteps hadds =>
    refine hd.replaceLast hs fun htidy => ⟨htidy.name, ?_⟩
    have hall := htidy.steps
    rw [hsteps, List.forall_mem_append] at hall
    refine List.forall_mem_append.2 ⟨hall.1, ?_⟩
    simpa using hadds.tidy hline (hall.2 _ (by simp))

theorem Draft.push_tidy {d e : Draft} {raw : Text} (hraw : '\n' ∉ raw) (h : d.push raw = .ok e)
    (hd : d.forest.Tidy) : e.forest.Tidy := by
  cases hb : (IndentedLine.split raw).isBlank with
  | true =>
    rw [push_of_blank hb] at h
    cases h
    exact hd
  | false =>
    obtain ⟨level, -, hadds⟩ := (push_eq_ok_iff hb).1 h
    have hsolid : Text.Solid (IndentedLine.split raw).content :=
      ⟨IndentedLine.tidy_content hraw, by simpa [IndentedLine.isBlank] using hb⟩
    refine hadds.tidy (Line.tidy_read hsolid _) ?_ hd
    intro t ht
    by_contra hw
    rw [lineOf, Bool.eq_false_iff.2 hw] at ht
    exact Line.read_ne_text ht

theorem Forest.tidy_of_parse {o : ParseOptions} {t : Text} {f : Forest}
    (h : Forest.parse o t = .ok f) : f.Tidy := by
  obtain ⟨d, hd, rfl⟩ := parse_eq_ok_iff.1 h
  exact hd.induction (P := fun d => d.forest.Tidy)
    (fun _ _ raw hraw hd hp => Draft.push_tidy (Text.newline_not_mem_lines t raw hraw) hp hd)
    tidy_empty

theorem Scenario.mem_steps_of_mem_stepsOfKind {s : Scenario} {kind : StepKind} {t : Step}
    (h : t ∈ s.stepsOfKind kind) : t ∈ s.steps := (List.mem_filter.1 h).1

section

variable {f : Forest} (hs : f.Shaped)

include hs

theorem Forest.Shaped.mem_of_mem_path {s p : Scenario} (hmem : s ∈ f.scenarios)
    (hp : p ∈ f.path s.id) : p ∈ f.scenarios :=
  ((hs.path_spec (hs.scenario?_id hmem)).1 p hp).1

theorem Forest.Shaped.mem_of_mem_ancestors {s p : Scenario} (hmem : s ∈ f.scenarios)
    (hp : p ∈ f.ancestors s.id) : p ∈ f.scenarios :=
  hs.mem_of_mem_path hmem (List.mem_append_left _ hp)

theorem Forest.Shaped.exists_scenario_of_mem_flatten {m : FlattenMode} {s : FlatScenario}
    (h : s ∈ (f.flatten m).1) {t : Step} (ht : t ∈ s.steps) :
    ∃ p ∈ f.scenarios, t ∈ p.steps := by
  cases m with
  | strict =>
    obtain ⟨u, hu, rfl⟩ := List.mem_map.1 h
    have hmem := (List.mem_filter.1 hu).1
    simp only [standAlone, List.mem_append, List.mem_flatMap] at ht
    rcases ht with (⟨p, hp, ht⟩ | ⟨p, hp, ht⟩) | ht
    · exact ⟨p, hs.mem_of_mem_ancestors hmem hp, Scenario.mem_steps_of_mem_stepsOfKind ht⟩
    · exact ⟨p, hs.mem_of_mem_ancestors hmem hp, Scenario.mem_steps_of_mem_stepsOfKind ht⟩
    · exact ⟨u, hmem, ht⟩
  | relaxed =>
    rw [hs.flatten_relaxed] at h
    obtain ⟨l, hl, rfl⟩ := List.mem_map.1 h
    obtain ⟨p, hp, ht⟩ := List.mem_flatMap.1 ht
    refine ⟨p, hs.mem_of_mem_path (List.mem_filter.1 hl).1 hp, ?_⟩
    simp only [List.mem_append] at ht
    rcases ht with (ht | ht) | ht
    · exact Scenario.mem_steps_of_mem_stepsOfKind ht
    · exact Scenario.mem_steps_of_mem_stepsOfKind ht
    · split at ht
      · exact Scenario.mem_steps_of_mem_stepsOfKind ht
      · simp at ht

/-- The leaf itself is always named, because no leaf before it is below it. -/
theorem Forest.Shaped.mem_named_of_leaf {l : Scenario} (hl : l ∈ f.leaves) :
    l ∈ (f.path l.id).filter fun p => p.isOrganizational || f.firstLeaf? p.id == some l.id := by
  have hget := hs.scenario?_id (List.mem_filter.1 hl).1
  obtain ⟨-, -, above, habove⟩ := hs.path_spec hget
  refine List.mem_filter.2 ⟨?_, ?_⟩
  · simp [habove]
  · simp [hs.firstLeaf?_of_mem_leaves hl]

theorem Forest.Tidy.flatten (hf : f.Tidy) (m : FlattenMode) :
    ∀ s ∈ (f.flatten m).1, s.Tidy := by
  intro s h
  refine ⟨?_, fun t ht => ?_⟩
  · cases m with
    | strict =>
      obtain ⟨u, hu, rfl⟩ := List.mem_map.1 h
      have hmem := (List.mem_filter.1 hu).1
      refine solid_composeName (by simp) fun p hp => (hf.scenarios p ?_).name
      rcases List.mem_append.1 hp with hp | hp
      · exact hs.mem_of_mem_ancestors hmem (List.mem_filter.1 hp).1
      · rw [List.mem_singleton.1 hp]
        exact hmem
    | relaxed =>
      rw [hs.flatten_relaxed] at h
      obtain ⟨l, hl, rfl⟩ := List.mem_map.1 h
      refine solid_composeName (List.ne_nil_of_mem (hs.mem_named_of_leaf hl)) fun p hp => ?_
      exact (hf.scenarios p
        (hs.mem_of_mem_path (List.mem_filter.1 hl).1 (List.mem_filter.1 hp).1)).name
  · obtain ⟨p, hp, ht⟩ := hs.exists_scenario_of_mem_flatten h ht
    exact (hf.scenarios p hp).steps t ht

end

end ScenarioForest
