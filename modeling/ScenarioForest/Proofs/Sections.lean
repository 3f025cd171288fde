import Mathlib.Data.List.Forall2
import ScenarioForest.Proofs.SilentStep
set_option autoImplicit false

/-!
The sections of a document: the step lines under each of its headers. They are the steps of the
scenario that the header opens, one by one, and their keywords decide the kinds.
-/

namespace ScenarioForest

def Line.step? : Line → Option StepLine
  | .step l => some l
  | _ => none

/-- The step lines under each header, up to the next one. -/
def stepSections (lines : List IndentedLine) : List (List StepLine) :=
  (lines.splitOnP (·.line.isScenario)).tail.map (·.filterMap (·.line.step?))

def statedKind? (ls : List StepLine) : Option StepKind := (ls.filterMap (·.keyword.kind?)).getLast?

/-- The steps of a scenario are those of some lines: the same words and comments in the same order,
and each of the kind that was stated last, at its own line or before. -/
structure Scenario.SaidBy (s : Scenario) (ls : List StepLine) : Prop where
  length : s.steps.length = ls.length
  step : ∀ i step, s.steps[i]? = some step → ∃ l, ls[i]? = some l ∧ step.name = l.text ∧
    step.comment = l.comment ∧ statedKind? (ls.take (i + 1)) = some step.kind

theorem Line.step?_eq_some_iff {line : Line} {l : StepLine} :
    line.step? = some l ↔ line = .step l := by
  cases line <;> simp [step?]

theorem Line.isStep_eq (line : Line) : line.isStep = line.step?.isSome := by
  cases line <;> rfl

theorem statedKind?_concat (ls : List StepLine) (l : StepLine) :
    statedKind? (ls ++ [l]) = l.keyword.resolve (statedKind? ls) := by
  cases hk : l.keyword.kind? with
  | none => simp [statedKind?, Keyword.resolve, hk]
  | some kind => simp [statedKind?, Keyword.resolve, hk]

theorem forall₂_concat {α β : Type} {R : α → β → Prop} {as : List α} {bs : List β} {a : α} {b : β} :
    List.Forall₂ R (as ++ [a]) (bs ++ [b]) ↔ List.Forall₂ R as bs ∧ R a b := by
  rw [← List.forall₂_reverse_iff]
  simp [and_comm]

theorem exists_of_forall₂_concat {α β : Type} {R : α → β → Prop} {as : List α} {bs : List β}
    {a : α} (h : List.Forall₂ R (as ++ [a]) bs) :
    ∃ front b, bs = front ++ [b] ∧ List.Forall₂ R as front ∧ R a b := by
  cases List.eq_nil_or_concat bs with
  | inl hnil =>
    subst hnil
    have hlength := h.length_eq
    simp at hlength
  | inr hconcat =>
    obtain ⟨front, b, rfl⟩ := hconcat
    exact ⟨front, b, List.concat_eq_append, forall₂_concat.1 (by simpa using h)⟩

theorem getElem?_concat_eq_some_iff {α : Type} {xs : List α} {a b : α} {i : Nat} :
    (xs ++ [a])[i]? = some b ↔ xs[i]? = some b ∨ i = xs.length ∧ a = b := by
  rw [List.getElem?_append]
  split
  · next hlt => exact ⟨.inl, fun h => h.resolve_right fun hi => by omega⟩
  · next hge =>
    rw [List.getElem?_eq_none (Nat.not_lt.1 hge), List.getElem?_singleton]
    split
    · next h => simp [show i = xs.length by omega]
    · next h => simp [show i ≠ xs.length by omega]

theorem exists_splitOnP_concat {α : Type} {p : α → Bool} {a : α} (h : p a = false) (xs : List α) :
    ∃ front last, xs.splitOnP p = front ++ [last] ∧
      (xs ++ [a]).splitOnP p = front ++ [last ++ [a]] := by
  induction xs with
  | nil => exact ⟨[], [], by simp, by simp [List.splitOnP_cons_eq_if_modifyHead, h]⟩
  | cons x xs ih =>
    obtain ⟨front, last, hxs, hall⟩ := ih
    simp only [List.cons_append, List.splitOnP_cons_eq_if_modifyHead, hxs, hall]
    cases p x with
    | true => exact ⟨[] :: front, last, rfl, rfl⟩
    | false =>
      cases front with
      | nil => exact ⟨[], x :: last, rfl, rfl⟩
      | cons y front => exact ⟨(x :: y) :: front, last, rfl, rfl⟩

section

variable (lines : List IndentedLine) {l : IndentedLine}

theorem stepSections_header (h : l.line.isScenario = true) :
    stepSections (lines ++ [l]) = stepSections lines ++ [[]] := by
  have hsplit := List.splitOnP_append_cons (p := (·.line.isScenario)) lines [] h
  rw [stepSections, hsplit, List.splitOnP_nil,
    List.tail_append_of_ne_nil (List.splitOnP_ne_nil _ _), List.map_append]
  rfl

theorem stepSections_concat (h : l.line.isScenario = false) :
    (stepSections lines = [] ∧ stepSections (lines ++ [l]) = []) ∨
      ∃ front ls, stepSections lines = front ++ [ls] ∧
        stepSections (lines ++ [l]) = front ++ [ls ++ l.line.step?.toList] := by
  obtain ⟨front, last, hlines, hall⟩ :=
    exists_splitOnP_concat (p := (·.line.isScenario)) h lines
  rw [stepSections, stepSections, hlines, hall]
  cases front with
  | nil => exact .inl ⟨rfl, rfl⟩
  | cons first front =>
    refine .inr ⟨front.map (·.filterMap (·.line.step?)), last.filterMap (·.line.step?), ?_, ?_⟩
    · simp
    · cases hl : l.line.step? <;> simp [hl]

theorem stepSections_same (h : l.line.isScenario = false) (hl : l.line.step? = none) :
    stepSections (lines ++ [l]) = stepSections lines := by
  cases stepSections_concat lines h with
  | inl hnone => rw [hnone.1, hnone.2]
  | inr hlast =>
    obtain ⟨front, ls, hlines, hall⟩ := hlast
    rw [hlines, hall, hl, Option.toList_none, List.append_nil]

theorem stepSections_step {s : StepLine} (hl : l.line = .step s) {front : List (List StepLine)}
    {ls : List StepLine} (h : stepSections lines = front ++ [ls]) :
    stepSections (lines ++ [l]) = front ++ [ls ++ [s]] := by
  cases stepSections_concat lines (l := l) (by rw [hl]; rfl) with
  | inl hnone =>
    rw [h] at hnone
    simp at hnone
  | inr hlast =>
    obtain ⟨front', ls', hlines, hall⟩ := hlast
    obtain ⟨rfl, hls⟩ := List.append_inj' (h.symm.trans hlines) rfl
    cases hls
    rw [hall, hl]
    rfl

end

theorem Scenario.saidBy_named (id : Nat) (name : Text) (parent : Option Nat) (level : Nat) :
    (Scenario.named id name parent level).SaidBy [] :=
  ⟨rfl, fun i step h => by simp [named] at h⟩

section

variable {s : Scenario} {ls : List StepLine}

theorem Scenario.SaidBy.lastKind?_eq (h : s.SaidBy ls) : s.lastKind? = statedKind? ls := by
  rw [lastKind?]
  cases hs : s.steps.getLast? with
  | none =>
    have hls : ls.length = 0 := by rw [← h.length, List.getLast?_eq_none_iff.1 hs]; rfl
    rw [List.length_eq_zero_iff.1 hls]
    rfl
  | some step =>
    rw [List.getLast?_eq_getElem?] at hs
    obtain ⟨l, hl, -, -, hkind⟩ := h.step _ step hs
    obtain ⟨hlt, -⟩ := List.getElem?_eq_some_iff.1 hl
    rw [List.take_of_length_le (by rw [h.length] at hlt ⊢; omega)] at hkind
    rw [hkind]
    rfl

theorem Scenario.SaidBy.addStep (h : s.SaidBy ls) {l : StepLine} {kind : StepKind}
    (hl : Text.trim l.text = l.text) (hkind : l.keyword.resolve s.lastKind? = some kind) :
    (s.addStep (l.toStep kind)).SaidBy (ls ++ [l]) where
  length := by simp [Scenario.addStep, h.length]
  step i step hstep := by
    cases getElem?_concat_eq_some_iff.1 hstep with
    | inl hold =>
      obtain ⟨m, hm, hname, hcomment, hstated⟩ := h.step i step hold
      have hlt := (List.getElem?_eq_some_iff.1 hm).1
      exact ⟨m, by rw [List.getElem?_append_left hlt, hm], hname, hcomment,
        by rw [List.take_append_of_le_length hlt, hstated]⟩
    | inr hnew =>
      obtain ⟨rfl, rfl⟩ := hnew
      refine ⟨l, by rw [h.length, List.getElem?_concat_length], hl, rfl, ?_⟩
      rw [List.take_of_length_le (by simp [h.length]), statedKind?_concat, ← h.lastKind?_eq, hkind]
      rfl

theorem Scenario.SaidBy.addRow {steps : List Step} {step next : Step}
    (hs : s.steps = steps ++ [step]) (h : s.SaidBy ls) (hnext : step.Begins next) :
    ({ s with steps := steps ++ [next] } : Scenario).SaidBy ls where
  length := by
    have hlength := h.length
    rw [hs] at hlength
    simpa using hlength
  step i u hu := by
    cases getElem?_concat_eq_some_iff.1 hu with
    | inl hold => exact h.step i u (by rw [hs]; exact getElem?_concat_eq_some_iff.2 (.inl hold))
    | inr hlast =>
      obtain ⟨rfl, rfl⟩ := hlast
      rw [← hnext.name, ← hnext.comment, ← hnext.kind]
      exact h.step _ step (by rw [hs, List.getElem?_concat_length])

end

/-- A header opens a section, a step goes to the last one, and all other lines change nothing. -/
theorem Draft.Adds.sections {d e : Draft} {level : Nat} {lines : List IndentedLine}
    {l : IndentedLine} (hadds : d.Adds level l.line e)
    (h : List.Forall₂ Scenario.SaidBy d.forest.scenarios (stepSections lines)) :
    List.Forall₂ Scenario.SaidBy e.forest.scenarios (stepSections (lines ++ [l])) := by
  generalize hl : l.line = line at hadds
  cases hadds with
  | feature | text =>
    rw [stepSections_same lines (by rw [hl]; rfl) (by rw [hl]; rfl)]
    exact h
  | root | child =>
    rw [stepSections_header lines (by rw [hl]; rfl)]
    exact forall₂_concat.2 ⟨h, Scenario.saidBy_named _ _ _ _⟩
  | step hs _ _ hkind =>
    rw [hs] at h
    obtain ⟨front, ls, hlines, hbefore, hlast⟩ := exists_of_forall₂_concat h
    have htrim := (StepLine.tidy_text (Line.read_eq_step_iff.1 hl)).trim_eq
    rw [stepSections_step lines hl hlines]
    exact forall₂_concat.2 ⟨hbefore, hlast.addStep htrim hkind⟩
  | row hs hsteps hadds =>
    rw [hs] at h
    obtain ⟨front, ls, hlines, hbefore, hlast⟩ := exists_of_forall₂_concat h
    rw [stepSections_same lines (by rw [hl]; rfl) (by rw [hl]; rfl), hlines]
    exact forall₂_concat.2 ⟨hbefore, hlast.addRow hsteps hadds.begins⟩

theorem Draft.sections_takeAll {o : ParseOptions} {d : Draft} {lines : List IndentedLine}
    (h : (Draft.start o).takeAll lines = .ok d) :
    List.Forall₂ Scenario.SaidBy d.forest.scenarios (stepSections lines) := by
  induction lines using List.reverseRecOn generalizing d with
  | nil =>
    cases h
    exact .nil
  | append_singleton lines l ih =>
    obtain ⟨m, hm, hl⟩ := takeAll_append_eq_ok_iff.1 h
    obtain ⟨e, he, hnil⟩ := takeAll_cons_eq_ok_iff.1 hl
    cases hnil
    obtain ⟨level, -, hadds⟩ := take_eq_ok_iff.1 he
    exact (adds_lineOf_iff.1 hadds).1.sections (ih hm)

end ScenarioForest
