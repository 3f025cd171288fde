import ScenarioForest.Proofs.Beginning
import ScenarioForest.Proofs.CommonStart
set_option autoImplicit false

/-!
Documents that go on. More lines can give the last scenario steps and children, which changes what
is emitted for it. Whatever was emitted for the scenarios before it stays as it is.
-/

namespace ScenarioForest

def Forest.settledStrict (f : Forest) : List FlatScenario :=
  if f.scenarios.getLast?.all (·.isOrganizational) then (f.flatten .strict).1
  else (f.flatten .strict).1.dropLast

section

variable {f g : Forest} {before : List Scenario} {last : Scenario}
  (hlast : f.scenarios = before ++ [last])

include hlast

/-- Only the last scenario of a beginning still grows, and it does so in its place. -/
theorem Forest.Begins.agreesUntil (h : f.Begins g) : f.AgreesUntil g before.length := by
  cases h.scenarios with
  | inl hnil => simp [hlast] at hnil
  | inr hcommon =>
    obtain ⟨front, x, y, after, hx, hy, hxy⟩ := hcommon
    rw [hlast] at hx
    obtain ⟨rfl, hsame⟩ := List.append_inj' hx rfl
    cases hsame
    refine ⟨fun i hi => ?_, ?_⟩
    · rw [scenario?, scenario?, hlast, hy, List.getElem?_append_left hi, List.getElem?_append_left hi]
    · have hparent : y.parent = last.parent := congrArg Place.parent hxy.place.symm
      simp [parentId?, scenario?, hlast, hy, hparent]

variable (hf : f.Shaped)

include hf

theorem Forest.Shaped.isLeaf_last : f.isLeaf last.id = true := by
  have hid : last.id = before.length := hf.id_eq before.length last (by simp [scenario?, hlast])
  have hend : f.scenario? (before.length + 1) = none := by simp [scenario?, hlast]
  simp [hf.isLeaf_eq, hid, parentId?, hend]

theorem Forest.Shaped.dropLast_flatten_relaxed :
    (f.flatten .relaxed).1.dropLast = f.emittedFor before .relaxed := by
  have hown : f.emittedFor [last] .relaxed = [f.relaxedScenario last.id] := by
    simp [emittedFor, hf.isLeaf_last hlast]
  rw [hf.flatten_eq_emittedFor, hlast, emittedFor_append, hown, List.dropLast_concat]

theorem Forest.Shaped.settledStrict_eq : f.settledStrict = f.emittedFor before .strict := by
  rw [settledStrict, hf.flatten_eq_emittedFor, hlast, emittedFor_append, List.getLast?_concat]
  cases horg : last.isOrganizational <;> simp [emittedFor, horg]

end

theorem Forest.Begins.flatten_settled {f g : Forest} (h : f.Begins g) (hf : f.Shaped)
    (hg : g.Shaped) : (f.flatten .relaxed).1.dropLast <+: (g.flatten .relaxed).1 ∧
      f.settledStrict <+: (g.flatten .strict).1 := by
  cases List.eq_nil_or_concat f.scenarios with
  | inl hnil =>
    have hnone : ∀ mode, (f.flatten mode).1 = [] := by
      intro mode
      rw [hf.flatten_eq_emittedFor, hnil]
      cases mode <;> rfl
    simp [settledStrict, hnone]
  | inr hlast =>
    obtain ⟨before, last, hlast⟩ := hlast
    rw [List.concat_eq_append] at hlast
    have hagree := h.agreesUntil hlast
    have htake : f.scenarios.take before.length = before := by rw [hlast, List.take_left]
    have hstart : ∀ mode, f.emittedFor before mode <+: (g.flatten mode).1 := by
      intro mode
      rw [hagree.flatten_eq hf hg, htake]
      exact List.prefix_append _ _
    rw [hf.dropLast_flatten_relaxed hlast, hf.settledStrict_eq hlast]
    exact ⟨hstart .relaxed, hstart .strict⟩

/-- Lines behind a document never change what was emitted early. The relaxed list of the document
without its last element begins that of the longer document, and so does the strict list without
the element of the last scenario, if that scenario has one. -/
theorem flatten_prefix_of_more {o : ParseOptions} {lines more : List Text} {f g : Forest}
    (hf : Forest.ofLines o lines = .ok f) (hg : Forest.ofLines o (lines ++ more) = .ok g) :
    (f.flatten .relaxed).1.dropLast <+: (g.flatten .relaxed).1 ∧
      f.settledStrict <+: (g.flatten .strict).1 := by
  have hfshaped := Forest.shaped_of_ofLines hf
  have hgshaped := Forest.shaped_of_ofLines hg
  exact (Forest.begins_of_ofLines hf hg).flatten_settled hfshaped hgshaped

def unfinishedLines : List Text :=
  ["Scenario: A", "Given x", "Then a", "    Scenario: B", "    Then b", "    Scenario: C"].map
    String.toList

def furtherLines : List Text :=
  ["    When y", "    Then c", "        Scenario: D", "        Then d"].map String.toList

theorem flatten_prefix_of_more_unfinished : ∃ f g, Forest.ofLines {} unfinishedLines = .ok f ∧
    Forest.ofLines {} (unfinishedLines ++ furtherLines) = .ok g ∧
    ((f.flatten .relaxed).1.length, f.settledStrict.length) = (2, 2) ∧
    (f.flatten .relaxed).1.dropLast <+: (g.flatten .relaxed).1 ∧
      f.settledStrict <+: (g.flatten .strict).1 := by
  have hread : (Forest.ofLines {} unfinishedLines).toOption.map (fun f =>
      ((f.flatten .relaxed).1.length, f.settledStrict.length)) = some (2, 2) := by
    decide +kernel
  have hmore : (Forest.ofLines {} (unfinishedLines ++ furtherLines)).toOption.map
      (·.scenarios.length) = some 4 := by
    decide +kernel
  obtain ⟨f, hf, hlengths⟩ := Forest.exists_ofLines_of_map hread
  obtain ⟨g, hg, -⟩ := Forest.exists_ofLines_of_map hmore
  exact ⟨f, g, hf, hg, hlengths, flatten_prefix_of_more hf hg⟩

end ScenarioForest
