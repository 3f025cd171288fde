import ScenarioForest.Proofs.Assertions
import ScenarioForest.Proofs.Emitted
import ScenarioForest.Proofs.Nesting
set_option autoImplicit false

/-!
Passes one after the other. What a pass gives back does not depend on the passes before it, and all
that passes leave behind are flags, set just where something is checked.
-/

namespace ScenarioForest

def Pass.mode : Pass → FlattenMode
  | .flatten mode => mode
  | .render o => o.mode

inductive Output where
  | flat (scenarios : List FlatScenario)
  | document (text : Text)
  deriving DecidableEq

def Forest.output (f : Forest) : Pass → Output
  | .flatten mode => .flat (f.flatten mode).1
  | .render o => .document (f.render o).1

def Forest.outputs (f : Forest) : List Pass → List Output
  | [] => []
  | p :: rest => f.output p :: (f.pass p).outputs rest

def Forest.validated (f : Forest) : Forest := f.flagged fun s => !s.isOrganizational

theorem Forest.flattenStrict_flagged (f : Forest) (flag : Scenario → Bool) :
    (f.flagged flag).flattenStrict = f.flattenStrict := by
  have horg : ∀ s : Scenario, (s.flaggedBy flag).isOrganizational = s.isOrganizational :=
    fun _ => rfl
  have habove : ∀ i, (f.flagged flag).ancestors i = (f.ancestors i).map (Scenario.flaggedBy flag) :=
    ancestors_mapScenarios fun _ => rfl
  have halone : ∀ s : Scenario, (f.flagged flag).standAlone (s.flaggedBy flag) = f.standAlone s :=
    fun s => standAlone_congr (g := Scenario.flaggedBy flag) (fun _ => rfl) (fun _ => rfl)
      (habove s.id)
  have hscenarios : (f.flagged flag).scenarios = f.scenarios.map (Scenario.flaggedBy flag) := rfl
  rw [flattenStrict, flattenStrict, hscenarios]
  simp only [List.filter_map, List.map_map, Function.comp_def, horg, halone]

theorem Forest.flatten_flagged (f : Forest) (flag : Scenario → Bool) (mode : FlattenMode) :
    ((f.flagged flag).flatten mode).1 = (f.flatten mode).1 := by
  cases mode with
  | strict => exact f.flattenStrict_flagged flag
  | relaxed => rw [flatten_relaxed_flagged]

theorem Forest.output_flagged (f : Forest) (flag : Scenario → Bool) (p : Pass) :
    (f.flagged flag).output p = f.output p := by
  cases p with
  | flatten mode => exact congrArg Output.flat (f.flatten_flagged flag mode)
  | render o =>
    have hflat := f.flatten_flagged flag o.mode
    simp only [output, render, hflat]
    rfl

theorem Forest.clearValidated_eq_self {f : Forest}
    (h : ∀ s ∈ f.scenarios, s.validated = false) : f.clearValidated = f := by
  have hall : f.scenarios.map (fun s => { s with validated := false }) = f.scenarios.map id :=
    List.map_congr_left fun s hs => by rw [← h s hs]; rfl
  rw [clearValidated, hall, List.map_id]

theorem Forest.validated_validated (f : Forest) : f.validated.validated = f.validated := by
  simp only [validated, flagged, mapScenarios, List.map_map]
  rfl

theorem Forest.Shaped.flatten_relaxed_snd {f : Forest} (h : f.Shaped) :
    (f.flatten .relaxed).2 = f.validated := by
  have hmet : ∀ s ∈ f.scenarios, ((f.leaves.map (·.id)).flatMap f.pathIds).contains s.id := by
    intro s hs
    obtain ⟨l, hl, -, hmem⟩ := h.exists_firstLeaf hs
    simp only [List.contains_iff_mem, List.mem_flatMap, List.mem_map, pathIds]
    exact ⟨l.id, ⟨l, hl, rfl⟩, s, hmem, rfl⟩
  rw [flatten_relaxed_eq]
  simp only [visited, validated, flagged, mapScenarios]
  congr 1
  refine List.map_congr_left fun s hs => ?_
  rw [Scenario.seenIn, hmet s hs, Bool.true_and, Scenario.flaggedBy]

theorem Forest.Shaped.flatten_snd {f : Forest} (h : f.Shaped) (mode : FlattenMode) :
    (f.flatten mode).2 = if mode = .relaxed then f.validated else f := by
  cases mode with
  | strict => rfl
  | relaxed => exact h.flatten_relaxed_snd

theorem Forest.Shaped.pass_eq {f : Forest} (h : f.Shaped) (p : Pass) :
    f.pass p = if p.mode = .relaxed then f.validated else f := by
  cases p with
  | flatten mode => exact h.flatten_snd mode
  | render o => exact h.flatten_snd o.mode

theorem Forest.Shaped.output_pass {f : Forest} (h : f.Shaped) (p q : Pass) :
    (f.pass p).output q = f.output q := by
  rw [h.pass_eq]
  split
  · exact f.output_flagged _ q
  · rfl

theorem Forest.Shaped.pass {f : Forest} (h : f.Shaped) (p : Pass) : (f.pass p).Shaped :=
  h.congr (f.places_pass p)

theorem Forest.Shaped.outputs_eq {f : Forest} (h : f.Shaped) (passes : List Pass) :
    f.outputs passes = passes.map f.output := by
  induction passes generalizing f with
  | nil => rfl
  | cons p rest ih =>
    have hsame : (f.pass p).output = f.output := funext fun q => h.output_pass p q
    rw [outputs, ih (h.pass p), hsame, List.map_cons]

/-- The first relaxed pass sets the flags, and no later pass changes them. -/
theorem Forest.Shaped.after_eq {f : Forest} (h : f.Shaped) (passes : List Pass) :
    f.after passes = if ∃ p ∈ passes, p.mode = .relaxed then f.validated else f := by
  induction passes generalizing f with
  | nil => simp [after]
  | cons p rest ih =>
    have hrest : f.after (p :: rest) = (f.pass p).after rest := rfl
    rw [hrest, ih (h.pass p), h.pass_eq]
    by_cases hp : p.mode = .relaxed
    · simp [hp, f.validated_validated]
    · simp [hp]

theorem Draft.Adds.unflagged {d e : Draft} {level : Nat} {line : Line} (h : d.Adds level line e)
    (hd : ∀ s ∈ d.forest.scenarios, s.validated = false) :
    ∀ s ∈ e.forest.scenarios, s.validated = false := by
  cases h with
  | feature => exact hd
  | text => exact hd
  | root => exact List.forall_mem_append.2 ⟨hd, by simp [Scenario.named]⟩
  | child => exact List.forall_mem_append.2 ⟨hd, by simp [Scenario.named]⟩
  | step hs =>
    rw [hs, List.forall_mem_append] at hd
    exact List.forall_mem_append.2 ⟨hd.1, by simpa [Scenario.addStep] using hd.2⟩
  | row hs =>
    rw [hs, List.forall_mem_append] at hd
    exact List.forall_mem_append.2 ⟨hd.1, by simpa using hd.2⟩

theorem Forest.unflagged_of_parse {o : ParseOptions} {t : Text} {f : Forest}
    (h : Forest.parse o t = .ok f) : ∀ s ∈ f.scenarios, s.validated = false := by
  obtain ⟨d, hd, rfl⟩ := parse_eq_ok_iff.1 h
  refine hd.induction (P := fun d => ∀ s ∈ d.forest.scenarios, s.validated = false) ?_ ?_
  · intro d e raw _ hd hpush
    cases hb : (IndentedLine.split raw).isBlank with
    | true =>
      rw [Draft.push_of_blank hb] at hpush
      cases hpush
      exact hd
    | false =>
      obtain ⟨level, -, hadds⟩ := (Draft.push_eq_ok_iff hb).1 hpush
      exact hadds.unflagged hd
  · simp [Draft.start, empty]

/-- Whatever passes are made over the forest of a document, each gives back what it would give back
on the forest as it was read. The passes change nothing but flags. These stay unset as long as
every pass is strict, and after a relaxed one they are set just where something is checked. -/
theorem passes_independent {o : ParseOptions} {t : Text} {f : Forest}
    (h : Forest.parse o t = .ok f) (passes : List Pass) :
    f.outputs passes = passes.map f.output ∧
    (f.after passes).clearValidated = f ∧
    ((∀ p ∈ passes, p.mode = .strict) → ∀ s ∈ (f.after passes).scenarios, s.validated = false) ∧
    ((∃ p ∈ passes, p.mode = .relaxed) → ∀ s ∈ (f.after passes).scenarios,
      (s.validated = true ↔ s.assertions ≠ [])) := by
  have hshaped := Forest.shaped_of_parse h
  have hnone := Forest.unflagged_of_parse h
  have hafter := hshaped.after_eq passes
  refine ⟨hshaped.outputs_eq passes, ?_, fun hstrict => ?_, fun hrelaxed => ?_⟩
  · rw [hafter]
    split
    · exact (f.clearValidated_flagged _).trans (Forest.clearValidated_eq_self hnone)
    · exact Forest.clearValidated_eq_self hnone
  · have hno : ¬ ∃ p ∈ passes, p.mode = .relaxed := by
      intro hex
      obtain ⟨p, hp, hmode⟩ := hex
      rw [hstrict p hp] at hmode
      cases hmode
    rw [hafter, if_neg hno]
    exact hnone
  · rw [hafter, if_pos hrelaxed]
    intro s hs
    obtain ⟨u, -, rfl⟩ := List.mem_map.1 hs
    have hassertions : (u.flaggedBy fun s => !s.isOrganizational).assertions = u.assertions := rfl
    rw [hassertions]
    simp [Scenario.flaggedBy, Scenario.isOrganizational]

theorem passes_independent_branching : ∃ f, Forest.parse {} branchingDocument = .ok f ∧
    f.scenarios.map (·.isOrganizational) = [false, true, false] ∧
    let passes := [.flatten .relaxed, .render {}, .render ⟨.relaxed, true⟩]
    f.outputs passes = passes.map f.output ∧
    (∀ s ∈ (f.after passes).scenarios, (s.validated = true ↔ s.assertions ≠ [])) ∧
    ∀ s ∈ (f.after [.flatten .strict]).scenarios, s.validated = false := by
  have hread : (Forest.parse {} branchingDocument).toOption.map
      (·.scenarios.map (·.isOrganizational)) = some [false, true, false] := by
    decide +kernel
  obtain ⟨f, hf, hgroups⟩ := Forest.exists_parse_of_map hread
  obtain ⟨houtputs, -, -, hset⟩ :=
    passes_independent hf [.flatten .relaxed, .render {}, .render ⟨.relaxed, true⟩]
  obtain ⟨-, -, hunset, -⟩ := passes_independent hf [.flatten .strict]
  refine ⟨f, hf, hgroups, houtputs, ?_, ?_⟩
  · exact hset ⟨.flatten .relaxed, by simp, rfl⟩
  · exact hunset (by simp [Pass.mode])

end ScenarioForest
