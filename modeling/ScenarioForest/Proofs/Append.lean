import ScenarioForest.Document
import ScenarioForest.Proofs.CommonStart
set_option autoImplicit false

/-!
One forest after another. The trees of the two do not see each other: every way through the whole
stays in one of the parts, and the whole is flattened and written part by part.
-/

namespace ScenarioForest

/-- The scenario with so many others put before its forest. -/
def Scenario.shift (n : Nat) (s : Scenario) : Scenario :=
  { s with id := s.id + n, parent := s.parent.map (· + n) }

/-- The scenarios of one forest and then those of another, under the feature of the first. -/
def Forest.append (f g : Forest) : Forest :=
  { f with scenarios := f.scenarios ++ g.scenarios.map (Scenario.shift f.scenarios.length) }

theorem Forest.length_append (f g : Forest) :
    (f.append g).scenarios.length = f.scenarios.length + g.scenarios.length := by
  simp [append]

theorem Forest.append_concat (f : Forest) {g : Forest} {before : List Scenario} {s : Scenario}
    (hs : g.scenarios = before ++ [s]) : (f.append g).scenarios =
      (f.scenarios ++ before.map (Scenario.shift f.scenarios.length)) ++
        [s.shift f.scenarios.length] := by
  simp [append, hs]

section

variable (f g : Forest)

theorem Forest.scenario?_append_left {i : Nat} (hi : i < f.scenarios.length) :
    (f.append g).scenario? i = f.scenario? i := List.getElem?_append_left hi

theorem Forest.scenario?_append_right (i : Nat) : (f.append g).scenario? (i + f.scenarios.length) =
    (g.scenario? i).map (Scenario.shift f.scenarios.length) := by
  rw [scenario?, append, List.getElem?_append_right (Nat.le_add_left _ _), Nat.add_sub_cancel,
    List.getElem?_map, scenario?]

theorem Forest.scenario?_append_cases {i : Nat} {s : Scenario}
    (h : (f.append g).scenario? i = some s) :
    (i < f.scenarios.length ∧ f.scenario? i = some s) ∨
      ∃ j u, i = j + f.scenarios.length ∧ g.scenario? j = some u ∧
        s = u.shift f.scenarios.length := by
  by_cases hi : i < f.scenarios.length
  · rw [scenario?_append_left f g hi] at h
    exact .inl ⟨hi, h⟩
  · obtain ⟨j, rfl⟩ := Nat.exists_eq_add_of_le' (Nat.not_lt.1 hi)
    rw [scenario?_append_right, Option.map_eq_some_iff] at h
    obtain ⟨u, hu, hs⟩ := h
    exact .inr ⟨j, u, rfl, hu, hs.symm⟩

end

section

variable {f g : Forest} (hf : f.Shaped)

include hf

theorem Forest.Shaped.children_append_right (i : Nat) :
    (f.append g).children (i + f.scenarios.length) =
      (g.children i).map (Scenario.shift f.scenarios.length) := by
  have hearlier : f.scenarios.filter (·.parent == some (i + f.scenarios.length)) = [] := by
    rw [List.filter_eq_nil_iff]
    intro s hs
    rw [beq_iff_eq]
    intro hp
    have := hf.parent_lt hs hp
    omega
  have hparent : ∀ s : Scenario, ((s.shift f.scenarios.length).parent ==
      some (i + f.scenarios.length)) = (s.parent == some i) := by
    intro s
    cases hp : s.parent <;> simp [Scenario.shift, hp]
  rw [children, append, List.filter_append, hearlier, List.nil_append, List.filter_map, children]
  simp only [Function.comp_def, hparent]

theorem Forest.Shaped.append (hg : g.Shaped) : (f.append g).Shaped := by
  constructor
  · intro i s hs
    rcases scenario?_append_cases f g hs with ⟨-, hs⟩ | ⟨j, u, rfl, hu, rfl⟩
    · exact hf.id_eq i s hs
    · rw [Scenario.shift, hg.id_eq j u hu]
  · intro i s hs hp
    rcases scenario?_append_cases f g hs with ⟨-, hs⟩ | ⟨j, u, rfl, hu, rfl⟩
    · exact hf.root i s hs hp
    · exact hg.root j u hu (Option.map_eq_none_iff.1 hp)
  · intro i s p hs hp
    rcases scenario?_append_cases f g hs with ⟨hi, hs⟩ | ⟨j, u, rfl, hu, rfl⟩
    · obtain ⟨t, ht, hlt, hl, hbetween⟩ := hf.child i s p hs hp
      refine ⟨t, ?_, hlt, hl, fun k v hpk hki hv => ?_⟩
      · rw [scenario?_append_left f g (by omega)]
        exact ht
      · rw [scenario?_append_left f g (by omega)] at hv
        exact hbetween k v hpk hki hv
    · obtain ⟨q, hq, rfl⟩ := Option.map_eq_some_iff.1 hp
      obtain ⟨t, ht, hlt, hl, hbetween⟩ := hg.child j u q hu hq
      refine ⟨t.shift f.scenarios.length, ?_, by omega, hl, fun k v hpk hki hv => ?_⟩
      · rw [scenario?_append_right, ht, Option.map_some]
      · obtain ⟨m, rfl⟩ := Nat.exists_eq_add_of_le' (show f.scenarios.length ≤ k by omega)
        rw [scenario?_append_right, Option.map_eq_some_iff] at hv
        obtain ⟨w, hw, rfl⟩ := hv
        exact hbetween m w (by omega) (by omega) hw

theorem Forest.Shaped.openAt?_append (hg : g.Shaped) {level : Nat} {p : Scenario}
    (hp : g.openAt? level = some p) :
    (f.append g).openAt? level = some (p.shift f.scenarios.length) := by
  obtain ⟨before, after, hs, hl, hafter⟩ := hg.openAt?_eq_some_iff.1 hp
  refine (hf.append hg).openAt?_eq_some_iff.2 ⟨f.scenarios ++ before.map
    (Scenario.shift f.scenarios.length), after.map (Scenario.shift f.scenarios.length), ?_, hl, ?_⟩
  · simp [Forest.append, hs]
  · intro q hq
    obtain ⟨u, hu, rfl⟩ := List.mem_map.1 hq
    exact hafter u hu

omit hf in
theorem Forest.parent?_append_right (i : Nat) : (f.append g).parent? (i + f.scenarios.length) =
    (g.parent? i).map (Scenario.shift f.scenarios.length) := by
  rw [parent?, parentId?, scenario?_append_right, parent?, parentId?]
  cases hs : g.scenario? i with
  | none => rfl
  | some s =>
    cases hp : s.parent with
    | none => simp [Scenario.shift, hp]
    | some p =>
      have hparent : (s.shift f.scenarios.length).parent = some (p + f.scenarios.length) := by
        simp [Scenario.shift, hp]
      simp only [Option.map_some, Option.bind_some, hparent, hp, scenario?_append_right]

omit hf in
theorem Forest.ancestors_append_right (i : Nat) :
    (f.append g).ancestors (i + f.scenarios.length) =
      (g.ancestors i).map (Scenario.shift f.scenarios.length) := by
  induction i using Nat.strongRecOn with
  | ind i ih =>
    rw [ancestors, parent?_append_right, ancestors]
    cases g.parent? i with
    | none => rfl
    | some p =>
      have hid : (p.shift f.scenarios.length).id = p.id + f.scenarios.length := rfl
      simp only [Option.map_some, hid, Nat.add_lt_add_iff_right]
      split
      · next hlt => rw [ih p.id hlt, List.map_append, List.map_singleton]
      · rfl

omit hf in
theorem Forest.path_append_right (i : Nat) : (f.append g).path (i + f.scenarios.length) =
    (g.path i).map (Scenario.shift f.scenarios.length) := by
  rw [path, ancestors_append_right, scenario?_append_right, path, List.map_append]
  cases g.scenario? i <;> rfl

theorem Forest.Shaped.isLeaf_append_right (i : Nat) :
    (f.append g).isLeaf (i + f.scenarios.length) = g.isLeaf i := by
  rw [isLeaf, hf.children_append_right, List.isEmpty_map, isLeaf]

section

variable (hg : g.Shaped)

include hg

theorem Forest.Shaped.firstLeaf?_append_right {p : Nat} (hp : p < g.scenarios.length) :
    (f.append g).firstLeaf? (p + f.scenarios.length) =
      (g.firstLeaf? p).map (· + f.scenarios.length) := by
  obtain ⟨l, hpl, hl, hleaf, hrun⟩ := hg.exists_next_leaf hp
  have hlen := length_append f g
  rw [hg.firstLeaf?_of_run hp hpl hl hleaf hrun, Option.map_some]
  refine (hf.append hg).firstLeaf?_of_run (by omega) (by omega) (by omega) ?_ fun k hpk hkl => ?_
  · rw [hf.isLeaf_append_right]
    exact hleaf
  · obtain ⟨m, rfl⟩ := Nat.exists_eq_add_of_le' (show f.scenarios.length ≤ k by omega)
    rw [hf.isLeaf_append_right]
    exact hrun m (by omega) (by omega)

omit hf in
/-- A first scenario has no parent, so the first part ends the same way in the whole. -/
theorem Forest.Shaped.agreesUntil_append : f.AgreesUntil (f.append g) f.scenarios.length where
  scenario _ hi := scenario?_append_left f g hi
  parent := by
    have hend : f.scenario? f.scenarios.length = none := by simp [scenario?]
    have hfirst : g.parentId? 0 = none := by
      rw [parentId?, Option.bind_eq_none_iff]
      intro s hs
      cases hp : s.parent with
      | none => rfl
      | some p =>
        obtain ⟨-, -, hlt, -⟩ := hg.child 0 s p hs hp
        omega
    have hshift := scenario?_append_right f g 0
    rw [Nat.zero_add] at hshift
    rw [parentId?, hshift, parentId?, hend]
    cases hs : g.scenario? 0 with
    | none => rfl
    | some s =>
      rw [parentId?, hs] at hfirst
      simpa [Scenario.shift] using hfirst

theorem Forest.Shaped.emittedFor_append_right (mode : FlattenMode) :
    (f.append g).emittedFor (g.scenarios.map (Scenario.shift f.scenarios.length)) mode =
      g.emittedFor g.scenarios mode := by
  cases mode with
  | strict =>
    have halone : ∀ s : Scenario, (f.append g).standAlone (s.shift f.scenarios.length) =
        g.standAlone s := fun s =>
      standAlone_congr (g := Scenario.shift f.scenarios.length) (fun _ => rfl) (fun _ => rfl)
        (ancestors_append_right s.id)
    have horg : ∀ s : Scenario,
        (s.shift f.scenarios.length).isOrganizational = s.isOrganizational := fun _ => rfl
    rw [emittedFor, List.filter_map, List.map_map, emittedFor]
    simp only [Function.comp_def, horg, halone]
  | relaxed =>
    have hid : ∀ s : Scenario, (s.shift f.scenarios.length).id = s.id + f.scenarios.length :=
      fun _ => rfl
    rw [emittedFor, List.filter_map, List.map_map, emittedFor]
    simp only [Function.comp_def, hid, hf.isLeaf_append_right]
    refine List.map_congr_left fun l hl => ?_
    have hmem := (List.mem_filter.1 hl).1
    refine relaxedScenario_congr (g := Scenario.shift f.scenarios.length) (fun _ => rfl)
      (fun _ => rfl) (path_append_right l.id) fun p hp => ?_
    have hin := ((hg.path_spec (hg.scenario?_id hmem)).1 p hp).1
    rw [hid, hf.firstLeaf?_append_right hg (hg.id_lt hin)]
    cases g.firstLeaf? p.id <;> simp

theorem Forest.Shaped.flatten_append (mode : FlattenMode) : ((f.append g).flatten mode).1 =
    (f.flatten mode).1 ++ (g.flatten mode).1 := by
  have hrest : (f.append g).scenarios.drop f.scenarios.length =
      g.scenarios.map (Scenario.shift f.scenarios.length) := List.drop_left
  rw [(agreesUntil_append hg).flatten_eq hf (hf.append hg), List.take_length, hrest,
    hf.emittedFor_append_right hg, hf.flatten_eq_emittedFor, hg.flatten_eq_emittedFor]

theorem Forest.Shaped.render_append (hname : g.name = none) (o : FlattenOptions) :
    ((f.append g).render o).1 = (f.render o).1 ++ (g.render o).1 := by
  have hlines : documentLines f.name f.description ((f.append g).flatten o.mode).1
      o.writeComments = documentLines f.name f.description (f.flatten o.mode).1 o.writeComments ++
        documentLines g.name g.description (g.flatten o.mode).1 o.writeComments := by
    simp only [documentLines, hf.flatten_append hg, List.flatMap_append, hname, Option.elim_none,
      List.nil_append, List.append_assoc]
  have hwhole := congrArg Text.unlines hlines
  rw [Text.unlines_append] at hwhole
  exact hwhole

end

end

end ScenarioForest
