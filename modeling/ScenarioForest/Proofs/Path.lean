import Mathlib.Data.List.Sort
import Mathlib.Data.Nat.Find
import ScenarioForest.Proofs.Shape
set_option autoImplicit false

/-!
Paths, children and leaves in a forest of the right shape. Document order goes down first: what
follows a scenario with something below it is its first child.
-/

namespace ScenarioForest

def Forest.mapScenarios (f : Forest) (g : Scenario → Scenario) : Forest :=
  { f with scenarios := f.scenarios.map g }

section

variable {f : Forest} {g : Scenario → Scenario}

theorem Forest.scenario?_mapScenarios (i : Nat) :
    (f.mapScenarios g).scenario? i = (f.scenario? i).map g := by
  simp [mapScenarios, scenario?]

variable (hg : ∀ s, (g s).place = s.place)

include hg

theorem Forest.children_mapScenarios (i : Nat) :
    (f.mapScenarios g).children i = (f.children i).map g := by
  have hp : ∀ s, (g s).parent = s.parent := fun s => congrArg Place.parent (hg s)
  simp [children, mapScenarios, List.filter_map, Function.comp_def, hp]

theorem Forest.isLeaf_mapScenarios (i : Nat) : (f.mapScenarios g).isLeaf i = f.isLeaf i := by
  simp [isLeaf, children_mapScenarios hg]

theorem Forest.leaves_mapScenarios : (f.mapScenarios g).leaves = f.leaves.map g := by
  have hid : ∀ s, (g s).id = s.id := fun s => congrArg Place.id (hg s)
  simp only [leaves, isLeaf_mapScenarios hg]
  simp [mapScenarios, List.filter_map, Function.comp_def, hid]

theorem Forest.ancestors_mapScenarios (i : Nat) :
    (f.mapScenarios g).ancestors i = (f.ancestors i).map g := by
  have hid : ∀ s, (g s).id = s.id := fun s => congrArg Place.id (hg s)
  have hp : ∀ s, (g s).parent = s.parent := fun s => congrArg Place.parent (hg s)
  induction i using Nat.strongRecOn with
  | ind i ih =>
    have hparent : (f.mapScenarios g).parent? i = (f.parent? i).map g := by
      cases hs : f.scenario? i with
      | none => simp [parent?, parentId?, scenario?_mapScenarios, hs]
      | some s =>
        cases hq : s.parent <;> simp [parent?, parentId?, scenario?_mapScenarios, hs, hp, hq]
    rw [ancestors, hparent, ancestors]
    cases f.parent? i with
    | none => rfl
    | some p =>
      simp only [Option.map_some, hid]
      split
      · next hlt => rw [ih p.id hlt, List.map_append, List.map_singleton]
      · rfl

theorem Forest.path_mapScenarios (i : Nat) :
    (f.mapScenarios g).path i = (f.path i).map g := by
  rw [path, path, ancestors_mapScenarios hg, scenario?_mapScenarios, List.map_append]
  cases f.scenario? i <;> rfl

end

theorem eq_of_pairwise_ids {first second : List Scenario} (hf : first.Pairwise (·.id < ·.id))
    (hs : second.Pairwise (·.id < ·.id)) (hmem : ∀ s, s ∈ first ↔ s ∈ second) :
    first = second := by
  have hanti : Std.Antisymm fun s t : Scenario => s.id < t.id := ⟨fun s t hst hts => by omega⟩
  have hirr : Std.Irrefl fun s t : Scenario => s.id < t.id := ⟨fun s => by omega⟩
  exact hf.eq_of_mem_iff hs hmem

section

variable {f : Forest} (h : f.Shaped)

include h

theorem Forest.Shaped.scenario?_id {s : Scenario} (hs : s ∈ f.scenarios) :
    f.scenario? s.id = some s := by
  obtain ⟨i, hi⟩ := List.mem_iff_getElem?.1 hs
  rw [h.id_eq i s hi]
  exact hi

theorem Forest.Shaped.id_lt {s : Scenario} (hs : s ∈ f.scenarios) : s.id < f.scenarios.length :=
  (List.getElem?_eq_some_iff.1 (h.scenario?_id hs)).1

theorem Forest.Shaped.parent_lt {s : Scenario} (hs : s ∈ f.scenarios) {p : Nat}
    (hp : s.parent = some p) : p < f.scenarios.length := by
  obtain ⟨t, ht, -⟩ := h.child s.id s p (h.scenario?_id hs) hp
  exact (List.getElem?_eq_some_iff.1 ht).1

theorem Forest.Shaped.pairwise_ids : f.scenarios.Pairwise (·.id < ·.id) := by
  rw [List.pairwise_iff_getElem]
  intro i j hi hj hij
  rw [h.id_eq i _ (List.getElem?_eq_getElem hi), h.id_eq j _ (List.getElem?_eq_getElem hj)]
  exact hij

theorem Forest.Shaped.pairwise_filter (p : Scenario → Bool) :
    (f.scenarios.filter p).Pairwise (·.id < ·.id) :=
  h.pairwise_ids.sublist List.filter_sublist

omit h in
theorem Forest.path_eq_concat {i : Nat} {s : Scenario} (hs : f.scenario? i = some s) :
    f.path i = f.ancestors i ++ [s] := by
  rw [path, hs, Option.toList_some]

omit h in
theorem Forest.path_of_root {i : Nat} {s : Scenario} (hs : f.scenario? i = some s)
    (hp : s.parent = none) : f.path i = [s] := by
  have hn : f.parent? i = none := by simp [parent?, parentId?, hs, hp]
  rw [path, ancestors, hn, hs]
  rfl

theorem Forest.Shaped.path_of_child {i p : Nat} {s : Scenario} (hs : f.scenario? i = some s)
    (hp : s.parent = some p) : f.path i = f.path p ++ [s] := by
  obtain ⟨t, ht, hlt, -⟩ := h.child i s p hs hp
  have hid := h.id_eq p t ht
  have hpar : f.parent? i = some t := by simp [parent?, parentId?, hs, hp, ht]
  rw [path, ancestors, hpar, hs]
  simp only [hid, hlt, if_true, Option.toList_some]
  rw [path, ht, Option.toList_some]

theorem Forest.Shaped.path_spec {i : Nat} {s : Scenario} (hs : f.scenario? i = some s) :
    (∀ p ∈ f.path i, p ∈ f.scenarios ∧ p.id ≤ i) ∧ (f.path i).Pairwise (·.id < ·.id) ∧
      ∃ above, f.path i = above ++ [s] := by
  induction i using Nat.strongRecOn generalizing s with
  | ind i ih =>
    have hmem : s ∈ f.scenarios := List.mem_of_getElem? hs
    have hid := h.id_eq i s hs
    cases hp : s.parent with
    | none =>
      rw [path_of_root hs hp]
      exact ⟨by simp [hmem, hid], by simp, [], rfl⟩
    | some p =>
      obtain ⟨t, ht, hlt, -⟩ := h.child i s p hs hp
      obtain ⟨hall, hpair, -⟩ := ih p hlt ht
      rw [h.path_of_child hs hp]
      refine ⟨?_, ?_, _, rfl⟩
      · intro q hq
        rcases List.mem_append.1 hq with hq | hq
        · exact ⟨(hall q hq).1, by have := (hall q hq).2; omega⟩
        · rw [List.mem_singleton.1 hq]
          exact ⟨hmem, Nat.le_of_eq hid⟩
      · refine List.pairwise_append.2 ⟨hpair, by simp, fun q hq r hr => ?_⟩
        rw [List.mem_singleton.1 hr, hid]
        have := (hall q hq).2
        omega

/-- Something is below a scenario exactly when the next one in the document is its child. -/
theorem Forest.Shaped.isLeaf_eq_false_iff {i : Nat} :
    f.isLeaf i = false ↔ ∃ s, f.scenario? (i + 1) = some s ∧ s.parent = some i := by
  simp only [isLeaf, children, List.isEmpty_eq_false_iff_exists_mem, List.mem_filter, beq_iff_eq]
  constructor
  · rintro ⟨s, hs, hp⟩
    obtain ⟨j, hj⟩ := List.mem_iff_getElem?.1 hs
    obtain ⟨t, ht, hlt, hl, hb⟩ := h.child j s i hj hp
    by_cases hij : j = i + 1
    · subst hij
      exact ⟨s, hj, hp⟩
    · -- The next scenario stands deeper than its predecessor, so no earlier one is its parent.
      have hlen := (List.getElem?_eq_some_iff.1 hj).1
      have hnext : f.scenario? (i + 1) = some f.scenarios[i + 1] :=
        List.getElem?_eq_getElem (by omega)
      have hdeep := hb _ _ (by omega) (by omega) hnext
      have hpos := h.level_pos ht
      refine ⟨_, hnext, ?_⟩
      cases hq : f.scenarios[i + 1].parent with
      | none =>
        have := h.root _ _ hnext hq
        omega
      | some q =>
        obtain ⟨u, hu, hqi, hul, hub⟩ := h.child _ _ q hnext hq
        by_cases hqeq : q = i
        · rw [hqeq]
        · have := hub i t (by omega) (by omega) ht
          omega
  · rintro ⟨s, hs, hp⟩
    exact ⟨s, List.mem_of_getElem? hs, hp⟩

theorem Forest.Shaped.head?_children {p : Nat} {s : Scenario} :
    (f.children p).head? = some s ↔ f.scenario? (p + 1) = some s ∧ s.parent = some p := by
  have hlt : ∀ j t, f.scenario? j = some t → t.parent = some p → p < j := by
    intro j t ht hp
    obtain ⟨-, -, hlt, -⟩ := h.child j t p ht hp
    exact hlt
  rw [children, List.head?_filter, List.find?_eq_some_iff_getElem]
  simp only [beq_iff_eq, Bool.not_eq_true', beq_eq_false_iff_ne]
  constructor
  · rintro ⟨hp, i, hi, rfl, hbefore⟩
    have hs : f.scenario? i = some f.scenarios[i] := List.getElem?_eq_getElem hi
    have hleaf : f.isLeaf p = false := by
      simpa [isLeaf, children] using ⟨_, List.getElem_mem hi, hp⟩
    obtain ⟨t, ht, htp⟩ := h.isLeaf_eq_false_iff.1 hleaf
    have hpi := hlt i _ hs hp
    by_cases heq : i = p + 1
    · subst heq
      exact ⟨hs, hp⟩
    · obtain ⟨hj, rfl⟩ := List.getElem?_eq_some_iff.1 ht
      exact absurd htp (hbefore (p + 1) (by omega))
  · rintro ⟨hs, hp⟩
    obtain ⟨hi, rfl⟩ := List.getElem?_eq_some_iff.1 hs
    refine ⟨hp, p + 1, hi, rfl, fun j hj hjp => ?_⟩
    have := hlt j _ (List.getElem?_eq_getElem (by omega)) hjp
    omega

/-- Going down as long as there is something below follows the document. -/
theorem Forest.Shaped.path_run {a m : Nat} (hle : a ≤ m)
    (hrun : ∀ k, a ≤ k → k < m → f.isLeaf k = false) :
    f.path m = f.path a ++ (f.scenarios.take (m + 1)).drop (a + 1) := by
  induction m, hle using Nat.le_induction with
  | base =>
    rw [List.drop_eq_nil_of_le (List.length_take_le _ _), List.append_nil]
  | succ m hle ih =>
    obtain ⟨s, hs, hp⟩ := h.isLeaf_eq_false_iff.1 (hrun m hle (by omega))
    have hm := (List.getElem?_eq_some_iff.1 hs).1
    rw [h.path_of_child hs hp, ih fun k hk hkm => hrun k hk (by omega), List.append_assoc]
    rw [List.take_add_one (i := m + 1), show f.scenarios[m + 1]? = some s from hs,
      List.drop_append_of_le_length (by simp; omega), Option.toList_some]

theorem Forest.Shaped.exists_next_leaf {p : Nat} (hp : p < f.scenarios.length) :
    ∃ l, p ≤ l ∧ l < f.scenarios.length ∧ f.isLeaf l = true ∧
      ∀ k, p ≤ k → k < l → f.isLeaf k = false := by
  have hlast : f.isLeaf (f.scenarios.length - 1) = true := by
    by_contra hn
    obtain ⟨s, hs, -⟩ := h.isLeaf_eq_false_iff.1 (by simpa using hn)
    have := (List.getElem?_eq_some_iff.1 hs).1
    omega
  have hex : ∃ l, p ≤ l ∧ f.isLeaf l = true := ⟨_, by omega, hlast⟩
  refine ⟨Nat.find hex, (Nat.find_spec hex).1, ?_, (Nat.find_spec hex).2, fun k hk hlt => ?_⟩
  · have := Nat.find_min' hex ⟨by omega, hlast⟩
    omega
  · have := Nat.find_min hex hlt
    simpa [hk] using this

end

end ScenarioForest
