import ScenarioForest.Proofs.Emitted
import ScenarioForest.Proofs.Preorder
set_option autoImplicit false

/-!
Forests with a common start. What is emitted for the scenarios before a place looks at nothing
behind that place, and at the place itself only for its parent: a child there makes an inner
scenario of the one before it.
-/

namespace ScenarioForest

/-- The same scenarios stand before a place, and whatever stands at the place has the same parent. -/
structure Forest.AgreesUntil (f g : Forest) (n : Nat) : Prop where
  scenario : ∀ i < n, g.scenario? i = f.scenario? i
  parent : g.parentId? n = f.parentId? n

def Forest.emittedFor (f : Forest) (scenarios : List Scenario) : FlattenMode → List FlatScenario
  | .strict => (scenarios.filter (!·.isOrganizational)).map f.standAlone
  | .relaxed => (scenarios.filter fun s => f.isLeaf s.id).map fun l => f.relaxedScenario l.id

theorem Forest.emittedFor_append (f : Forest) (first second : List Scenario) (mode : FlattenMode) :
    f.emittedFor (first ++ second) mode = f.emittedFor first mode ++ f.emittedFor second mode := by
  cases mode <;> simp [emittedFor]

theorem Forest.Shaped.flatten_eq_emittedFor {f : Forest} (h : f.Shaped) (mode : FlattenMode) :
    (f.flatten mode).1 = f.emittedFor f.scenarios mode := by
  cases mode with
  | strict => rfl
  | relaxed => exact h.flatten_relaxed

theorem Forest.Shaped.id_lt_of_mem_take {f : Forest} (h : f.Shaped) {n : Nat} {s : Scenario}
    (hs : s ∈ f.scenarios.take n) : s.id < n := by
  obtain ⟨i, hi⟩ := List.mem_iff_getElem?.1 hs
  rw [List.getElem?_take] at hi
  split at hi
  · next hin => rwa [h.id_eq i s hi]
  · cases hi

theorem Forest.Shaped.isLeaf_eq {f : Forest} (h : f.Shaped) (i : Nat) :
    f.isLeaf i = (f.parentId? (i + 1) != some i) := by
  rw [Bool.eq_iff_iff, ← not_iff_not, Bool.not_eq_true, h.isLeaf_eq_false_iff]
  simp [parentId?, Option.bind_eq_some_iff]

section

variable {f g : Forest} {n : Nat} (h : f.AgreesUntil g n)

include h

theorem Forest.AgreesUntil.parentId?_eq {i : Nat} (hi : i ≤ n) : g.parentId? i = f.parentId? i := by
  by_cases heq : i = n
  · subst heq
    exact h.parent
  · rw [parentId?, h.scenario i (by omega), parentId?]

theorem Forest.AgreesUntil.take_eq : g.scenarios.take n = f.scenarios.take n := by
  refine List.ext_getElem? fun i => ?_
  rw [List.getElem?_take, List.getElem?_take]
  split
  · next hi => exact h.scenario i hi
  · rfl

section

variable (hf : f.Shaped)

include hf

theorem Forest.AgreesUntil.parent?_eq {i : Nat} (hi : i < n) : g.parent? i = f.parent? i := by
  rw [parent?, parent?, h.parentId?_eq (Nat.le_of_lt hi)]
  cases hp : f.parentId? i with
  | none => rfl
  | some p =>
    obtain ⟨s, hs, hparent⟩ := Option.bind_eq_some_iff.1 hp
    obtain ⟨-, -, hlt, -⟩ := hf.child i s p hs hparent
    exact h.scenario p (by omega)

theorem Forest.AgreesUntil.ancestors_eq {i : Nat} (hi : i < n) : g.ancestors i = f.ancestors i := by
  induction i using Nat.strongRecOn with
  | ind i ih =>
    rw [ancestors, h.parent?_eq hf hi, ancestors]
    cases hp : f.parent? i with
    | none => rfl
    | some p =>
      have hlt := hf.parent?_lt hp
      simp only [ih p.id hlt (by omega)]

theorem Forest.AgreesUntil.path_eq {i : Nat} (hi : i < n) : g.path i = f.path i := by
  rw [path, h.ancestors_eq hf hi, h.scenario i hi, path]

variable (hg : g.Shaped)

include hg

theorem Forest.AgreesUntil.isLeaf_eq {i : Nat} (hi : i < n) : g.isLeaf i = f.isLeaf i := by
  rw [hg.isLeaf_eq, h.parentId?_eq hi, hf.isLeaf_eq]

theorem Forest.AgreesUntil.firstLeaf?_eq_some_iff {p l : Nat} (hp : p < f.scenarios.length)
    (hp' : p < g.scenarios.length) (hl : l < n) :
    g.firstLeaf? p = some l ↔ f.firstLeaf? p = some l := by
  have hlen : l < g.scenarios.length ↔ l < f.scenarios.length := by
    have hnone : g.scenario? l = none ↔ f.scenario? l = none := by rw [h.scenario l hl]
    rw [scenario?, scenario?, List.getElem?_eq_none_iff, List.getElem?_eq_none_iff] at hnone
    omega
  have hrun : (∀ k, p ≤ k → k < l → g.isLeaf k = false) ↔
      ∀ k, p ≤ k → k < l → f.isLeaf k = false :=
    forall_congr' fun k => forall_congr' fun _ => forall_congr' fun hkl => by
      rw [h.isLeaf_eq hf hg (by omega)]
  rw [hg.firstLeaf?_eq_some_iff hp', hf.firstLeaf?_eq_some_iff hp, hlen, h.isLeaf_eq hf hg hl, hrun]

theorem Forest.AgreesUntil.relaxedScenario_eq {l : Scenario} (hl : l ∈ f.scenarios)
    (hln : l.id < n) : g.relaxedScenario l.id = f.relaxedScenario l.id := by
  obtain ⟨hall, -⟩ := hf.path_spec (hf.scenario?_id hl)
  refine relaxedScenario_congr (g := id) (fun _ => rfl) (fun _ => rfl) ?_ fun p hp => ?_
  · rw [h.path_eq hf hln, List.map_id]
  · obtain ⟨hmem, hle⟩ := hall p hp
    have hget := hf.scenario?_id hmem
    rw [← h.scenario p.id (by omega)] at hget
    have hp' := (List.getElem?_eq_some_iff.1 hget).1
    exact h.firstLeaf?_eq_some_iff hf hg (hf.id_lt hmem) hp' hln

theorem Forest.AgreesUntil.emittedFor_take (mode : FlattenMode) :
    g.emittedFor (g.scenarios.take n) mode = f.emittedFor (f.scenarios.take n) mode := by
  rw [h.take_eq]
  cases mode with
  | strict =>
    refine List.map_congr_left fun s hs => ?_
    have hlt := hf.id_lt_of_mem_take (List.mem_filter.1 hs).1
    rw [standAlone, h.ancestors_eq hf hlt, standAlone]
  | relaxed =>
    have hleaf : (f.scenarios.take n).filter (fun s => g.isLeaf s.id) =
        (f.scenarios.take n).filter fun s => f.isLeaf s.id :=
      List.filter_congr fun s hs => h.isLeaf_eq hf hg (hf.id_lt_of_mem_take hs)
    rw [emittedFor, hleaf]
    refine List.map_congr_left fun l hl => ?_
    have hin := (List.mem_filter.1 hl).1
    exact h.relaxedScenario_eq hf hg (List.mem_of_mem_take hin) (hf.id_lt_of_mem_take hin)

theorem Forest.AgreesUntil.flatten_eq (mode : FlattenMode) : (g.flatten mode).1 =
    f.emittedFor (f.scenarios.take n) mode ++ g.emittedFor (g.scenarios.drop n) mode := by
  rw [hg.flatten_eq_emittedFor, ← h.emittedFor_take hf hg, ← emittedFor_append, List.take_append_drop]

end

end

end ScenarioForest
