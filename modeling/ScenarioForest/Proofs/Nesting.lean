import ScenarioForest.Document
import ScenarioForest.Proofs.FirstVisit
import ScenarioForest.Proofs.Preorder
set_option autoImplicit false

/-!
Nesting. In a forest that was read from a document the levels tell the parents, and it stays so
however often the forest is flattened and written.
-/

namespace ScenarioForest

/-- Ids count the scenarios, roots stand at level 1, and every other scenario belongs to the
nearest one before it that stands further out. -/
structure Forest.Nested (f : Forest) : Prop where
  id_eq : ∀ i s, f.scenario? i = some s → s.id = i
  isRoot_iff : ∀ i s, f.scenario? i = some s → (s.isRoot = true ↔ s.level = 1)
  parent : ∀ i s, f.scenario? i = some s → s.isRoot = false →
    ∃ p t, s.parent = some p ∧ f.scenario? p = some t ∧ p < i ∧ s.level = t.level + 1 ∧
      ∀ k u, p < k → k < i → f.scenario? k = some u → s.level ≤ u.level
  nearest : ∀ i s p k u, f.scenario? i = some s → s.parent = some p →
    f.scenario? k = some u → k < i → u.level < s.level → k ≤ p
  children_increasing : ∀ i, (f.children i).Pairwise (·.id < ·.id)

section

variable {f : Forest} (h : f.Shaped)

include h

theorem Forest.Shaped.isRoot_iff {i : Nat} {s : Scenario} (hs : f.scenario? i = some s) :
    s.isRoot = true ↔ s.level = 1 := by
  rw [Scenario.isRoot, Option.isNone_iff_eq_none]
  constructor
  · intro hp
    exact h.root i s hs hp
  · intro hl
    cases hp : s.parent with
    | none => rfl
    | some p =>
      obtain ⟨t, ht, -, hup, -⟩ := h.child i s p hs hp
      have := h.level_pos ht
      omega

theorem Forest.Shaped.level_le_of_between {i p k : Nat} {s u : Scenario}
    (hs : f.scenario? i = some s) (hp : s.parent = some p) (hpk : p < k) (hki : k < i)
    (hu : f.scenario? k = some u) : s.level ≤ u.level := by
  obtain ⟨t, -, -, hl, hbetween⟩ := h.child i s p hs hp
  have := hbetween k u hpk hki hu
  omega

theorem Forest.Shaped.nested : f.Nested where
  id_eq := h.id_eq
  isRoot_iff _ _ hs := h.isRoot_iff hs
  parent i s hs hr := by
    rw [Scenario.isRoot, Option.isNone_eq_false_iff, Option.isSome_iff_exists] at hr
    obtain ⟨p, hp⟩ := hr
    obtain ⟨t, ht, hlt, hl, -⟩ := h.child i s p hs hp
    exact ⟨p, t, hp, ht, hlt, hl, fun k u hpk hki hu => h.level_le_of_between hs hp hpk hki hu⟩
  nearest i s p k u hs hp hu hki hout := by
    by_contra hpk
    have := h.level_le_of_between hs hp (by omega) hki hu
    omega
  children_increasing i := h.pairwise_filter (·.parent == some i)

end

inductive Pass where
  | flatten (mode : FlattenMode)
  | render (o : FlattenOptions)
  deriving DecidableEq, Repr

def Forest.pass (f : Forest) : Pass → Forest
  | .flatten mode => (f.flatten mode).2
  | .render o => (f.render o).2

def Forest.after (f : Forest) (passes : List Pass) : Forest := passes.foldl Forest.pass f

theorem Forest.places_mapScenarios {f : Forest} {g : Scenario → Scenario}
    (hg : ∀ s, (g s).place = s.place) : (f.mapScenarios g).places = f.places := by
  simp [places, mapScenarios, Function.comp_def, hg]

theorem Forest.places_flatten (f : Forest) (mode : FlattenMode) :
    (f.flatten mode).2.places = f.places := by
  cases mode with
  | strict => rfl
  | relaxed =>
    rw [flatten_relaxed_eq]
    exact places_mapScenarios fun _ => rfl

theorem Forest.places_pass (f : Forest) (p : Pass) : (f.pass p).places = f.places := by
  cases p with
  | flatten mode => exact f.places_flatten mode
  | render o => exact f.places_flatten o.mode

end ScenarioForest
