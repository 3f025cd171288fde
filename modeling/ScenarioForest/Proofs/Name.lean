import Mathlib.Data.List.SplitBy
import ScenarioForest.Flat.Name
import ScenarioForest.Proofs.Line
set_option autoImplicit false

/-!
Composite names. They depend on nothing but the names and on what checks something, and they are
tidy if the names are.
-/

namespace ScenarioForest

theorem splitBy_map {α β : Type} (r : β → β → Bool) (g : α → β) (l : List α) :
    (l.map g).splitBy r = (l.splitBy fun a b => r (g a) (g b)).map (List.map g) := by
  have hloop : ∀ (l : List α) (a : α) (group : List α) (done : List (List α)),
      List.splitBy.loop r (l.map g) (g a) (group.map g) (done.map (List.map g)) =
        (List.splitBy.loop (fun a b => r (g a) (g b)) l a group done).map (List.map g) := by
    intro l
    induction l with
    | nil => simp [List.splitBy.loop]
    | cons b l ih =>
      intro a group done
      simp only [List.map_cons, List.splitBy.loop]
      cases r (g a) (g b) with
      | true => exact ih b (a :: group) done
      | false => simpa using ih b [] ((a :: group).reverse :: done)
  cases l with
  | nil => rfl
  | cons a l => exact hloop l a [] []

theorem composeName_map {g : Scenario → Scenario} (hname : ∀ s, (g s).name = s.name)
    (horg : ∀ s, (g s).isOrganizational = s.isOrganizational) (path : List Scenario) :
    composeName (path.map g) = composeName path := by
  have halike : (fun a b => Scenario.alike (g a) (g b)) = Scenario.alike := by
    funext a b
    simp [Scenario.alike, horg]
  have hgroup : ∀ group, groupName (List.map g group) = groupName group := by
    intro group
    simp [groupName, horg, hname, Function.comp_def, List.all_map]
  simp [composeName, splitBy_map, halike, hgroup, Function.comp_def]

theorem Text.Solid.append {s sep t : Text} (hs : Text.Solid s) (hsep : '\n' ∉ sep)
    (ht : Text.Solid t) : Text.Solid (s ++ sep ++ t) := by
  refine ht.marked (by simp [hs.ne_nil]) ?_ (by simp [hs.oneLine, hsep])
  rw [List.head?_append_of_ne_nil _ hs.ne_nil, Option.any_eq_false]
  intro c hc
  simpa using hs.head c hc

theorem Text.solid_intercalate {sep : Text} {texts : List Text} (hsep : '\n' ∉ sep)
    (hne : texts ≠ []) (h : ∀ t ∈ texts, Text.Solid t) : Text.Solid (sep.intercalate texts) := by
  induction texts with
  | nil => exact absurd rfl hne
  | cons t rest ih =>
    obtain ⟨ht, hrest⟩ := List.forall_mem_cons.1 h
    cases rest with
    | nil => simpa using ht
    | cons u rest =>
      rw [List.intercalate_cons_cons]
      exact ht.append hsep (ih (by simp) hrest)

theorem Text.Solid.bracketed {t : Text} (h : Text.Solid t) : Text.Solid ('[' :: t ++ [']']) where
  head c hc := by
    cases hc
    decide
  last c hc := by
    rw [List.getLast?_concat] at hc
    cases hc
    decide
  oneLine := by simp [h.oneLine]
  ne_nil := by simp

theorem solid_groupName {group : List Scenario} (hne : group ≠ [])
    (h : ∀ s ∈ group, Text.Solid s.name) : Text.Solid (groupName group) := by
  have hjoin : ∀ sep : Text, '\n' ∉ sep → Text.Solid (sep.intercalate (group.map (·.name))) := by
    intro sep hsep
    refine Text.solid_intercalate hsep (by simpa using hne) fun t ht => ?_
    obtain ⟨s, hs, rfl⟩ := List.mem_map.1 ht
    exact h s hs
  simp only [groupName]
  split
  · exact (hjoin _ (by decide)).bracketed
  · exact hjoin _ (by decide)

theorem solid_composeName {path : List Scenario} (hne : path ≠ [])
    (h : ∀ s ∈ path, Text.Solid s.name) : Text.Solid (composeName path) := by
  refine Text.solid_intercalate (by decide) ?_ fun t ht => ?_
  · simpa [List.splitBy_eq_nil] using hne
  · obtain ⟨group, hg, rfl⟩ := List.mem_map.1 ht
    refine solid_groupName (List.ne_nil_of_mem_splitBy hg) fun s hs => h s ?_
    rw [← List.flatten_splitBy Scenario.alike path]
    exact List.mem_flatten_of_mem hg hs

end ScenarioForest
