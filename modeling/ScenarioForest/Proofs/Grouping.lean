import Mathlib.Data.List.SplitBy
import ScenarioForest.Proofs.Emitted
import ScenarioForest.Proofs.Tidy
import ScenarioForest.Proofs.Traversal
set_option autoImplicit false

/-!
The groups of a composite name. A path falls into groups in exactly one way, and what is named in
either mode of flattening tells how many groups there can be and where the scenario itself stands.
-/

namespace ScenarioForest

structure Group where
  organizational : Bool
  members : List Scenario
  deriving DecidableEq

def Group.text (g : Group) : Text :=
  let names := g.members.map (·.name)
  if g.organizational then '[' :: " / ".toList.intercalate names ++ [']']
  else " > ".toList.intercalate names

/-- A path in groups: none is empty, the members of a group are alike, and neighbouring groups are
not. -/
structure IsGrouping (path : List Scenario) (groups : List Group) : Prop where
  members : groups.flatMap (·.members) = path
  ne_nil : ∀ g ∈ groups, g.members ≠ []
  alike : ∀ g ∈ groups, ∀ s ∈ g.members, s.isOrganizational = g.organizational
  alternate : groups.IsChain fun g h => g.organizational ≠ h.organizational

def Group.ofMembers (members : List Scenario) : Group :=
  ⟨members.all (·.isOrganizational), members⟩

theorem Group.eq_ofMembers {g : Group} (hne : g.members ≠ [])
    (h : ∀ s ∈ g.members, s.isOrganizational = g.organizational) :
    Group.ofMembers g.members = g := by
  obtain ⟨s, rest, hmembers⟩ := List.exists_cons_of_ne_nil hne
  have hall : g.members.all (·.isOrganizational) = g.organizational := by
    rw [Bool.eq_iff_iff, List.all_eq_true]
    constructor
    · intro hall
      have hs : s ∈ g.members := by simp [hmembers]
      rw [← h s hs, hall s hs]
    · intro ho t ht
      rw [h t ht, ho]
  rw [ofMembers, hall]

theorem isOrganizational_eq_of_mem_splitBy {path group : List Scenario}
    (h : group ∈ path.splitBy Scenario.alike) :
    ∀ s ∈ group, ∀ t ∈ group, s.isOrganizational = t.isOrganizational := by
  have hchain : (group.map (·.isOrganizational)).IsChain (· = ·) := by
    rw [List.isChain_map]
    exact (List.isChain_of_mem_splitBy h).imp fun s t hst => by simpa [Scenario.alike] using hst
  intro s hs t ht
  exact (List.isChain_iff_pairwise.1 hchain).forall_of_forall (fun _ _ => rfl)
    (List.mem_map_of_mem hs) (List.mem_map_of_mem ht)

theorem Group.organizational_ofMembers {path group : List Scenario}
    (h : group ∈ path.splitBy Scenario.alike) :
    ∀ s ∈ group, s.isOrganizational = (Group.ofMembers group).organizational := by
  intro s hs
  rw [ofMembers, Bool.eq_iff_iff, List.all_eq_true]
  constructor
  · intro ho t ht
    rw [← isOrganizational_eq_of_mem_splitBy h s hs t ht, ho]
  · exact fun hall => hall s hs

/-- The splitting compares only neighbours, and where the members of a group are alike that decides
as much as all of them. -/
theorem IsGrouping.splitBy_eq {path : List Scenario} {groups : List Group}
    (h : IsGrouping path groups) : path.splitBy Scenario.alike = groups.map (·.members) := by
  refine List.splitBy_eq_iff.2 ⟨?_, ?_, ?_, ?_⟩
  · rw [← h.members, List.flatMap_def]
  · intro hnil
    obtain ⟨g, hg, hmembers⟩ := List.mem_map.1 hnil
    exact h.ne_nil g hg hmembers
  · intro group hgroup
    obtain ⟨g, hg, rfl⟩ := List.mem_map.1 hgroup
    refine (List.pairwise_of_forall_mem_list fun s hs t ht => ?_).isChain
    simp [Scenario.alike, h.alike g hg s hs, h.alike g hg t ht]
  · rw [List.isChain_map]
    refine h.alternate.imp_of_mem_imp fun g k hg hk hgk => ?_
    refine ⟨h.ne_nil g hg, h.ne_nil k hk, ?_⟩
    have hlast := h.alike g hg _ (List.getLast_mem (h.ne_nil g hg))
    have hhead := h.alike k hk _ (List.head_mem (h.ne_nil k hk))
    simpa [Scenario.alike, hlast, hhead] using hgk

theorem isGrouping_splitBy (path : List Scenario) :
    IsGrouping path ((path.splitBy Scenario.alike).map Group.ofMembers) := by
  refine ⟨?_, ?_, ?_, ?_⟩
  · rw [List.flatMap_map, List.flatMap_def]
    exact (congrArg List.flatten (List.map_id _)).trans (List.flatten_splitBy _ path)
  · intro g hg
    obtain ⟨group, hgroup, rfl⟩ := List.mem_map.1 hg
    exact List.ne_nil_of_mem_splitBy hgroup
  · intro g hg
    obtain ⟨group, hgroup, rfl⟩ := List.mem_map.1 hg
    exact Group.organizational_ofMembers hgroup
  · rw [List.isChain_map]
    refine (List.isChain_getLast_head_splitBy Scenario.alike path).imp_of_mem_imp
      fun group next hgroup hnext hbreak => ?_
    obtain ⟨hg, hn, hbreak⟩ := hbreak
    rw [← Group.organizational_ofMembers hgroup _ (List.getLast_mem hg),
      ← Group.organizational_ofMembers hnext _ (List.head_mem hn)]
    simpa [Scenario.alike] using hbreak

theorem isGrouping_iff {path : List Scenario} {groups : List Group} :
    IsGrouping path groups ↔ groups = (path.splitBy Scenario.alike).map Group.ofMembers := by
  constructor
  · intro h
    rw [h.splitBy_eq, List.map_map]
    conv_lhs => rw [← List.map_id groups]
    exact List.map_congr_left fun g hg => (Group.eq_ofMembers (h.ne_nil g hg) (h.alike g hg)).symm
  · intro h
    rw [h]
    exact isGrouping_splitBy path

theorem composeName_eq_of_isGrouping {path : List Scenario} {groups : List Group}
    (h : IsGrouping path groups) : composeName path = [' '].intercalate (groups.map Group.text) := by
  rw [isGrouping_iff.1 h, composeName, List.map_map]
  rfl

theorem IsGrouping.singleton {path : List Scenario} {organizational : Bool} (hne : path ≠ [])
    (h : ∀ s ∈ path, s.isOrganizational = organizational) :
    IsGrouping path [⟨organizational, path⟩] :=
  ⟨by simp, by simpa using hne, by simpa using h, by simp⟩

/-- What a name says of the organizational scenarios above. -/
def headline (above : List Scenario) : Text :=
  if above.isEmpty then [] else (Group.mk true above).text ++ [' ']

theorem Forest.name_standAlone (f : Forest) {s : Scenario} (hs : s.isOrganizational = false) :
    (f.standAlone s).name = headline (f.organizationalAncestors s.id) ++ s.name := by
  have halike : ∀ p ∈ f.organizationalAncestors s.id, p.isOrganizational = true := by
    intro p hp
    exact (List.mem_filter.1 hp).2
  have hname : (f.standAlone s).name = composeName (f.organizationalAncestors s.id ++ [s]) := rfl
  rw [hname]
  by_cases habove : f.organizationalAncestors s.id = []
  · have hgroups : IsGrouping [s] [⟨false, [s]⟩] := .singleton (by simp) (by simp [hs])
    rw [habove, List.nil_append, composeName_eq_of_isGrouping hgroups]
    simp [headline, Group.text]
  · have hgroups : IsGrouping (f.organizationalAncestors s.id ++ [s])
        [⟨true, f.organizationalAncestors s.id⟩, ⟨false, [s]⟩] :=
      ⟨by simp, by simpa using habove, by simpa [hs] using halike, by simp⟩
    rw [composeName_eq_of_isGrouping hgroups]
    simp [headline, habove, Group.text]

def Forest.namedFor (f : Forest) (leaf : Nat) : List Scenario :=
  (f.path leaf).filter fun p => p.isOrganizational || f.firstLeaf? p.id == some leaf

theorem suffix_intercalate_concat (sep : Text) (texts : List Text) (t : Text) :
    t <:+ sep.intercalate (texts ++ [t]) := by
  induction texts with
  | nil => simp
  | cons u rest ih =>
    rw [List.cons_append]
    cases rest with
    | nil => exact ⟨u ++ sep, by simp [List.intercalate_cons_cons]⟩
    | cons v rest =>
      rw [List.cons_append, List.intercalate_cons_cons, ← List.cons_append]
      exact ih.trans (List.suffix_append _ _)

theorem IsGrouping.exists_last {above : List Scenario} {s : Scenario} {groups : List Group}
    (h : IsGrouping (above ++ [s]) groups) : ∃ g, groups.getLast? = some g ∧
      g.members.getLast? = some s ∧ g.text <:+ composeName (above ++ [s]) := by
  have hne : groups ≠ [] := by
    rintro rfl
    simpa using h.members
  obtain ⟨front, g, rfl⟩ := (List.eq_nil_or_concat groups).resolve_left hne
  rw [List.concat_eq_append] at h ⊢
  refine ⟨g, List.getLast?_concat, ?_, ?_⟩
  · have hlast := congrArg List.getLast? h.members
    rw [List.flatMap_append, List.flatMap_singleton, List.getLast?_concat,
      List.getLast?_append_of_ne_nil _ (h.ne_nil g (by simp))] at hlast
    exact hlast
  · rw [composeName_eq_of_isGrouping h, List.map_append, List.map_singleton]
    exact suffix_intercalate_concat _ _ _

theorem Forest.Shaped.namedFor_leaf {f : Forest} (h : f.Shaped) {l : Scenario}
    (hl : l ∈ f.leaves) : ∃ above, f.namedFor l.id = above ++ [l] := by
  obtain ⟨-, -, above, habove⟩ := h.path_spec (h.scenario?_id (List.mem_filter.1 hl).1)
  have hself : (l.isOrganizational || f.firstLeaf? l.id == some l.id) = true := by
    simp [h.firstLeaf?_of_mem_leaves hl]
  refine ⟨above.filter fun p => p.isOrganizational || f.firstLeaf? p.id == some l.id, ?_⟩
  rw [namedFor, habove, List.filter_append, List.filter_singleton, hself]
  rfl

/-- Every path falls into groups in exactly one way, and its name is made of the names of the groups.
So a strict flat scenario has the name of its own scenario, behind one group of all organizational
scenarios above it, if there are any; and the name of a relaxed one is never empty and ends with the
group of its leaf. -/
theorem composeName_groups :
    (∀ path, ∃ groups, IsGrouping path groups ∧
      (∀ others, IsGrouping path others → others = groups) ∧
      composeName path = [' '].intercalate (groups.map Group.text)) ∧
    ∀ (o : ParseOptions) (t : Text) (f : Forest), Forest.parse o t = .ok f →
      (f.flatten .strict).1.map (·.name) = (f.emitted .strict).map (fun s =>
        headline (f.organizationalAncestors s.id) ++ s.name) ∧
      List.Forall₂ (fun l flat => flat.name = composeName (f.namedFor l.id) ∧ flat.name ≠ [] ∧
        ∀ groups, IsGrouping (f.namedFor l.id) groups → ∃ g, groups.getLast? = some g ∧
          g.members.getLast? = some l ∧ g.text <:+ flat.name) f.leaves (f.flatten .relaxed).1 := by
  constructor
  · intro path
    have hgroups := isGrouping_splitBy path
    exact ⟨_, hgroups, fun _ => isGrouping_iff.1, composeName_eq_of_isGrouping hgroups⟩
  · intro o t f h
    have hshaped := Forest.shaped_of_parse h
    have htidy := (Forest.tidy_of_parse h).flatten hshaped .relaxed
    constructor
    · have hstrict : (f.flatten .strict).1 = (f.emitted .strict).map f.standAlone := rfl
      rw [hstrict, List.map_map]
      refine List.map_congr_left fun s hs => f.name_standAlone ?_
      simpa using (List.mem_filter.1 hs).2
    · rw [hshaped.flatten_relaxed] at htidy ⊢
      rw [List.forall₂_map_right_iff, List.forall₂_same]
      intro l hl
      refine ⟨rfl, (htidy _ (List.mem_map_of_mem hl)).name.ne_nil, fun groups hgroups => ?_⟩
      obtain ⟨above, habove⟩ := hshaped.namedFor_leaf hl
      have hname : (f.relaxedScenario l.id).name = composeName (f.namedFor l.id) := rfl
      rw [habove] at hgroups
      rw [hname, habove]
      exact hgroups.exists_last

theorem composeName_groups_grouped : ∃ f, Forest.parse {} groupedDocument = .ok f ∧
    (f.flatten .strict).1.map (·.name) = ["[A] B".toList, "[A / C] D".toList] ∧
    (f.emitted .strict).map (fun s => headline (f.organizationalAncestors s.id) ++ s.name) =
      ["[A] B".toList, "[A / C] D".toList] ∧
    (f.flatten .relaxed).1.map (·.name) = ["[A] B [C] D".toList] ∧
    f.leaves.map (fun l => composeName (f.namedFor l.id)) = ["[A] B [C] D".toList] := by
  have hread : (Forest.parse {} groupedDocument).toOption.map (fun f =>
      ((f.flatten .strict).1.map (·.name), (f.flatten .relaxed).1.map (·.name))) =
      some (["[A] B".toList, "[A / C] D".toList], ["[A] B [C] D".toList]) := by
    decide +kernel
  obtain ⟨f, hf, hnames⟩ := Forest.exists_parse_of_map hread
  obtain ⟨hstrict, hrelaxed⟩ := Prod.ext_iff.1 hnames
  obtain ⟨hheadlines, hleaves⟩ := composeName_groups.2 {} groupedDocument f hf
  refine ⟨f, hf, hstrict, hheadlines.symm.trans hstrict, hrelaxed, ?_⟩
  have hsame : List.Forall₂ (· = ·) (f.leaves.map fun l => composeName (f.namedFor l.id))
      ((f.flatten .relaxed).1.map (·.name)) := by
    rw [List.forall₂_map_left_iff, List.forall₂_map_right_iff]
    exact hleaves.imp fun l flat hflat => hflat.1.symm
  exact (List.forall₂_eq_eq_eq ▸ hsame : _ = _).trans hrelaxed

end ScenarioForest
