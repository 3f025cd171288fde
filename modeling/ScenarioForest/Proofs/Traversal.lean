import ScenarioForest.Flat
import ScenarioForest.Proofs.Preorder
set_option autoImplicit false

/-!
Strict flattening as one traversal of the trees, which carries down what the scenarios above a
scenario give to it.
-/

namespace ScenarioForest

/-- Trees side by side: the root of the first one, what is below it, and the trees after it. -/
inductive Trees where
  | nil
  | cons (root : Scenario) (below rest : Trees)

def Trees.roots : Trees → List Scenario
  | .nil => []
  | .cons s _ rest => s :: rest.roots

def Trees.scenarios : Trees → List Scenario
  | .nil => []
  | .cons s below rest => s :: (below.scenarios ++ rest.scenarios)

def Trees.Fit (f : Forest) : Trees → Prop
  | .nil => True
  | .cons s below rest => below.roots = f.children s.id ∧ below.Fit f ∧ rest.Fit f

structure Forest.IsMadeOf (f : Forest) (trees : Trees) : Prop where
  roots_eq : trees.roots = f.roots
  fit : trees.Fit f

/-- What a traversal carries down to a scenario: what those above set up and do, and which of them
only group. -/
structure Carried where
  prerequisites : List Step
  actions : List Step
  groups : List Scenario

def Carried.empty : Carried := ⟨[], [], []⟩

def Carried.through (c : Carried) (s : Scenario) : Carried :=
  ⟨c.prerequisites ++ s.prerequisites, c.actions ++ s.actions,
    if s.isOrganizational then c.groups ++ [s] else c.groups⟩

/-- What is emitted on a visit: something for each scenario that checks something. -/
def Carried.emit (c : Carried) (s : Scenario) : List FlatScenario :=
  if s.isOrganizational then []
  else [⟨composeName (c.groups ++ [s]), c.prerequisites ++ c.actions ++ s.steps⟩]

def Trees.traverse : Trees → Carried → List FlatScenario
  | .nil, _ => []
  | .cons s below rest, c => c.emit s ++ below.traverse (c.through s) ++ rest.traverse c

def Carried.ofAbove (above : List Scenario) : Carried :=
  ⟨above.flatMap (·.prerequisites), above.flatMap (·.actions), above.filter (·.isOrganizational)⟩

theorem Carried.through_ofAbove (above : List Scenario) (s : Scenario) :
    (Carried.ofAbove above).through s = Carried.ofAbove (above ++ [s]) := by
  cases ho : s.isOrganizational <;> simp [Carried.ofAbove, through, ho]

theorem Forest.emit_ofAbove (f : Forest) (s : Scenario) :
    (Carried.ofAbove (f.ancestors s.id)).emit s =
      ([s].filter (!·.isOrganizational)).map f.standAlone := by
  cases ho : s.isOrganizational <;> simp [Carried.ofAbove, Carried.emit, standAlone, ho]

theorem Trees.roots_subset (trees : Trees) : trees.roots ⊆ trees.scenarios := by
  induction trees with
  | nil => simp [roots]
  | cons s below rest _ ih =>
    intro r hr
    rcases List.mem_cons.1 hr with rfl | hr
    · simp [scenarios]
    · simp [scenarios, ih hr]

theorem Trees.Fit.unique {f : Forest} {first second : Trees} (h : first.Fit f)
    (hsecond : second.Fit f) (hroots : first.roots = second.roots) : first = second := by
  induction first generalizing second with
  | nil =>
    cases second with
    | nil => rfl
    | cons t below rest => cases hroots
  | cons s below rest ihbelow ihrest =>
    cases second with
    | nil => cases hroots
    | cons t below' rest' =>
      obtain ⟨hbelow, hfit, hfitrest⟩ := h
      obtain ⟨hbelow', hfit', hfitrest'⟩ := hsecond
      obtain ⟨rfl, hrest⟩ := List.cons.inj hroots
      rw [ihbelow hfit hfit' (hbelow.trans hbelow'.symm), ihrest hfitrest hfitrest' hrest]

theorem Trees.Fit.mem_of_mem_children {f : Forest} {trees : Trees} (h : trees.Fit f)
    {s c : Scenario} (hs : s ∈ trees.scenarios) (hc : c ∈ f.children s.id) :
    c ∈ trees.scenarios := by
  induction trees with
  | nil => cases hs
  | cons r below rest ihbelow ihrest =>
    obtain ⟨hbelow, hfit, hfitrest⟩ := h
    simp only [scenarios, List.mem_cons, List.mem_append] at hs ⊢
    rcases hs with rfl | hs | hs
    · rw [← hbelow] at hc
      exact .inr (.inl (below.roots_subset hc))
    · exact .inr (.inl (ihbelow hfit hs))
    · exact .inr (.inr (ihrest hfitrest hs))

section

variable {f : Forest} (h : f.Shaped)

include h

/-- Every scenario of a forest has trees below it, since those below come later. -/
theorem Forest.Shaped.exists_fit (n : Nat) (roots : List Scenario)
    (hroots : ∀ s ∈ roots, s ∈ f.scenarios ∧ f.scenarios.length ≤ s.id + n) :
    ∃ trees : Trees, trees.roots = roots ∧ trees.Fit f := by
  -- `n` counts the ids that are left, and every child uses up one.
  induction n generalizing roots with
  | zero =>
    cases roots with
    | nil => exact ⟨.nil, rfl, trivial⟩
    | cons s rest =>
      obtain ⟨hmem, hle⟩ := hroots s (by simp)
      have := h.id_lt hmem
      omega
  | succ n ih =>
    induction roots with
    | nil => exact ⟨.nil, rfl, trivial⟩
    | cons s rest ihrest =>
      obtain ⟨⟨hmem, hle⟩, hrest⟩ := List.forall_mem_cons.1 hroots
      obtain ⟨trees, htrees, hfit⟩ := ihrest hrest
      obtain ⟨below, hbelow, hfitbelow⟩ := ih (f.children s.id) fun c hc => by
        have hlt := h.lt_of_mem_children hc
        exact ⟨(mem_children.1 hc).1, by omega⟩
      exact ⟨.cons s below trees, by rw [Trees.roots, htrees], hbelow, hfitbelow, hfit⟩

/-- Below the same scenarios, a traversal emits what stands alone, tree by tree. -/
theorem Forest.Shaped.traverse_ofAbove {trees : Trees} (hfit : trees.Fit f) {above : List Scenario}
    (hroots : ∀ s ∈ trees.roots, s ∈ f.scenarios ∧ f.ancestors s.id = above) :
    trees.traverse (Carried.ofAbove above) =
      (trees.scenarios.filter (!·.isOrganizational)).map f.standAlone := by
  induction trees generalizing above with
  | nil => rfl
  | cons s below rest ihbelow ihrest =>
    obtain ⟨hbelow, hfitbelow, hfitrest⟩ := hfit
    obtain ⟨⟨hmem, habove⟩, hrest⟩ := List.forall_mem_cons.1 hroots
    have hchildren : ∀ c ∈ below.roots, c ∈ f.scenarios ∧ f.ancestors c.id = above ++ [s] := by
      intro c hc
      rw [hbelow] at hc
      exact ⟨(mem_children.1 hc).1, by rw [h.ancestors_of_mem_children hmem hc, habove]⟩
    have hsplit : s :: (below.scenarios ++ rest.scenarios) =
        [s] ++ below.scenarios ++ rest.scenarios := rfl
    rw [Trees.traverse, Carried.through_ofAbove, ihbelow hfitbelow hchildren, ihrest hfitrest hrest,
      ← habove, f.emit_ofAbove, Trees.scenarios, hsplit]
    simp only [List.filter_append, List.map_append]

theorem Forest.Shaped.exists_root_of_mem {trees : Trees} (hfit : trees.Fit f)
    (hroots : ∀ s ∈ trees.roots, s ∈ f.scenarios) {u : Scenario} (hu : u ∈ trees.scenarios) :
    u ∈ f.scenarios ∧ ∃ r ∈ trees.roots, r ∈ f.path u.id := by
  induction trees with
  | nil => cases hu
  | cons s below rest ihbelow ihrest =>
    obtain ⟨hbelow, hfitbelow, hfitrest⟩ := hfit
    obtain ⟨hs, hrest⟩ := List.forall_mem_cons.1 hroots
    simp only [Trees.scenarios, List.mem_cons, List.mem_append] at hu
    rcases hu with rfl | hu | hu
    · exact ⟨hs, u, by simp [Trees.roots], h.mem_path_self hs⟩
    · rw [hbelow] at ihbelow
      obtain ⟨hmem, c, hc, hcu⟩ := ihbelow hfitbelow (fun c hc => (mem_children.1 hc).1) hu
      exact ⟨hmem, s, by simp [Trees.roots], (h.mem_path_of_mem_children hs hmem hc hcu).1⟩
    · obtain ⟨hmem, r, hr, hru⟩ := ihrest hfitrest hrest hu
      exact ⟨hmem, r, by simp [Trees.roots, hr], hru⟩

theorem Forest.Shaped.mem_path_of_below {s u : Scenario} {below : Trees} (hs : s ∈ f.scenarios)
    (hbelow : below.roots = f.children s.id) (hfit : below.Fit f) (hu : u ∈ below.scenarios) :
    u ∈ f.scenarios ∧ s ∈ f.path u.id ∧ s.id < u.id := by
  have hin : ∀ c ∈ below.roots, c ∈ f.scenarios := by
    rw [hbelow]
    exact fun c hc => (mem_children.1 hc).1
  obtain ⟨hmem, c, hc, hcu⟩ := h.exists_root_of_mem hfit hin hu
  rw [hbelow] at hc
  exact ⟨hmem, h.mem_path_of_mem_children hs hmem hc hcu⟩

theorem Forest.Shaped.lt_of_later {s v : Scenario} {rest : Trees} (hfit : rest.Fit f)
    (hroots : ∀ r ∈ rest.roots, r ∈ f.scenarios ∧ r.level = s.level)
    (hlater : ∀ r ∈ rest.roots, s.id < r.id) (hv : v ∈ rest.scenarios) :
    s.id < v.id ∧ ∀ u ∈ f.scenarios, s ∈ f.path u.id → u.id < v.id := by
  obtain ⟨hmem, r, hr, hrv⟩ := h.exists_root_of_mem hfit (fun r hr => (hroots r hr).1) hv
  obtain ⟨hall, -⟩ := h.path_spec (h.scenario?_id hmem)
  have hsr := hlater r hr
  have hle := (hall r hrv).2
  refine ⟨by omega, fun u hu hsu => ?_⟩
  have := h.lt_of_mem_path (hroots r hr).1 hu hsu hsr (hroots r hr).2
  omega

/-- Trees side by side list their scenarios by id. Roots of one level keep their blocks apart. -/
theorem Forest.Shaped.pairwise_scenarios {trees : Trees} (hfit : trees.Fit f) {level : Nat}
    (hroots : ∀ s ∈ trees.roots, s ∈ f.scenarios ∧ s.level = level)
    (hpair : trees.roots.Pairwise (·.id < ·.id)) : trees.scenarios.Pairwise (·.id < ·.id) := by
  induction trees generalizing level with
  | nil => exact .nil
  | cons s below rest ihbelow ihrest =>
    obtain ⟨hbelow, hfitbelow, hfitrest⟩ := hfit
    obtain ⟨⟨hs, rfl⟩, hrest⟩ := List.forall_mem_cons.1 hroots
    obtain ⟨hfirst, hpairrest⟩ := List.pairwise_cons.1 hpair
    have hchildren : ∀ c ∈ below.roots, c ∈ f.scenarios ∧ c.level = s.level + 1 := by
      rw [hbelow]
      exact fun c hc => ⟨(mem_children.1 hc).1, h.level_of_mem_children hs hc⟩
    have hpairbelow : below.roots.Pairwise (·.id < ·.id) := by
      rw [hbelow]
      exact h.pairwise_filter _
    rw [Trees.scenarios, List.pairwise_cons, List.pairwise_append]
    refine ⟨fun u hu => ?_, ihbelow hfitbelow hchildren hpairbelow, ihrest hfitrest hrest hpairrest,
      fun u hu v hv => ?_⟩
    · rcases List.mem_append.1 hu with hu | hu
      · exact (h.mem_path_of_below hs hbelow hfitbelow hu).2.2
      · exact (h.lt_of_later hfitrest hrest hfirst hu).1
    · obtain ⟨hmem, hsu, -⟩ := h.mem_path_of_below hs hbelow hfitbelow hu
      exact (h.lt_of_later hfitrest hrest hfirst hv).2 u hmem hsu

theorem Forest.Shaped.mem_scenarios_of_isMadeOf {trees : Trees} (hmade : f.IsMadeOf trees)
    (i : Nat) {s : Scenario} (hs : f.scenario? i = some s) : s ∈ trees.scenarios := by
  have hmem := List.mem_of_getElem? hs
  induction i using Nat.strongRecOn generalizing s with
  | ind i ih =>
    cases hp : s.parent with
    | none =>
      refine trees.roots_subset ?_
      rw [hmade.roots_eq, roots, List.mem_filter]
      exact ⟨hmem, by simp [Scenario.isRoot, hp]⟩
    | some p =>
      obtain ⟨t, ht, hlt, -⟩ := h.child i s p hs hp
      have hin := ih p hlt ht (List.mem_of_getElem? ht)
      rw [← h.id_eq p t ht] at hp
      exact hmade.fit.mem_of_mem_children hin (mem_children.2 ⟨hmem, hp⟩)

theorem Forest.Shaped.scenarios_eq_of_isMadeOf {trees : Trees} (hmade : f.IsMadeOf trees) :
    trees.scenarios = f.scenarios := by
  have hroots : ∀ s ∈ trees.roots, s ∈ f.scenarios ∧ s.level = 1 := by
    rw [hmade.roots_eq]
    intro s hs
    obtain ⟨hmem, hr⟩ := List.mem_filter.1 hs
    exact ⟨hmem, h.root s.id s (h.scenario?_id hmem) (by simpa [Scenario.isRoot] using hr)⟩
  have hpair : trees.roots.Pairwise (·.id < ·.id) := by
    rw [hmade.roots_eq]
    exact h.pairwise_filter _
  refine eq_of_pairwise_ids (h.pairwise_scenarios hmade.fit hroots hpair) h.pairwise_ids fun s => ?_
  constructor
  · intro hs
    exact (h.exists_root_of_mem hmade.fit (fun r hr => (hroots r hr).1) hs).1
  · intro hs
    exact h.mem_scenarios_of_isMadeOf hmade s.id (h.scenario?_id hs)

theorem Forest.Shaped.existsUnique_isMadeOf : ∃! trees, f.IsMadeOf trees := by
  obtain ⟨trees, hroots, hfit⟩ := h.exists_fit f.scenarios.length f.roots fun s hs =>
    ⟨(List.mem_filter.1 hs).1, by omega⟩
  refine ⟨trees, ⟨hroots, hfit⟩, fun others hothers => ?_⟩
  exact hothers.fit.unique hfit (hothers.roots_eq.trans hroots.symm)

theorem Forest.Shaped.flattenStrict_eq_traverse {trees : Trees} (hmade : f.IsMadeOf trees) :
    f.flattenStrict = trees.traverse .empty := by
  have hroots : ∀ s ∈ trees.roots, s ∈ f.scenarios ∧ f.ancestors s.id = [] := by
    rw [hmade.roots_eq]
    intro s hs
    obtain ⟨hmem, hr⟩ := List.mem_filter.1 hs
    have hget := h.scenario?_id hmem
    have hpath := path_of_root hget (by simpa [Scenario.isRoot] using hr)
    rw [path_eq_concat hget] at hpath
    exact ⟨hmem, List.append_cancel_right hpath⟩
  have htraverse := h.traverse_ofAbove hmade.fit hroots
  rw [h.scenarios_eq_of_isMadeOf hmade] at htraverse
  exact htraverse.symm

end

/-- A document has its trees, in just one way, and strict flattening is one traversal of them. -/
theorem flatten_strict_eq_traverse {o : ParseOptions} {t : Text} {f : Forest}
    (h : Forest.parse o t = .ok f) : (∃! trees, f.IsMadeOf trees) ∧
      ∀ trees, f.IsMadeOf trees → (f.flatten .strict).1 = trees.traverse .empty := by
  have hshaped := Forest.shaped_of_parse h
  exact ⟨hshaped.existsUnique_isMadeOf, fun trees hmade => hshaped.flattenStrict_eq_traverse hmade⟩

def groupedDocument : Text :=
  "Scenario: A\nGiven a\n    Scenario: B\n    When b\n    Then b checked\n        Scenario: C\n        When c\n            Scenario: D\n            Then d checked".toList

def groupedFlat : List FlatScenario :=
  [⟨"[A] B".toList, [⟨['a'], .prerequisite, none, none⟩, ⟨['b'], .action, none, none⟩,
      ⟨"b checked".toList, .assertion, none, none⟩]⟩,
    ⟨"[A / C] D".toList, [⟨['a'], .prerequisite, none, none⟩, ⟨['b'], .action, none, none⟩,
      ⟨['c'], .action, none, none⟩, ⟨"d checked".toList, .assertion, none, none⟩]⟩]

theorem flatten_strict_grouped : ∃ f, Forest.parse {} groupedDocument = .ok f ∧
    ∃ trees, f.IsMadeOf trees ∧ (f.flatten .strict).1 = trees.traverse .empty ∧
      trees.traverse .empty = groupedFlat := by
  have hread : (Forest.parse {} groupedDocument).toOption.map (fun f => (f.flatten .strict).1) =
      some groupedFlat := by
    decide +kernel
  obtain ⟨f, hf, hflat⟩ := Forest.exists_parse_of_map hread
  obtain ⟨⟨trees, hmade, -⟩, htraverse⟩ := flatten_strict_eq_traverse hf
  exact ⟨f, hf, trees, hmade, htraverse trees hmade, (htraverse trees hmade).symm.trans hflat⟩

end ScenarioForest
