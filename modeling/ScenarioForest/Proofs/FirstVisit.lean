import ScenarioForest.Flat
import ScenarioForest.Proofs.Name
import ScenarioForest.Proofs.Path
set_option autoImplicit false

/-!
What relaxed flattening emits, said without flags: the assertions of a scenario stand in the flat
scenario of the first leaf below it.
-/

namespace ScenarioForest

def Forest.firstLeaf? (f : Forest) (p : Nat) : Option Nat :=
  (f.leaves.map (·.id)).find? fun l => (f.path l).any (·.id == p)

/-- The flat scenario of a leaf, from the forest alone. -/
def Forest.relaxedScenario (f : Forest) (leaf : Nat) : FlatScenario :=
  ⟨composeName ((f.path leaf).filter fun p => p.isOrganizational || f.firstLeaf? p.id == some leaf),
    (f.path leaf).flatMap fun p => p.prerequisites ++ p.actions ++
      if f.firstLeaf? p.id = some leaf then p.assertions else []⟩

def Forest.withFlags (f : Forest) (flag : Nat → Bool) : Forest :=
  f.mapScenarios fun s => { s with validated := flag s.id }

def Scenario.flaggedBy (flag : Scenario → Bool) (s : Scenario) : Scenario :=
  { s with validated := flag s }

def Forest.flagged (f : Forest) (flag : Scenario → Bool) : Forest :=
  f.mapScenarios (Scenario.flaggedBy flag)

def Forest.IsFirstChild (f : Forest) (s : Scenario) : Prop :=
  ∃ p, s.parent = some p ∧ (f.children p).head? = some s

/-- The flag that walks through the given scenarios leave. -/
def Scenario.seenIn (seen : List Nat) (s : Scenario) : Scenario :=
  { s with validated := seen.contains s.id && !s.isOrganizational }

def Forest.visited (f : Forest) (seen : List Nat) : Forest := f.mapScenarios (Scenario.seenIn seen)

def Forest.walkAfter (f : Forest) (seen : List Nat) (leaf : Nat) : FlatScenario :=
  ⟨composeName ((f.path leaf).filter fun p => p.isOrganizational || !seen.contains p.id),
    (f.path leaf).flatMap fun p => p.prerequisites ++ p.actions ++
      if seen.contains p.id then [] else p.assertions⟩

def Forest.pathIds (f : Forest) (leaf : Nat) : List Nat := (f.path leaf).map (·.id)

theorem Forest.clearValidated_eq_visited (f : Forest) : f.clearValidated = f.visited [] := by
  simp [clearValidated, visited, mapScenarios, Scenario.seenIn]

theorem Forest.validate_visited (f : Forest) (seen ids : List Nat) :
    (f.visited seen).validate ids = f.visited (seen ++ ids) := by
  have hs : ∀ s : Scenario, (if ids.contains s.id && !(s.seenIn seen).isOrganizational then
      { s.seenIn seen with validated := true } else s.seenIn seen) = s.seenIn (seen ++ ids) := by
    intro s
    have horg : (s.seenIn seen).isOrganizational = s.isOrganizational := rfl
    rw [horg]
    cases hc : ids.contains s.id <;> cases ho : s.isOrganizational <;>
      simp_all [Scenario.seenIn]
  simp only [validate, visited, mapScenarios, List.map_map]
  congr 1
  exact List.map_congr_left fun s _ => hs s

/-- A walk emits the assertions that no earlier walk has come by. -/
theorem Forest.walk_visited (f : Forest) (seen : List Nat) (leaf : Nat) :
    (f.visited seen).walk leaf =
      (f.walkAfter seen leaf, f.visited (seen ++ f.pathIds leaf)) := by
  have hplace : ∀ s : Scenario, (s.seenIn seen).place = s.place := fun _ => rfl
  have hpath : (f.visited seen).path leaf = (f.path leaf).map (Scenario.seenIn seen) :=
    path_mapScenarios hplace leaf
  have horg : ∀ s : Scenario, (s.seenIn seen).isOrganizational = s.isOrganizational := fun _ => rfl
  have hnamed : ∀ s : Scenario, (s.seenIn seen).isNamed =
      (s.isOrganizational || !seen.contains s.id) := by
    intro s
    simp only [Scenario.isNamed, horg]
    cases ho : s.isOrganizational <;> simp [Scenario.seenIn, ho]
  have hsteps : ∀ s : Scenario, (s.seenIn seen).walkSteps =
      s.prerequisites ++ s.actions ++ if seen.contains s.id then [] else s.assertions := by
    intro s
    have hk : ∀ k, (s.seenIn seen).stepsOfKind k = s.stepsOfKind k := fun _ => rfl
    simp only [Scenario.walkSteps, Scenario.prerequisites, Scenario.actions,
      Scenario.assertions, hk]
    congr 1
    cases ho : s.isOrganizational with
    | true =>
      have : s.stepsOfKind .assertion = [] := by
        simpa [Scenario.isOrganizational, Scenario.assertions] using ho
      simp [this]
    | false => simp [Scenario.seenIn, ho]
  have hids : ((f.path leaf).map (Scenario.seenIn seen)).map (·.id) = f.pathIds leaf := by
    simp [pathIds, Scenario.seenIn]
  rw [walk, hpath, hids, validate_visited, walkAfter, List.filter_map,
    composeName_map (g := Scenario.seenIn seen) (fun _ => rfl) horg]
  simp only [Function.comp_def, hnamed, List.flatMap_map, hsteps]

def Forest.walksAfter (f : Forest) (seen : List Nat) : List Nat → List FlatScenario
  | [] => []
  | leaf :: rest => f.walkAfter seen leaf :: f.walksAfter (seen ++ f.pathIds leaf) rest

theorem Forest.walkAll_visited (f : Forest) (seen leaves : List Nat) :
    (f.visited seen).walkAll leaves =
      (f.walksAfter seen leaves, f.visited (seen ++ leaves.flatMap f.pathIds)) := by
  induction leaves generalizing seen with
  | nil => simp [walkAll, walksAfter]
  | cons leaf rest ih => simp [walkAll, walksAfter, walk_visited, ih]

theorem Forest.flatten_relaxed_eq (f : Forest) : f.flatten .relaxed =
    (f.walksAfter [] (f.leaves.map (·.id)), f.visited ((f.leaves.map (·.id)).flatMap f.pathIds)) := by
  rw [flatten, flattenRelaxed, clearValidated_eq_visited, walkAll_visited, List.nil_append]

theorem Forest.clearValidated_flagged (f : Forest) (flag : Scenario → Bool) :
    (f.flagged flag).clearValidated = f.clearValidated := by
  simp [flagged, clearValidated, mapScenarios, Scenario.flaggedBy, Function.comp_def]

theorem Forest.flatten_relaxed_flagged (f : Forest) (flag : Scenario → Bool) :
    (f.flagged flag).flatten .relaxed = f.flatten .relaxed := by
  have hleaves : (f.flagged flag).leaves.map (·.id) = f.leaves.map (·.id) := by
    rw [flagged, leaves_mapScenarios (g := Scenario.flaggedBy flag) fun _ => rfl]
    simp [Scenario.flaggedBy]
  simp only [flatten, flattenRelaxed, hleaves, clearValidated_flagged]

theorem Forest.flatten_relaxed_withFlags (f : Forest) (flag : Nat → Bool) :
    (f.withFlags flag).flatten .relaxed = f.flatten .relaxed :=
  f.flatten_relaxed_flagged fun s => flag s.id

/-- Of different leaves, the first one below a scenario is the one that none before is below. -/
theorem find?_append_cons_eq_some_iff {p : Nat → Bool} {done rest : List Nat} {l : Nat}
    (hl : p l = true) (hnew : l ∉ done) :
    (done ++ l :: rest).find? p = some l ↔ ∀ x ∈ done, p x = false := by
  rw [List.find?_append]
  cases hd : done.find? p with
  | none =>
    rw [List.find?_eq_none] at hd
    simpa [hl] using hd
  | some x =>
    have hx := List.mem_of_find?_eq_some hd
    have hp := List.find?_some hd
    simp only [Option.some_or, Option.some.injEq]
    constructor
    · rintro rfl
      exact absurd hx hnew
    · intro hall
      rw [hall x hx] at hp
      cases hp

section

variable {f : Forest} (h : f.Shaped)

include h

theorem Forest.Shaped.walksAfter_leaves (done : List Nat) {rest : List Nat}
    (hd : done ++ rest = f.leaves.map (·.id)) :
    f.walksAfter (done.flatMap f.pathIds) rest = rest.map f.relaxedScenario := by
  -- Along the run, what was seen is what lies on the paths of the leaves already done.
  induction rest generalizing done with
  | nil => rfl
  | cons l rest ih =>
    have hnext := ih (done ++ [l]) (by simpa using hd)
    rw [List.flatMap_append, List.flatMap_singleton] at hnext
    rw [walksAfter, List.map_cons, hnext]
    congr 1
    have hpair : (done ++ l :: rest).Pairwise (· < ·) := by
      rw [hd, List.pairwise_map]
      exact h.pairwise_filter _
    have hnew : l ∉ done := by
      intro hmem
      have := (List.pairwise_append.1 hpair).2.2 l hmem l (by simp)
      omega
    have hfirst : ∀ p ∈ f.path l, (f.firstLeaf? p.id = some l ↔
        (done.flatMap f.pathIds).contains p.id = false) := by
      intro p hp
      rw [firstLeaf?, ← hd, find?_append_cons_eq_some_iff (by simpa using ⟨p, hp, rfl⟩) hnew]
      simp [pathIds]
    have hbool : ∀ p ∈ f.path l, (f.firstLeaf? p.id == some l) =
        !(done.flatMap f.pathIds).contains p.id := by
      intro p hp
      rw [Bool.eq_iff_iff, beq_iff_eq, hfirst p hp]
      simp
    rw [walkAfter, relaxedScenario]
    congr 1
    · congr 1
      refine List.filter_congr fun p hp => ?_
      rw [hbool p hp]
    · refine List.flatMap_congr fun p hp => ?_
      have hp := hfirst p hp
      cases hc : (done.flatMap f.pathIds).contains p.id <;> simp_all

theorem Forest.Shaped.flatten_relaxed :
    (f.flatten .relaxed).1 = f.leaves.map fun l => f.relaxedScenario l.id := by
  rw [flatten_relaxed_eq]
  simpa [Function.comp_def] using h.walksAfter_leaves [] rfl

theorem Forest.Shaped.leaf_of_isLeaf {l : Nat} (hl : l < f.scenarios.length)
    (hleaf : f.isLeaf l = true) : f.scenarios[l].id = l ∧ f.scenarios[l] ∈ f.leaves := by
  have hid := h.id_eq l _ (List.getElem?_eq_getElem hl)
  exact ⟨hid, by simp [leaves, List.getElem_mem hl, hid, hleaf]⟩

theorem Forest.Shaped.any_path_eq_false {q : Scenario} (hq : q ∈ f.scenarios) {p : Nat}
    (hqp : q.id < p) : (f.path q.id).any (·.id == p) = false := by
  obtain ⟨hall, -⟩ := h.path_spec (h.scenario?_id hq)
  rw [List.any_eq_false]
  intro s hs
  have := (hall s hs).2
  simp
  omega

theorem Forest.Shaped.firstLeaf?_of_run {p l : Nat} (hp : p < f.scenarios.length) (hpl : p ≤ l)
    (hl : l < f.scenarios.length) (hleaf : f.isLeaf l = true)
    (hrun : ∀ k, p ≤ k → k < l → f.isLeaf k = false) : f.firstLeaf? p = some l := by
  have hget : f.scenario? p = some f.scenarios[p] := List.getElem?_eq_getElem hp
  have hid := h.id_eq p _ hget
  obtain ⟨hidl, hmem⟩ := h.leaf_of_isLeaf hl hleaf
  obtain ⟨before, after, hsplit⟩ := List.append_of_mem hmem
  have hpair : f.leaves.Pairwise (·.id < ·.id) := h.pairwise_filter _
  rw [hsplit, List.pairwise_append] at hpair
  have hbefore : ∀ q ∈ before, q.id < l := by
    intro q hq
    have := hpair.2.2 q hq f.scenarios[l] (by simp)
    omega
  have hthrough : (f.path l).any (·.id == p) = true := by
    obtain ⟨-, -, above, habove⟩ := h.path_spec hget
    rw [h.path_run hpl hrun, habove]
    simp [hid]
  have hnew : l ∉ before.map (·.id) := by
    intro hx
    obtain ⟨q, hq, hql⟩ := List.mem_map.1 hx
    have := hbefore q hq
    omega
  rw [firstLeaf?, hsplit, List.map_append, List.map_cons, hidl,
    find?_append_cons_eq_some_iff hthrough hnew]
  intro x hx
  obtain ⟨q, hq, rfl⟩ := List.mem_map.1 hx
  have hq' : q ∈ f.leaves := by simp [hsplit, hq]
  obtain ⟨hqmem, hqleaf⟩ := List.mem_filter.1 hq'
  refine h.any_path_eq_false hqmem ?_
  by_contra hge
  rw [hrun q.id (by omega) (hbefore q hq)] at hqleaf
  cases hqleaf

theorem Forest.Shaped.firstLeaf?_eq_some_iff {p l : Nat} (hp : p < f.scenarios.length) :
    f.firstLeaf? p = some l ↔ p ≤ l ∧ l < f.scenarios.length ∧ f.isLeaf l = true ∧
      ∀ k, p ≤ k → k < l → f.isLeaf k = false := by
  constructor
  · intro hl
    obtain ⟨m, hpm, hm, hleaf, hrun⟩ := h.exists_next_leaf hp
    rw [h.firstLeaf?_of_run hp hpm hm hleaf hrun, Option.some.injEq] at hl
    subst hl
    exact ⟨hpm, hm, hleaf, hrun⟩
  · rintro ⟨hpl, hl, hleaf, hrun⟩
    exact h.firstLeaf?_of_run hp hpl hl hleaf hrun

theorem Forest.Shaped.firstLeaf?_of_mem_leaves {l : Scenario} (hl : l ∈ f.leaves) :
    f.firstLeaf? l.id = some l.id := by
  obtain ⟨hmem, hleaf⟩ := List.mem_filter.1 hl
  have hlen := h.id_lt hmem
  exact h.firstLeaf?_of_run hlen (Nat.le_refl _) hlen hleaf fun k _ _ => by omega

/-- Below a scenario, first children follow each other without a leaf between them. -/
theorem Forest.Shaped.run_of_firstChildren {l : Nat} {s p : Scenario} {above below : List Scenario}
    (hs : f.scenario? l = some s) (hpath : f.path l = above ++ p :: below)
    (hfirst : ∀ q ∈ below, f.IsFirstChild q) :
    ∀ k, p.id ≤ k → k < l → f.isLeaf k = false := by
  induction l using Nat.strongRecOn generalizing s below with
  | ind l ih =>
    intro k hpk hkl
    obtain ⟨-, -, before, hbefore⟩ := h.path_spec hs
    have hid := h.id_eq l s hs
    rcases List.eq_nil_or_concat below with rfl | ⟨init, q, rfl⟩
    · rw [hpath] at hbefore
      obtain ⟨-, heq⟩ := List.append_inj' hbefore rfl
      cases heq
      omega
    · rw [List.concat_eq_append] at hpath hfirst
      have hqs : q = s := by
        rw [hpath, ← List.cons_append, ← List.append_assoc] at hbefore
        simpa using (List.append_inj' hbefore rfl).2
      subst hqs
      obtain ⟨r, hr, hhead⟩ := hfirst q (by simp)
      obtain ⟨hq, -⟩ := h.head?_children.1 hhead
      have hlr : l = r + 1 := by rw [← hid, h.id_eq _ q hq]
      subst hlr
      obtain ⟨t, ht, -⟩ := h.child _ q r hs hr
      rw [h.path_of_child hs hr, ← List.cons_append, ← List.append_assoc] at hpath
      have hinit := (List.append_inj' hpath rfl).1
      by_cases hkr : k = r
      · subst hkr
        exact h.isLeaf_eq_false_iff.2 ⟨q, hs, hr⟩
      · exact ih r (by omega) ht hinit (fun q hq => hfirst q (by simp [hq])) k hpk (by omega)

theorem Forest.Shaped.firstLeaf?_iff_firstChildren {l : Nat} {s p : Scenario}
    {above below : List Scenario} (hs : f.scenario? l = some s) (hleaf : f.isLeaf l = true)
    (hpath : f.path l = above ++ p :: below) :
    f.firstLeaf? p.id = some l ↔ ∀ q ∈ below, f.IsFirstChild q := by
  obtain ⟨hall, hpair, -⟩ := h.path_spec hs
  obtain ⟨hmem, hle⟩ := hall p (by simp [hpath])
  have hp := h.scenario?_id hmem
  have hpl := (List.getElem?_eq_some_iff.1 hp).1
  have hl := (List.getElem?_eq_some_iff.1 hs).1
  rw [h.firstLeaf?_eq_some_iff hpl]
  constructor
  · rintro ⟨-, -, -, hrun⟩ q hq
    obtain ⟨-, -, before, hbefore⟩ := h.path_spec hp
    have hsplit := h.path_run hle hrun
    rw [hbefore, List.append_assoc, List.singleton_append, hpath] at hsplit
    rw [hpath] at hpair
    -- Ids grow along the path, so the scenario occurs in it only once.
    obtain ⟨-, hbelow, habove⟩ := List.pairwise_append.1 hpair
    have hna : p ∉ above := fun hx => Nat.lt_irrefl _ (habove p hx p (by simp))
    have hnb : p ∉ below := fun hx => Nat.lt_irrefl _ ((List.pairwise_cons.1 hbelow).1 p hx)
    obtain ⟨-, -, hbelow⟩ := (List.append_cons_inj_of_notMem hna hnb).1 hsplit
    rw [hbelow] at hq
    obtain ⟨i, hi⟩ := List.mem_iff_getElem?.1 hq
    rw [List.getElem?_drop, List.getElem?_take] at hi
    split at hi
    · next hlt =>
      obtain ⟨t, ht, htp⟩ := h.isLeaf_eq_false_iff.1 (hrun (p.id + i) (by omega) (by omega))
      have htq : t = q := by
        rw [show p.id + i + 1 = p.id + 1 + i by omega] at ht
        exact Option.some.inj (ht.symm.trans hi)
      subst htq
      exact ⟨p.id + i, htp, h.head?_children.2 ⟨ht, htp⟩⟩
    · cases hi
  · intro hfirst
    exact ⟨hle, hl, hleaf, h.run_of_firstChildren hs hpath hfirst⟩

end

/-- Relaxed flattening gives one flat scenario for each leaf, whatever the flags were before. It
holds the assertions of those scenarios on the path that the leaf is the first leaf below, which
are the ones from which the path goes on through first children only. -/
theorem flatten_relaxed_eq_map_leaves {o : ParseOptions} {t : Text} {f : Forest}
    (h : Forest.parse o t = .ok f) (flag : Nat → Bool) :
    ((f.withFlags flag).flatten .relaxed).1 = f.leaves.map (fun l => f.relaxedScenario l.id) ∧
      ∀ l ∈ f.leaves, ∀ above p below, f.path l.id = above ++ p :: below →
        (f.firstLeaf? p.id = some l.id ↔ ∀ q ∈ below, f.IsFirstChild q) := by
  have hshaped := Forest.shaped_of_parse h
  constructor
  · rw [Forest.flatten_relaxed_withFlags, hshaped.flatten_relaxed]
  · intro l hl above p below hpath
    obtain ⟨hmem, hleaf⟩ := List.mem_filter.1 hl
    exact hshaped.firstLeaf?_iff_firstChildren (hshaped.scenario?_id hmem) hleaf hpath

def branchingDocument : Text :=
  "Scenario: A\nGiven x\nThen a\nThen b # why\n    Scenario: B\n    When y\n    Scenario: C\n    Then c".toList

def branchingFlat : List FlatScenario :=
  [⟨"A [B]".toList, [⟨['x'], .prerequisite, none, none⟩, ⟨['a'], .assertion, none, none⟩,
      ⟨['b'], .assertion, some "why".toList, none⟩, ⟨['y'], .action, none, none⟩]⟩,
    ⟨['C'], [⟨['x'], .prerequisite, none, none⟩, ⟨['c'], .assertion, none, none⟩]⟩]

theorem flatten_relaxed_branching : ∃ f, Forest.parse {} branchingDocument = .ok f ∧
    ((f.withFlags fun _ => true).flatten .relaxed).1 =
      [f.relaxedScenario 1, f.relaxedScenario 2] ∧
    ((f.withFlags fun _ => true).flatten .relaxed).1 = branchingFlat := by
  have hread : (Forest.parse {} branchingDocument).toOption.map (fun f =>
      (f.leaves.map (·.id), [f.relaxedScenario 1, f.relaxedScenario 2])) =
      some ([1, 2], branchingFlat) := by
    decide +kernel
  obtain ⟨f, hf, hshown⟩ := Forest.exists_parse_of_map hread
  obtain ⟨hleaves, hflat⟩ := Prod.mk.inj hshown
  have hrelaxed : ((f.withFlags fun _ => true).flatten .relaxed).1 =
      [f.relaxedScenario 1, f.relaxedScenario 2] := by
    rw [(flatten_relaxed_eq_map_leaves hf fun _ => true).1, ← Function.comp_def, ← List.map_map,
      hleaves]
    rfl
  exact ⟨f, hf, hrelaxed, hrelaxed.trans hflat⟩

end ScenarioForest
