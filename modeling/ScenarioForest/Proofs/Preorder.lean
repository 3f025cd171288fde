import ScenarioForest.Proofs.Path
set_option autoImplicit false

/-!
Document order is a preorder. What lies below a scenario follows it in one block, and levels alone
tell whether a path comes by a scenario.
-/

namespace ScenarioForest

structure Forest.LeadsTo (f : Forest) (s : Scenario) (path : List Scenario) : Prop where
  length_eq : path.length = s.level
  nodup_ids : (path.map (·.id)).Nodup
  levels : path.map (·.level) = List.range' 1 s.level
  child : path.IsChain fun p c => c ∈ f.children p.id
  last : path.getLast? = some s

def Forest.DeeperOn (f : Forest) (level i j : Nat) : Prop :=
  ∀ k u, i < k → k ≤ j → f.scenario? k = some u → level < u.level

/-- A climb from parent to parent that looks at no ids, with what it meets, the nearest first.
A climb that never ended would not be one. -/
inductive Forest.Climbs (f : Forest) : Option Scenario → List Scenario → Prop where
  | top : f.Climbs none []
  | up {p : Scenario} {above : List Scenario} : f.Climbs (f.parent? p.id) above →
      f.Climbs (some p) (p :: above)

theorem Forest.Climbs.unique {f : Forest} {start : Option Scenario} {first second : List Scenario}
    (h : f.Climbs start first) (hsecond : f.Climbs start second) : first = second := by
  induction h generalizing second with
  | top =>
    cases hsecond
    rfl
  | up _ ih =>
    cases hsecond with
    | up hrest => rw [ih hrest]

theorem Forest.mem_children {f : Forest} {p : Nat} {s : Scenario} :
    s ∈ f.children p ↔ s ∈ f.scenarios ∧ s.parent = some p := by
  simp [children]

section

variable {f : Forest} (h : f.Shaped)

include h

theorem Forest.Shaped.lt_of_mem_children {p : Nat} {c : Scenario} (hc : c ∈ f.children p) :
    p < c.id := by
  obtain ⟨hmem, hp⟩ := mem_children.1 hc
  obtain ⟨-, -, hlt, -⟩ := h.child c.id c p (h.scenario?_id hmem) hp
  exact hlt

theorem Forest.Shaped.level_of_mem_children {s c : Scenario} (hs : s ∈ f.scenarios)
    (hc : c ∈ f.children s.id) : c.level = s.level + 1 := by
  obtain ⟨hmem, hp⟩ := mem_children.1 hc
  obtain ⟨t, ht, -, hl, -⟩ := h.child c.id c s.id (h.scenario?_id hmem) hp
  rw [h.scenario?_id hs] at ht
  cases ht
  exact hl

theorem Forest.Shaped.ancestors_of_mem_children {s c : Scenario} (hs : s ∈ f.scenarios)
    (hc : c ∈ f.children s.id) : f.ancestors c.id = f.ancestors s.id ++ [s] := by
  obtain ⟨hmem, hp⟩ := mem_children.1 hc
  have hget := h.scenario?_id hmem
  have hpath := h.path_of_child hget hp
  rw [path_eq_concat hget] at hpath
  rw [List.append_cancel_right hpath, path_eq_concat (h.scenario?_id hs)]

theorem Forest.Shaped.parent?_lt {i : Nat} {p : Scenario} (hp : f.parent? i = some p) :
    p.id < i := by
  obtain ⟨q, hq, hget⟩ := Option.bind_eq_some_iff.1 hp
  obtain ⟨s, hs, hpar⟩ := Option.bind_eq_some_iff.1 hq
  obtain ⟨-, -, hlt, -⟩ := h.child i s q hs hpar
  rw [h.id_eq q p hget]
  exact hlt

theorem Forest.Shaped.climbs_ancestors (i : Nat) :
    f.Climbs (f.parent? i) (f.ancestors i).reverse := by
  induction i using Nat.strongRecOn with
  | ind i ih =>
    rw [ancestors]
    cases hp : f.parent? i with
    | none => exact .top
    | some p =>
      have hlt := h.parent?_lt hp
      simp only [hlt, if_true, List.reverse_append, List.reverse_singleton, List.singleton_append]
      exact .up (ih p.id hlt)

theorem Forest.Shaped.climbs_iff {i : Nat} {above : List Scenario} :
    f.Climbs (f.parent? i) above ↔ f.ancestors i = above.reverse := by
  constructor
  · intro hc
    rw [hc.unique (h.climbs_ancestors i), List.reverse_reverse]
  · intro ha
    have hc := h.climbs_ancestors i
    rw [ha, List.reverse_reverse] at hc
    exact hc

theorem Forest.Shaped.map_level_path {i : Nat} {s : Scenario} (hs : f.scenario? i = some s) :
    (f.path i).map (·.level) = List.range' 1 s.level := by
  induction i using Nat.strongRecOn generalizing s with
  | ind i ih =>
    cases hp : s.parent with
    | none =>
      rw [path_of_root hs hp, h.root i s hs hp]
      simp [h.root i s hs hp]
    | some p =>
      obtain ⟨t, ht, hlt, hl, -⟩ := h.child i s p hs hp
      rw [h.path_of_child hs hp, List.map_append, ih p hlt ht, hl, List.range'_1_concat]
      simp [hl, Nat.add_comm]

theorem Forest.Shaped.isChain_path {i : Nat} {s : Scenario} (hs : f.scenario? i = some s) :
    (f.path i).IsChain fun p c => c ∈ f.children p.id := by
  induction i using Nat.strongRecOn generalizing s with
  | ind i ih =>
    cases hp : s.parent with
    | none =>
      rw [path_of_root hs hp]
      exact .singleton s
    | some p =>
      obtain ⟨t, ht, hlt, -⟩ := h.child i s p hs hp
      obtain ⟨-, -, above, habove⟩ := h.path_spec ht
      rw [h.path_of_child hs hp]
      refine List.isChain_append.2 ⟨ih p hlt ht, .singleton s, fun q hq c hc => ?_⟩
      rw [habove, List.getLast?_concat, Option.mem_some_iff] at hq
      rw [List.head?_singleton, Option.mem_some_iff] at hc
      subst hq hc
      rw [mem_children, h.id_eq p t ht]
      exact ⟨List.mem_of_getElem? hs, hp⟩

theorem Forest.Shaped.leadsTo_path {i : Nat} {s : Scenario} (hs : f.scenario? i = some s) :
    f.LeadsTo s (f.path i) where
  length_eq := by
    rw [← List.length_map (·.level), h.map_level_path hs, List.length_range']
  nodup_ids := by
    obtain ⟨-, hpair, -⟩ := h.path_spec hs
    exact (List.pairwise_map.2 hpair).imp Nat.ne_of_lt
  levels := h.map_level_path hs
  child := h.isChain_path hs
  last := by
    obtain ⟨-, -, above, habove⟩ := h.path_spec hs
    rw [habove, List.getLast?_concat]

theorem Forest.Shaped.mem_path_self {s : Scenario} (hs : s ∈ f.scenarios) : s ∈ f.path s.id := by
  rw [path_eq_concat (h.scenario?_id hs)]
  simp

theorem Forest.Shaped.mem_path_trans {i : Nat} {s t u : Scenario} (hu : f.scenario? i = some u)
    (hs : s ∈ f.path t.id) (ht : t ∈ f.path i) : s ∈ f.path i := by
  induction i using Nat.strongRecOn generalizing u with
  | ind i ih =>
    have hself : t = u → s ∈ f.path i := by
      rintro rfl
      rw [← h.id_eq i t hu]
      exact hs
    cases hp : u.parent with
    | none =>
      rw [path_of_root hu hp, List.mem_singleton] at ht
      exact hself ht
    | some p =>
      obtain ⟨q, hq, hlt, -⟩ := h.child i u p hu hp
      rw [h.path_of_child hu hp, List.mem_append, List.mem_singleton] at ht
      rcases ht with ht | ht
      · rw [h.path_of_child hu hp, List.mem_append]
        exact .inl (ih p hlt hq ht)
      · exact hself ht

theorem Forest.Shaped.mem_path_of_mem_children {s c u : Scenario} (hs : s ∈ f.scenarios)
    (hu : u ∈ f.scenarios) (hc : c ∈ f.children s.id) (hcu : c ∈ f.path u.id) :
    s ∈ f.path u.id ∧ s.id < u.id := by
  have huget := h.scenario?_id hu
  have hsc : s ∈ f.path c.id := by
    rw [path, h.ancestors_of_mem_children hs hc]
    simp
  obtain ⟨hall, -⟩ := h.path_spec huget
  have hlt := h.lt_of_mem_children hc
  have hle := (hall c hcu).2
  exact ⟨h.mem_path_trans huget hsc hcu, by omega⟩

theorem Forest.Shaped.le_parent_of_deeperOn {i j p : Nat} {s t : Scenario}
    (hs : f.scenario? i = some s) (ht : f.scenario? j = some t) (hp : t.parent = some p)
    (hij : i < j) (hdeep : f.DeeperOn s.level i j) : i ≤ p := by
  obtain ⟨q, -, -, hl, hbetween⟩ := h.child j t p ht hp
  by_contra hpi
  have hsq := hbetween i s (by omega) hij hs
  have hst := hdeep j t hij (Nat.le_refl j) ht
  omega

theorem Forest.Shaped.deeperOn_of_parent {i j p : Nat} {s t : Scenario}
    (hs : f.scenario? i = some s) (ht : f.scenario? j = some t) (hp : t.parent = some p)
    (hip : i ≤ p) (hdeep : f.DeeperOn s.level i p) : f.DeeperOn s.level i j := by
  obtain ⟨q, hq, hlt, hl, hbetween⟩ := h.child j t p ht hp
  have hsq : s.level ≤ q.level := by
    by_cases heq : i = p
    · subst heq
      rw [hs] at hq
      cases hq
      exact Nat.le_refl _
    · exact Nat.le_of_lt (hdeep p q (by omega) (Nat.le_refl p) hq)
  intro k u hik hkj hu
  by_cases hkp : k ≤ p
  · exact hdeep k u hik hkp hu
  · by_cases hkeq : k = j
    · subst hkeq
      rw [ht] at hu
      cases hu
      omega
    · have := hbetween k u (by omega) (by omega) hu
      omega

/-- A path comes by an earlier scenario exactly when everything since stands deeper. -/
theorem Forest.Shaped.mem_path_iff {i j : Nat} {s t : Scenario} (hs : f.scenario? i = some s)
    (ht : f.scenario? j = some t) : s ∈ f.path j ↔ i ≤ j ∧ f.DeeperOn s.level i j := by
  induction j using Nat.strongRecOn generalizing t with
  | ind j ih =>
    by_cases hij : i = j
    · subst hij
      rw [hs] at ht
      cases ht
      obtain ⟨-, -, above, habove⟩ := h.path_spec hs
      simp only [habove, List.mem_append, List.mem_singleton, or_true, Nat.le_refl, true_and,
        true_iff]
      intro k u hik hki
      omega
    · have hne : s ≠ t := by
        rintro rfl
        exact hij ((h.id_eq i s hs).symm.trans (h.id_eq j s ht))
      cases hp : t.parent with
      | none =>
        rw [path_of_root ht hp, List.mem_singleton]
        refine ⟨fun heq => absurd heq hne, fun hin => ?_⟩
        obtain ⟨hle, hdeep⟩ := hin
        have hroot := h.root j t ht hp
        have hpos := h.level_pos hs
        have := hdeep j t (by omega) (Nat.le_refl j) ht
        omega
      | some p =>
        -- A child adds only itself to the path of its parent.
        obtain ⟨q, hq, hlt, -⟩ := h.child j t p ht hp
        simp only [h.path_of_child ht hp, List.mem_append, List.mem_singleton, hne, or_false,
          ih p hlt hq]
        constructor
        · intro hin
          obtain ⟨hip, hdeep⟩ := hin
          exact ⟨by omega, h.deeperOn_of_parent hs ht hp hip hdeep⟩
        · intro hin
          obtain ⟨hle, hdeep⟩ := hin
          refine ⟨h.le_parent_of_deeperOn hs ht hp (by omega) hdeep, fun k u hik hkp hu => ?_⟩
          exact hdeep k u hik (by omega) hu

theorem Forest.Shaped.lt_of_mem_path {s t u : Scenario} (ht : t ∈ f.scenarios)
    (hu : u ∈ f.scenarios) (hsu : s ∈ f.path u.id) (hst : s.id < t.id)
    (hl : t.level = s.level) : u.id < t.id := by
  have huget := h.scenario?_id hu
  obtain ⟨hall, -⟩ := h.path_spec huget
  obtain ⟨-, hdeep⟩ := (h.mem_path_iff (h.scenario?_id (hall s hsu).1) huget).1 hsu
  by_contra hle
  have := hdeep t.id t hst (by omega) (h.scenario?_id ht)
  omega

/-- The first later scenario that stands no deeper ends the block of a scenario. -/
theorem Forest.Shaped.exists_block {i : Nat} {s : Scenario} (hs : f.scenario? i = some s) :
    ∃ stop, i < stop ∧ stop ≤ f.scenarios.length ∧
      ∀ j t, f.scenario? j = some t → (s ∈ f.path j ↔ i ≤ j ∧ j < stop) := by
  have hi := (List.getElem?_eq_some_iff.1 hs).1
  have hend : i < f.scenarios.length ∧
      ∀ u ∈ f.scenario? f.scenarios.length, u.level ≤ s.level := by
    simp [hi, scenario?]
  have hex : ∃ k, i < k ∧ ∀ u ∈ f.scenario? k, u.level ≤ s.level := ⟨_, hend⟩
  refine ⟨Nat.find hex, (Nat.find_spec hex).1, Nat.find_min' hex hend, fun j t ht => ?_⟩
  have hj := (List.getElem?_eq_some_iff.1 ht).1
  rw [h.mem_path_iff hs ht]
  constructor
  · intro hin
    obtain ⟨hle, hdeep⟩ := hin
    refine ⟨hle, ?_⟩
    by_contra hstop
    obtain ⟨hlt, hout⟩ := Nat.find_spec hex
    have hget : f.scenario? (Nat.find hex) = some f.scenarios[Nat.find hex] :=
      List.getElem?_eq_getElem (by omega)
    have hin := hdeep _ _ hlt (by omega) hget
    have := hout _ hget
    omega
  · intro hin
    obtain ⟨hle, hstop⟩ := hin
    refine ⟨hle, fun k u hik hkj hu => ?_⟩
    by_contra hout
    refine Nat.find_min hex (Nat.lt_of_le_of_lt hkj hstop) ⟨hik, fun v hv => ?_⟩
    rw [hu, Option.mem_some_iff] at hv
    subst hv
    omega

end

/-- The paths of a document follow its levels. A path comes by exactly those scenarios since which
everything stands deeper, so what is below a scenario is the block right after it; it goes down one
level at a time; and the climb that finds it ends. -/
theorem paths_follow_levels {o : ParseOptions} {t : Text} {f : Forest}
    (h : Forest.parse o t = .ok f) :
    (∀ i j s u, f.scenario? i = some s → f.scenario? j = some u →
      (s ∈ f.path j ↔ i ≤ j ∧ f.DeeperOn s.level i j)) ∧
    (∀ i s, f.scenario? i = some s → ∃ stop, i < stop ∧ stop ≤ f.scenarios.length ∧
      ∀ j u, f.scenario? j = some u → (s ∈ f.path j ↔ i ≤ j ∧ j < stop)) ∧
    (∀ j u, f.scenario? j = some u → f.LeadsTo u (f.path j)) ∧
    ∀ i above, f.Climbs (f.parent? i) above ↔ f.ancestors i = above.reverse := by
  have hshaped := Forest.shaped_of_parse h
  refine ⟨?_, ?_, ?_, ?_⟩
  · intro i j s u hs hu
    exact hshaped.mem_path_iff hs hu
  · intro i s hs
    exact hshaped.exists_block hs
  · intro j u hu
    exact hshaped.leadsTo_path hu
  · intro i above
    exact hshaped.climbs_iff

def steppedDocument : Text :=
  "Scenario: A\nScenario: B\n    Scenario: C\n        Scenario: D\n    Scenario: E".toList

theorem paths_follow_levels_stepped : ∃ f, Forest.parse {} steppedDocument = .ok f ∧
    ∃ s u, f.scenario? 2 = some s ∧ f.scenario? 4 = some u ∧ s ∉ f.path 4 ∧
      (f.path 4).map (·.level) = [1, 2] := by
  have hread : (Forest.parse {} steppedDocument).toOption.map (·.scenarios.map (·.level)) =
      some [1, 1, 2, 3, 2] := by
    decide +kernel
  obtain ⟨f, hf, hlevels⟩ := Forest.exists_parse_of_map hread
  have hlevel : ∀ i, (f.scenario? i).map (·.level) = [1, 1, 2, 3, 2][i]? := by
    intro i
    rw [← hlevels, List.getElem?_map]
    rfl
  obtain ⟨s, hs, hsl⟩ := Option.map_eq_some_iff.1 (hlevel 2)
  obtain ⟨u, hu, hul⟩ := Option.map_eq_some_iff.1 (hlevel 4)
  obtain ⟨hmem, -, hleads, -⟩ := paths_follow_levels hf
  refine ⟨f, hf, s, u, hs, hu, ?_, ?_⟩
  · intro hin
    have := ((hmem 2 4 s u hs hu).1 hin).2 4 u (by decide) (by decide) hu
    omega
  · rw [(hleads 4 u hu).levels, hul]
    rfl

end ScenarioForest
