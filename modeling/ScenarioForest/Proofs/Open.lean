import ScenarioForest.Proofs.Preorder
set_option autoImplicit false

/-!
Open scenarios. While a document is read, the scenarios that nothing has closed are those on the
path to the last one, and a header finds its parent among them.
-/

namespace ScenarioForest

def Forest.openScenarios (f : Forest) : List Scenario :=
  f.scenarios.filter fun s => !f.isClosed s.id

theorem Forest.isClosed_eq_false_iff {f : Forest} {i : Nat} {s : Scenario}
    (hs : f.scenario? i = some s) :
    f.isClosed i = false ↔ f.DeeperOn s.level i (f.scenarios.length - 1) := by
  simp only [isClosed, hs, List.any_eq_false, decide_eq_true_eq, Nat.not_le]
  constructor
  · intro hlater k u hik _ hu
    refine hlater u (List.mem_iff_getElem?.2 ⟨k - (i + 1), ?_⟩)
    rw [List.getElem?_drop, show i + 1 + (k - (i + 1)) = k by omega]
    exact hu
  · intro hdeep u hu
    obtain ⟨m, hm⟩ := List.mem_iff_getElem?.1 hu
    rw [List.getElem?_drop] at hm
    have hlen := (List.getElem?_eq_some_iff.1 hm).1
    exact hdeep (i + 1 + m) u (by omega) (by omega) hm

theorem Forest.scenario?_last {f : Forest} {last : Scenario}
    (hlast : f.scenarios.getLast? = some last) :
    f.scenario? (f.scenarios.length - 1) = some last := by
  rw [scenario?, ← List.getLast?_eq_getElem?]
  exact hlast

section

variable {f : Forest} (h : f.Shaped)

include h

theorem Forest.Shaped.openScenarios_eq_path {last : Scenario}
    (hlast : f.scenarios.getLast? = some last) : f.openScenarios = f.path last.id := by
  have hget := scenario?_last hlast
  rw [h.id_eq _ _ hget]
  obtain ⟨hall, hpair, -⟩ := h.path_spec hget
  refine eq_of_pairwise_ids (h.pairwise_filter _) hpair fun s => ?_
  rw [openScenarios, List.mem_filter, Bool.not_eq_true']
  constructor
  · intro hs
    obtain ⟨hmem, hopen⟩ := hs
    have hs := h.scenario?_id hmem
    have hlen := (List.getElem?_eq_some_iff.1 hs).1
    exact (h.mem_path_iff hs hget).2 ⟨by omega, (isClosed_eq_false_iff hs).1 hopen⟩
  · intro hin
    have hs := h.scenario?_id (hall s hin).1
    have hdeep := ((h.mem_path_iff hs hget).1 hin).2
    exact ⟨(hall s hin).1, (isClosed_eq_false_iff hs).2 hdeep⟩

theorem Forest.Shaped.map_level_openScenarios {last : Scenario}
    (hlast : f.scenarios.getLast? = some last) :
    f.openScenarios.map (·.level) = List.range' 1 last.level := by
  have hget := scenario?_last hlast
  rw [h.openScenarios_eq_path hlast, h.id_eq _ _ hget]
  exact h.map_level_path hget

theorem Forest.Shaped.openScenarios_unique {p q : Scenario} (hp : p ∈ f.openScenarios)
    (hq : q ∈ f.openScenarios) (hl : p.level = q.level) : p = q := by
  cases hlast : f.scenarios.getLast? with
  | none =>
    rw [List.getLast?_eq_none_iff] at hlast
    simp [openScenarios, hlast] at hp
  | some last =>
    have hnodup : (f.openScenarios.map (·.level)).Nodup := by
      rw [h.map_level_openScenarios hlast]
      exact List.nodup_range'
    exact List.inj_on_of_nodup_map hnodup hp hq hl

theorem Forest.Shaped.openAt?_eq_some_iff_mem {level : Nat} {p : Scenario} :
    f.openAt? level = some p ↔ p ∈ f.openScenarios ∧ p.level = level := by
  have hfound : ∀ q, f.openAt? level = some q → q ∈ f.openScenarios ∧ q.level = level := by
    intro q hq
    obtain ⟨hfind, hopen⟩ := Option.filter_eq_some_iff.1 hq
    have hl := List.find?_some hfind
    have hmem := List.mem_reverse.1 (List.mem_of_find?_eq_some hfind)
    exact ⟨List.mem_filter.2 ⟨hmem, hopen⟩, by simpa using hl⟩
  constructor
  · exact hfound p
  · intro hin
    obtain ⟨hp, hl⟩ := hin
    -- Something open is found at every level that is not too deep, and only one can be meant.
    have hget := h.scenario?_id (List.mem_filter.1 hp).1
    have hpos := h.level_pos hget
    have hex : ∃ q, f.openAt? level = some q := by
      have hlast := List.getLast?_eq_some_getLast (List.ne_nil_of_mem (List.mem_filter.1 hp).1)
      have hrange : p.level ∈ f.openScenarios.map (·.level) := List.mem_map_of_mem hp
      rw [h.map_level_openScenarios hlast, List.mem_range'_1] at hrange
      exact (h.exists_openAt?_iff (by omega)).2 ⟨_, hlast, by omega⟩
    obtain ⟨q, hq⟩ := hex
    obtain ⟨hqmem, hql⟩ := hfound q hq
    rw [hq, h.openScenarios_unique hp hqmem (hl.trans hql.symm)]

end

theorem Draft.addScenario_of_one_lt {d : Draft} {level : Nat} (hlevel : 1 < level) (name : Text) :
    d.addScenario level name =
      match d.forest.openAt? (level - 1) with
      | some p => .ok (d.attach level name (some p.id))
      | none => .error (.excessiveIndentation name) := by
  unfold addScenario
  exact if_neg (Nat.not_le.2 hlevel)

section

variable {d : Draft} (h : d.forest.Shaped) {level : Nat} (hlevel : 1 < level) (name : Text)

include h hlevel

theorem Draft.addScenario_eq_error_iff :
    d.addScenario level name = .error (.excessiveIndentation name) ↔ d.forest.scenarios = [] ∨
      ∃ last, d.forest.scenarios.getLast? = some last ∧ last.level + 1 < level := by
  have hpos : 1 ≤ level - 1 := by omega
  have hfound := h.exists_openAt?_iff hpos
  rw [addScenario_of_one_lt hlevel]
  cases ho : d.forest.openAt? (level - 1) with
  | none =>
    refine iff_of_true rfl ?_
    cases hlast : d.forest.scenarios.getLast? with
    | none => exact .inl (List.getLast?_eq_none_iff.1 hlast)
    | some last =>
      refine .inr ⟨last, rfl, ?_⟩
      by_contra hle
      obtain ⟨p, hp⟩ := hfound.2 ⟨last, hlast, by omega⟩
      rw [ho] at hp
      cases hp
  | some p =>
    obtain ⟨last, hlast, hle⟩ := hfound.1 ⟨p, ho⟩
    refine iff_of_false (fun herror => by cases herror) fun hdeep => ?_
    rcases hdeep with hnil | ⟨other, hother, hlt⟩
    · rw [hnil] at hlast
      cases hlast
    · rw [hlast] at hother
      cases hother
      omega

theorem Draft.exists_addScenario_of_le {last : Scenario}
    (hlast : d.forest.scenarios.getLast? = some last) (hle : level ≤ last.level + 1) :
    ∃ p ∈ d.forest.path last.id, p.level + 1 = level ∧
      d.addScenario level name = .ok (d.attach level name (some p.id)) := by
  have hpos : 1 ≤ level - 1 := by omega
  obtain ⟨p, hp⟩ := (h.exists_openAt?_iff hpos).2 ⟨last, hlast, by omega⟩
  obtain ⟨hopen, hl⟩ := h.openAt?_eq_some_iff_mem.1 hp
  rw [h.openScenarios_eq_path hlast] at hopen
  refine ⟨p, hopen, by omega, ?_⟩
  rw [addScenario_of_one_lt hlevel, hp]

end

/-- At every point of reading a document, the open scenarios are those on the path to the last
scenario, one at each level; the search for an open scenario finds the only one of its level; and
so a header below level 1 either is too deep or goes below a scenario on that path. -/
theorem openScenarios_lead_to_last {o : ParseOptions} {lines : List Text} {d : Draft}
    (h : (Draft.start o).Reads lines d) :
    (d.forest.openScenarios =
      (d.forest.scenarios.getLast?).elim [] fun last => d.forest.path last.id) ∧
    (∀ last, d.forest.scenarios.getLast? = some last →
      d.forest.openScenarios.map (·.level) = List.range' 1 last.level) ∧
    (∀ level p, d.forest.openAt? level = some p ↔ p ∈ d.forest.openScenarios ∧ p.level = level) ∧
    ∀ level name, 1 < level →
      (d.addScenario level name = .error (.excessiveIndentation name) ↔ d.forest.scenarios = [] ∨
        ∃ last, d.forest.scenarios.getLast? = some last ∧ last.level + 1 < level) ∧
      ∀ last, d.forest.scenarios.getLast? = some last → level ≤ last.level + 1 →
        ∃ p ∈ d.forest.path last.id, p.level + 1 = level ∧
          d.addScenario level name = .ok (d.attach level name (some p.id)) := by
  have hshaped : d.forest.Shaped := h.shaped Forest.shaped_empty
  refine ⟨?_, ?_, ?_, ?_⟩
  · cases hlast : d.forest.scenarios.getLast? with
    | none =>
      rw [List.getLast?_eq_none_iff] at hlast
      simp [Forest.openScenarios, hlast]
    | some last => exact hshaped.openScenarios_eq_path hlast
  · intro last hlast
    exact hshaped.map_level_openScenarios hlast
  · intro level p
    exact hshaped.openAt?_eq_some_iff_mem
  · intro level name hlevel
    refine ⟨Draft.addScenario_eq_error_iff hshaped hlevel name, fun last hlast hle => ?_⟩
    exact Draft.exists_addScenario_of_le hshaped hlevel name hlast hle

theorem openScenarios_lead_to_last_stepped :
    ∃ d, (Draft.start {}).Reads (Text.lines steppedDocument) d ∧
      d.forest.openScenarios.map (·.level) = [1, 2] ∧
      d.addScenario 4 ['F'] = .error (.excessiveIndentation ['F']) := by
  have hread : (Forest.parse {} steppedDocument).toOption.map
      (·.scenarios.getLast?.map (·.level)) = some (some 2) := by
    decide +kernel
  obtain ⟨f, hf, hlevel⟩ := Forest.exists_parse_of_map hread
  obtain ⟨d, hd, rfl⟩ := Forest.parse_eq_ok_iff.1 hf
  obtain ⟨last, hlast, hl⟩ := Option.map_eq_some_iff.1 hlevel
  obtain ⟨-, hlevels, -, hheader⟩ := openScenarios_lead_to_last hd
  refine ⟨d, hd, ?_, ?_⟩
  · rw [hlevels last hlast, hl]
    rfl
  · exact (hheader 4 ['F'] (by decide)).1.2 (.inr ⟨last, hlast, by omega⟩)

end ScenarioForest
