import Mathlib.Data.List.Chain
import ScenarioForest.Proofs.Draft
set_option autoImplicit false

/-!
The shape of a forest: ids count the scenarios, and a parent is the nearest scenario before its
child that stands further out. Reading keeps this shape, whatever the levels of the headers are.
-/

namespace ScenarioForest

structure Place where
  id : Nat
  parent : Option Nat
  level : Nat
  deriving DecidableEq, Repr

def Scenario.place (s : Scenario) : Place := ⟨s.id, s.parent, s.level⟩

/-- The places of all scenarios. Ids, parents and levels are all that the shape depends on. -/
def Forest.places (f : Forest) : List Place := f.scenarios.map Scenario.place

structure Forest.Shaped (f : Forest) : Prop where
  id_eq : ∀ i s, f.scenario? i = some s → s.id = i
  root : ∀ i s, f.scenario? i = some s → s.parent = none → s.level = 1
  child : ∀ i s p, f.scenario? i = some s → s.parent = some p →
    ∃ t, f.scenario? p = some t ∧ p < i ∧ s.level = t.level + 1 ∧
      ∀ k u, p < k → k < i → f.scenario? k = some u → t.level < u.level

theorem Forest.shaped_empty : Forest.empty.Shaped :=
  ⟨by simp [empty, scenario?], by simp [empty, scenario?], by simp [empty, scenario?]⟩

theorem Forest.places_getElem? (f : Forest) (i : Nat) :
    f.places[i]? = (f.scenario? i).map Scenario.place := by
  simp [places, scenario?]

theorem Forest.Shaped.congr {f g : Forest} (h : f.Shaped) (hp : g.places = f.places) :
    g.Shaped := by
  have hsame : ∀ i s, g.scenario? i = some s →
      ∃ t, f.scenario? i = some t ∧ t.place = s.place := by
    intro i s hs
    have := g.places_getElem? i
    rw [hp, f.places_getElem?, hs, Option.map_some, Option.map_eq_some_iff] at this
    exact this
  have hback : ∀ i s, f.scenario? i = some s →
      ∃ t, g.scenario? i = some t ∧ t.place = s.place := by
    intro i s hs
    have := f.places_getElem? i
    rw [← hp, g.places_getElem?, hs, Option.map_some, Option.map_eq_some_iff] at this
    exact this
  simp only [Scenario.place, Place.mk.injEq] at hsame hback
  constructor
  · intro i s hs
    obtain ⟨t, ht, hid, -, -⟩ := hsame i s hs
    rw [← hid]
    exact h.id_eq i t ht
  · intro i s hs hr
    obtain ⟨t, ht, -, hpar, hl⟩ := hsame i s hs
    rw [← hl]
    exact h.root i t ht (hpar.trans hr)
  · intro i s p hs hr
    obtain ⟨t, ht, -, hpar, hl⟩ := hsame i s hs
    obtain ⟨u, hu, hlt, hlev, hbetween⟩ := h.child i t p ht (hpar.trans hr)
    obtain ⟨v, hv, -, -, hvl⟩ := hback p u hu
    refine ⟨v, hv, hlt, by omega, fun k w hk hki hw => ?_⟩
    obtain ⟨x, hx, -, -, hxl⟩ := hsame k w hw
    have := hbetween k x hk hki hx
    omega

theorem Forest.scenario?_concat {name : Option Text} {description : List Text}
    {before : List Scenario} {s : Scenario} {i : Nat} {t : Scenario} :
    Forest.scenario? ⟨name, description, before ++ [s]⟩ i = some t ↔
      before[i]? = some t ∨ i = before.length ∧ t = s := by
  simp only [scenario?, List.getElem?_append]
  split
  · next h =>
    have : i ≠ before.length := by omega
    simp [this]
  · next h =>
    have hn : before[i]? = none := by simpa using h
    rw [List.getElem?_singleton, hn]
    split
    · next h0 =>
      have : i = before.length := by omega
      simp [this, eq_comm]
    · next h0 =>
      have : i ≠ before.length := by omega
      simp [this]

/-- A new scenario keeps the shape if it is a root at level 1, or has a parent just further out
that nothing has closed. -/
theorem Forest.Shaped.concat {name name' : Option Text} {description description' : List Text}
    {before : List Scenario} {s : Scenario} (h : Forest.Shaped ⟨name, description, before⟩)
    (hid : s.id = before.length) (hroot : s.parent = none → s.level = 1)
    (hchild : ∀ p, s.parent = some p → ∃ t, before[p]? = some t ∧ s.level = t.level + 1 ∧
      ∀ k u, p < k → before[k]? = some u → t.level < u.level) :
    Forest.Shaped ⟨name', description', before ++ [s]⟩ := by
  constructor
  · intro i t ht
    rcases scenario?_concat.1 ht with ht | ⟨rfl, rfl⟩
    · exact h.id_eq i t ht
    · exact hid
  · intro i t ht hp
    rcases scenario?_concat.1 ht with ht | ⟨rfl, rfl⟩
    · exact h.root i t ht hp
    · exact hroot hp
  · intro i t p ht hp
    rcases scenario?_concat.1 ht with ht | ⟨rfl, rfl⟩
    · have hi := (List.getElem?_eq_some_iff.1 ht).1
      obtain ⟨u, hu, hlt, hl, hb⟩ := h.child i t p ht hp
      refine ⟨u, scenario?_concat.2 (.inl hu), hlt, hl, fun k w hk hki hw => ?_⟩
      rcases scenario?_concat.1 hw with hw | ⟨rfl, -⟩
      · exact hb k w hk hki hw
      · omega
    · obtain ⟨u, hu, hl, hb⟩ := hchild p hp
      refine ⟨u, scenario?_concat.2 (.inl hu), (List.getElem?_eq_some_iff.1 hu).1, hl,
        fun k w hk hki hw => ?_⟩
      rcases scenario?_concat.1 hw with hw | ⟨rfl, -⟩
      · exact hb k w hk hw
      · omega

/-- An open scenario is the last one of its level, and all later ones stand deeper. -/
theorem Forest.Shaped.openAt?_eq_some_iff {f : Forest} (h : f.Shaped) {level : Nat}
    {p : Scenario} : f.openAt? level = some p ↔ ∃ before after,
      f.scenarios = before ++ p :: after ∧ p.level = level ∧ ∀ q ∈ after, level < q.level := by
  have hclosed : ∀ before after, f.scenarios = before ++ p :: after →
      (f.isClosed p.id = false ↔ ∀ q ∈ after, p.level < q.level) := by
    intro before after hs
    have hp : f.scenario? before.length = some p := by simp [scenario?, hs]
    have hid := h.id_eq _ _ hp
    have hdrop : f.scenarios.drop (p.id + 1) = after := by
      rw [hid, hs, List.append_cons]
      simp [List.drop_append]
    rw [← hid] at hp
    simp [isClosed, hp, hdrop]
  rw [openAt?, Option.filter_eq_some_iff, List.find?_eq_some_iff_append]
  constructor
  · rintro ⟨⟨hl, as, bs, hs, -⟩, ho⟩
    have hs : f.scenarios = bs.reverse ++ p :: as.reverse := by
      have := congrArg List.reverse hs
      simpa using this
    simp only [beq_iff_eq] at hl
    refine ⟨bs.reverse, as.reverse, hs, hl, ?_⟩
    rw [← hl]
    exact (hclosed _ _ hs).1 (by simpa using ho)
  · rintro ⟨before, after, hs, rfl, hafter⟩
    refine ⟨⟨by simp, after.reverse, before.reverse, by simp [hs], ?_⟩, ?_⟩
    · intro q hq
      have := hafter q (by simpa using hq)
      simp
      omega
    · simpa using (hclosed before after hs).2 hafter

theorem Forest.Shaped.level_pos {f : Forest} (h : f.Shaped) {i : Nat} {s : Scenario}
    (hs : f.scenario? i = some s) : 1 ≤ s.level := by
  cases hp : s.parent with
  | none => exact Nat.le_of_eq (h.root i s hs hp).symm
  | some p =>
    obtain ⟨t, -, -, hl, -⟩ := h.child i s p hs hp
    omega

theorem Forest.Shaped.level_first {f : Forest} (h : f.Shaped) {s : Scenario}
    (hs : f.scenario? 0 = some s) : s.level = 1 := by
  cases hp : s.parent with
  | none => exact h.root 0 s hs hp
  | some p =>
    obtain ⟨t, -, hlt, -⟩ := h.child 0 s p hs hp
    omega

theorem Forest.Shaped.level_succ_le {f : Forest} (h : f.Shaped) {i : Nat} {s t : Scenario}
    (hs : f.scenario? i = some s) (ht : f.scenario? (i + 1) = some t) :
    t.level ≤ s.level + 1 := by
  have hpos := h.level_pos hs
  cases hp : t.parent with
  | none =>
    have := h.root _ t ht hp
    omega
  | some p =>
    obtain ⟨u, hu, hlt, hl, hb⟩ := h.child _ t p ht hp
    by_cases hpi : p = i
    · subst hpi
      rw [hs] at hu
      cases hu
      omega
    · have := hb i s (by omega) (by omega) hs
      omega

/-- Levels that rise by at most one from a first level of 1 pass through every level below the
last one, and so does the way down to the last scenario. -/
theorem exists_open_of_chain {scenarios : List Scenario} {level : Nat}
    (hfirst : ∀ s ∈ scenarios.head?, s.level = 1)
    (hchain : scenarios.IsChain fun a b => b.level ≤ a.level + 1)
    {last : Scenario} (hlast : scenarios.getLast? = some last) (hpos : 1 ≤ level)
    (hle : level ≤ last.level) : ∃ before p after,
      scenarios = before ++ p :: after ∧ p.level = level ∧ ∀ q ∈ after, level < q.level := by
  induction scenarios using List.reverseRecOn generalizing last with
  | nil => cases hlast
  | append_singleton init s ih =>
    rw [List.getLast?_concat, Option.some.injEq] at hlast
    subst hlast
    by_cases heq : s.level = level
    · exact ⟨init, s, [], rfl, heq, by simp⟩
    · obtain ⟨hinit, -, hstep⟩ := List.isChain_append.1 hchain
      have hne : init ≠ [] := by
        rintro rfl
        have := hfirst s (by simp)
        omega
      have hprev := List.getLast?_eq_some_getLast hne
      have hup := hstep _ hprev s (by simp)
      rw [List.head?_append_of_ne_nil _ hne] at hfirst
      obtain ⟨before, p, after, rfl, hp, hafter⟩ := ih hfirst hinit hprev (by omega)
      refine ⟨before, p, after ++ [s], by simp, hp, ?_⟩
      intro q hq
      rcases List.mem_append.1 hq with hq | hq
      · exact hafter q hq
      · rw [List.mem_singleton.1 hq]
        omega

theorem Forest.Shaped.exists_openAt?_iff {f : Forest} (h : f.Shaped) {level : Nat}
    (hpos : 1 ≤ level) : (∃ p, f.openAt? level = some p) ↔
      ∃ last, f.scenarios.getLast? = some last ∧ level ≤ last.level := by
  constructor
  · rintro ⟨p, hp⟩
    obtain ⟨before, after, hs, rfl, hafter⟩ := h.openAt?_eq_some_iff.1 hp
    rcases List.eq_nil_or_concat after with rfl | ⟨init, last, rfl⟩
    · exact ⟨p, by simp [hs], Nat.le_refl _⟩
    · rw [List.concat_eq_append] at hs hafter
      have hl : f.scenarios.getLast? = some last := by
        rw [hs, ← List.cons_append, ← List.append_assoc, List.getLast?_concat]
      exact ⟨last, hl, Nat.le_of_lt (hafter last (by simp))⟩
  · rintro ⟨last, hlast, hle⟩
    have hfirst : ∀ s ∈ f.scenarios.head?, s.level = 1 := fun s hs =>
      h.level_first (by rw [scenario?, ← List.head?_eq_getElem?]; exact hs)
    have hchain : f.scenarios.IsChain fun a b => b.level ≤ a.level + 1 := by
      rw [List.isChain_iff_getElem]
      intro i hi
      exact h.level_succ_le (i := i) (by simp [scenario?]) (by simp [scenario?])
    obtain ⟨before, p, after, hs, hp, hafter⟩ :=
      exists_open_of_chain hfirst hchain hlast hpos hle
    exact ⟨p, h.openAt?_eq_some_iff.2 ⟨before, after, hs, hp, hafter⟩⟩

theorem Draft.Adds.shaped {d e : Draft} {level : Nat} {line : Line} (h : d.Adds level line e)
    (hlevel : 1 ≤ level) (hd : d.forest.Shaped) : e.forest.Shaped := by
  cases h with
  | feature => exact hd.congr rfl
  | text => exact hd.congr rfl
  | root hl =>
    refine hd.concat rfl (fun _ => ?_) (fun p hp => by cases hp)
    simp only [Scenario.named]
    omega
  | @child name p hl hp =>
    obtain ⟨before, after, hs, hpl, hafter⟩ := hd.openAt?_eq_some_iff.1 hp
    refine hd.concat rfl (fun hn => by cases hn) fun q hq => ?_
    have hget : d.forest.scenario? before.length = some p := by simp [Forest.scenario?, hs]
    have hid := hd.id_eq _ _ hget
    simp only [Scenario.named, Option.some.injEq] at hq ⊢
    subst hq
    refine ⟨p, by rw [hid]; exact hget, by omega, fun k u hk hu => ?_⟩
    rw [hid] at hk
    have hmem : u ∈ after := by
      rw [hs, List.append_cons, List.getElem?_append_right (by simp; omega)] at hu
      exact List.mem_of_getElem? hu
    have := hafter u hmem
    omega
  | step hs => exact hd.congr (by simp [Forest.places, hs, Scenario.place, Scenario.addStep])
  | row hs => exact hd.congr (by simp [Forest.places, hs, Scenario.place])

theorem Draft.push_shaped {d e : Draft} {raw : Text} (h : d.push raw = .ok e)
    (hd : d.forest.Shaped) : e.forest.Shaped := by
  by_cases hb : (IndentedLine.split raw).isBlank = true
  · rw [push_of_blank hb] at h
    cases h
    exact hd
  · obtain ⟨level, hl, ha⟩ := (push_eq_ok_iff (by simpa using hb)).1 h
    exact ha.shaped (IndentedLine.level?_eq_some_iff.1 hl).1 hd

theorem Draft.Reads.shaped {d e : Draft} {lines : List Text} (h : d.Reads lines e)
    (hd : d.forest.Shaped) : e.forest.Shaped :=
  h.induction (fun _ _ _ _ hd hp => push_shaped hp hd) hd

theorem Forest.shaped_of_ofLines {o : ParseOptions} {lines : List Text} {f : Forest}
    (h : Forest.ofLines o lines = .ok f) : f.Shaped := by
  obtain ⟨d, hd, rfl⟩ := ofLines_eq_ok_iff.1 h
  exact hd.shaped shaped_empty

theorem Forest.shaped_of_parse {o : ParseOptions} {t : Text} {f : Forest}
    (h : Forest.parse o t = .ok f) : f.Shaped := shaped_of_ofLines h

end ScenarioForest
