import ScenarioForest.Proofs.Shape
set_option autoImplicit false

/-!
The beginning of a forest: what was read of it at an earlier line. A line adds behind what is there
or changes the very last thing, so only the last scenario of a beginning, and in it only the table
of its last step, may still grow.
-/

namespace ScenarioForest

/-- A list at an earlier time. All of its elements but the last are final, and the last one is the
beginning of what it becomes. -/
def ListBegins {α : Type} (Begins : α → α → Prop) (first second : List α) : Prop :=
  first = [] ∨ ∃ before a b after,
    first = before ++ [a] ∧ second = before ++ b :: after ∧ Begins a b

structure Table.Begins (t u : Table) : Prop where
  header : t.header = u.header
  rows : t.rows <+: u.rows

/-- A step has all its words from the start, and its table may come later. -/
structure Step.Begins (s u : Step) : Prop where
  name : s.name = u.name
  kind : s.kind = u.kind
  comment : s.comment = u.comment
  table : ∀ t ∈ s.table, ∃ v ∈ u.table, t.Begins v

structure Scenario.Begins (s u : Scenario) : Prop where
  place : s.place = u.place
  name : s.name = u.name
  steps : ListBegins Step.Begins s.steps u.steps

structure Forest.Begins (f g : Forest) : Prop where
  name : ∀ n ∈ f.name, g.name = some n
  description : f.description <+: g.description
  scenarios : ListBegins Scenario.Begins f.scenarios g.scenarios

section

variable {α : Type} {Begins : α → α → Prop}

theorem listBegins_last {before : List α} {a b : α} (h : Begins a b) :
    ListBegins Begins (before ++ [a]) (before ++ [b]) :=
  .inr ⟨before, a, b, [], rfl, rfl, h⟩

theorem listBegins_append (hrefl : ∀ a, Begins a a) (first more : List α) :
    ListBegins Begins first (first ++ more) := by
  cases List.eq_nil_or_concat first with
  | inl h => exact .inl h
  | inr h =>
    obtain ⟨before, a, rfl⟩ := h
    exact .inr ⟨before, a, a, more, by simp, by simp, hrefl a⟩

theorem listBegins_refl (hrefl : ∀ a, Begins a a) (first : List α) :
    ListBegins Begins first first := by
  simpa using listBegins_append hrefl first []

theorem ListBegins.trans (htrans : ∀ a b c, Begins a b → Begins b c → Begins a c)
    {first second third : List α} (h : ListBegins Begins first second)
    (hnext : ListBegins Begins second third) : ListBegins Begins first third := by
  rcases h with rfl | ⟨before, a, b, after, rfl, rfl, hab⟩
  · exact .inl rfl
  rcases hnext with hnil | ⟨front, c, d, rest, hsecond, rfl, hcd⟩
  · simp at hnil
  rcases List.eq_nil_or_concat after with rfl | ⟨middle, e, rfl⟩
  · -- The growing element is still the last one.
    obtain ⟨rfl, hc⟩ := List.append_inj' hsecond rfl
    cases hc
    exact .inr ⟨before, a, d, rest, rfl, rfl, htrans a b d hab hcd⟩
  · have hfront : before ++ b :: middle = front := by
      rw [List.concat_eq_append, ← List.cons_append, ← List.append_assoc] at hsecond
      exact (List.append_inj' hsecond rfl).1
    subst hfront
    exact .inr ⟨before, a, b, middle ++ d :: rest, rfl, by simp, hab⟩

end

theorem Table.begins_refl (t : Table) : t.Begins t := ⟨rfl, List.prefix_refl _⟩

theorem Table.Begins.trans {t u v : Table} (h : t.Begins u) (hnext : u.Begins v) : t.Begins v :=
  ⟨h.header.trans hnext.header, h.rows.trans hnext.rows⟩

theorem Table.begins_of_push {t u : Table} {r : Row} (h : t.push r = (.ok (), u)) : t.Begins u := by
  obtain ⟨-, hheader, hrows⟩ := push_eq_ok_iff.1 h
  exact ⟨hheader.symm, hrows ▸ List.prefix_append _ _⟩

theorem Step.begins_refl (s : Step) : s.Begins s :=
  ⟨rfl, rfl, rfl, fun t ht => ⟨t, ht, t.begins_refl⟩⟩

theorem Step.Begins.trans {s t u : Step} (h : s.Begins t) (hnext : t.Begins u) : s.Begins u where
  name := h.name.trans hnext.name
  kind := h.kind.trans hnext.kind
  comment := h.comment.trans hnext.comment
  table v hv := by
    obtain ⟨w, hw, hvw⟩ := h.table v hv
    obtain ⟨x, hx, hwx⟩ := hnext.table w hw
    exact ⟨x, hx, hvw.trans hwx⟩

theorem Step.AddsRow.begins {s u : Step} {r : Row} (h : s.AddsRow r u) : s.Begins u := by
  cases h with
  | header hnone => exact ⟨rfl, rfl, rfl, by simp [hnone]⟩
  | @data t v ht hp =>
    refine ⟨rfl, rfl, rfl, fun w hw => ⟨v, rfl, ?_⟩⟩
    rw [ht, Option.mem_some_iff] at hw
    subst hw
    exact Table.begins_of_push hp

theorem Scenario.begins_refl (s : Scenario) : s.Begins s :=
  ⟨rfl, rfl, listBegins_refl Step.begins_refl _⟩

theorem Scenario.Begins.trans {s t u : Scenario} (h : s.Begins t) (hnext : t.Begins u) :
    s.Begins u :=
  ⟨h.place.trans hnext.place, h.name.trans hnext.name,
    h.steps.trans (fun _ _ _ hst htu => hst.trans htu) hnext.steps⟩

theorem Scenario.begins_addStep (s : Scenario) (step : Step) : s.Begins (s.addStep step) :=
  ⟨rfl, rfl, listBegins_append Step.begins_refl _ _⟩

theorem Forest.begins_refl (f : Forest) : f.Begins f :=
  ⟨fun _ hn => hn, List.prefix_refl _, listBegins_refl Scenario.begins_refl _⟩

theorem Forest.Begins.trans {f g k : Forest} (h : f.Begins g) (hnext : g.Begins k) : f.Begins k :=
  ⟨fun n hn => hnext.name n (h.name n hn), h.description.trans hnext.description,
    h.scenarios.trans (fun _ _ _ hst htu => hst.trans htu) hnext.scenarios⟩

theorem Draft.begins_attach (d : Draft) (level : Nat) (name : Text) (parent : Option Nat) :
    d.forest.Begins (d.attach level name parent).forest :=
  ⟨fun _ hn => hn, List.prefix_refl _, listBegins_append Scenario.begins_refl _ _⟩

theorem Forest.begins_replaceLast {f : Forest} {before : List Scenario} {s u : Scenario}
    (hs : f.scenarios = before ++ [s]) (h : s.Begins u) :
    f.Begins { f with scenarios := before ++ [u] } := by
  refine ⟨fun _ hn => hn, List.prefix_refl _, ?_⟩
  rw [hs]
  exact listBegins_last h

theorem Draft.Adds.begins {d e : Draft} {level : Nat} {line : Line} (h : d.Adds level line e) :
    d.forest.Begins e.forest := by
  cases h with
  | feature hname =>
    exact ⟨by simp [hname], List.prefix_refl _, listBegins_refl Scenario.begins_refl _⟩
  | text =>
    exact ⟨fun _ hn => hn, List.prefix_append _ _, listBegins_refl Scenario.begins_refl _⟩
  | root => exact d.begins_attach level _ none
  | child => exact d.begins_attach level _ _
  | step hs => exact Forest.begins_replaceLast hs (Scenario.begins_addStep _ _)
  | row hs hsteps hadds =>
    refine Forest.begins_replaceLast hs ⟨rfl, rfl, ?_⟩
    rw [hsteps]
    exact listBegins_last hadds.begins

theorem Draft.begins_of_push {d e : Draft} {raw : Text} (h : d.push raw = .ok e) :
    d.forest.Begins e.forest := by
  cases hb : (IndentedLine.split raw).isBlank with
  | true =>
    rw [push_of_blank hb] at h
    cases h
    exact d.forest.begins_refl
  | false =>
    obtain ⟨level, -, hadds⟩ := (push_eq_ok_iff hb).1 h
    exact hadds.begins

theorem Draft.Reads.begins {d e : Draft} {lines : List Text} (h : d.Reads lines e) :
    d.forest.Begins e.forest :=
  h.induction (P := fun m => d.forest.Begins m.forest)
    (fun _ _ _ _ hd hp => hd.trans (begins_of_push hp)) d.forest.begins_refl

theorem Draft.Reads.unique {d e m : Draft} {lines : List Text} (he : d.Reads lines e)
    (hm : d.Reads lines m) : e = m := by
  rw [← pushAll_eq_ok_iff (n := 1)] at he hm
  exact Except.ok.inj (he.symm.trans hm)

/-- What is made of some lines begins what is made of them and the lines behind them. -/
theorem Forest.begins_of_ofLines {o : ParseOptions} {lines more : List Text} {f g : Forest}
    (hf : Forest.ofLines o lines = .ok f) (hg : Forest.ofLines o (lines ++ more) = .ok g) :
    f.Begins g := by
  obtain ⟨d, hd, rfl⟩ := ofLines_eq_ok_iff.1 hf
  obtain ⟨e, he, rfl⟩ := ofLines_eq_ok_iff.1 hg
  obtain ⟨m, hm, hmore⟩ := Draft.reads_append.1 he
  rw [hd.unique hm]
  exact hmore.begins

end ScenarioForest
