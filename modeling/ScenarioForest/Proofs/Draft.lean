import ScenarioForest.Forest.Draft
set_option autoImplicit false

/-!
What one line can do to a draft, and runs of lines.
-/

namespace ScenarioForest

theorem Draft.conventionFor?_eq_some_iff {d : Draft} {s : Scenario} {level : Nat}
    {c : StepIndentation} : d.conventionFor? s level = some c ↔
      level = s.level + c.offset ∧ (d.convention = none ∨ d.convention = some c) := by
  unfold conventionFor?
  split
  · next h => simp only [reduceCtorEq, false_iff]; omega
  · next h =>
    have hlevel : level - s.level = c.offset ↔ level = s.level + c.offset := by omega
    rw [← hlevel, ← StepIndentation.ofOffset?_eq_some_iff]
    cases hf : StepIndentation.ofOffset? (level - s.level) with
    | none => simp
    | some found =>
      cases hd : d.convention with
      | none => simp
      | some k =>
        by_cases hk : k = found
        · subst hk
          simp
        · simp only [hk, if_false, reduceCtorEq, Option.some.injEq, false_or, false_iff, not_and]
          rintro rfl rfl
          exact hk rfl

inductive Step.AddsRow (s : Step) (r : Row) : Step → Prop where
  | header : s.table = none → AddsRow s r (s.withTable (Table.ofHeader r))
  | data {t u : Table} : s.table = some t → t.push r = (.ok (), u) → AddsRow s r (s.withTable u)

theorem Step.addRow_eq_ok_iff {s u : Step} {r : Row} :
    s.addRow r = .ok u ↔ s.AddsRow r u := by
  unfold addRow
  cases ht : s.table with
  | none =>
    constructor
    · intro h
      cases h
      exact .header ht
    · intro h
      cases h with
      | header => rfl
      | data h => simp [ht] at h
  | some t =>
    constructor
    · intro h
      simp only at h
      split at h
      · next hp =>
        cases h
        exact .data ht hp
      · cases h
    · intro h
      cases h with
      | header h => simp [ht] at h
      | data h hp =>
        rw [ht] at h
        cases h
        simp [hp]

/-- What a line can do to a draft, with the conditions under which it does it. -/
inductive Draft.Adds (d : Draft) (level : Nat) : Line → Draft → Prop where
  | feature {name : Text} : d.forest.name = none → d.forest.scenarios = [] →
      Adds d level (.feature name) { d with forest := { d.forest with name := some name } }
  | root {name : Text} : level ≤ 1 → Adds d level (.scenario name) (d.attach level name none)
  | child {name : Text} {p : Scenario} : 1 < level → d.forest.openAt? (level - 1) = some p →
      Adds d level (.scenario name) (d.attach level name (some p.id))
  | step {l : StepLine} {before : List Scenario} {s : Scenario} {c : StepIndentation}
      {kind : StepKind} : d.forest.scenarios = before ++ [s] → level = s.level + c.offset →
      (d.convention = none ∨ d.convention = some c) →
      l.keyword.resolve s.lastKind? = some kind →
      Adds d level (.step l)
        ⟨{ d.forest with scenarios := before ++ [s.addStep (l.toStep kind)] }, some c⟩
  | row {r : Row} {before : List Scenario} {s : Scenario} {steps : List Step} {step next : Step} :
      d.forest.scenarios = before ++ [s] → s.steps = steps ++ [step] → step.AddsRow r next →
      Adds d level (.row r)
        { d with forest := { d.forest with
            scenarios := before ++ [{ s with steps := steps ++ [next] }] } }
  | text {t : Text} : Adds d level (.text t) (d.addText t)

theorem Draft.addFeature_eq_ok_iff {d e : Draft} {level : Nat} {content name : Text} :
    d.addFeature content name = .ok e ↔ d.Adds level (.feature name) e := by
  unfold addFeature
  constructor
  · intro h
    split at h
    · cases h
    · next hn =>
      simp only [Bool.or_eq_true, Bool.not_eq_true', not_or, Bool.not_eq_true, Bool.not_eq_false,
        Option.isSome_eq_false_iff, Option.isNone_iff_eq_none, List.isEmpty_iff] at hn
      cases h
      exact .feature hn.1 hn.2
  · intro h
    cases h with
    | feature hn hs => simp [hn, hs]

theorem Draft.addScenario_eq_ok_iff {d e : Draft} {level : Nat} {name : Text} :
    d.addScenario level name = .ok e ↔ d.Adds level (.scenario name) e := by
  unfold addScenario
  constructor
  · intro h
    split at h
    · next hl =>
      cases h
      exact .root hl
    · next hl =>
      split at h
      · next p hp =>
        cases h
        exact .child (by omega) hp
      · cases h
  · intro h
    cases h with
    | root hl => simp [hl]
    | child hl hp => simp [show ¬ level ≤ 1 by omega, hp]

theorem Draft.addStep_eq_ok_iff {d e : Draft} {level : Nat} {content : Text} {l : StepLine} :
    d.addStep level content l = .ok e ↔ d.Adds level (.step l) e := by
  unfold addStep
  constructor
  · intro h
    split at h
    · cases h
    · next s hs =>
      obtain ⟨before, hb⟩ := List.getLast?_eq_some_iff.1 hs
      split at h
      · cases h
      · next c hc =>
        split at h
        · cases h
        · next kind hk =>
          obtain ⟨hl, hd⟩ := conventionFor?_eq_some_iff.1 hc
          cases h
          have hadd := Adds.step hb hl hd hk
          simpa [replaceLast, hb] using hadd
  · intro h
    cases h with
    | step hb hl hd hk =>
      have hc := conventionFor?_eq_some_iff.2 ⟨hl, hd⟩
      simp [hb, hc, hk, replaceLast]

theorem Draft.addRow_eq_ok_iff {d e : Draft} {level : Nat} {content : Text} {r : Row} :
    d.addRow content r = .ok e ↔ d.Adds level (.row r) e := by
  unfold addRow
  constructor
  · intro h
    split at h
    · cases h
    · next s hs =>
      obtain ⟨before, hb⟩ := List.getLast?_eq_some_iff.1 hs
      split at h
      · cases h
      · next step ht =>
        obtain ⟨steps, hst⟩ := List.getLast?_eq_some_iff.1 ht
        split at h
        · cases h
        · next next hr =>
          cases h
          have hadd : d.Adds level (.row r) _ := .row hb hst (Step.addRow_eq_ok_iff.1 hr)
          simpa [replaceLast, hb, hst] using hadd
  · intro h
    cases h with
    | row hb hst hr => simp [hb, hst, Step.addRow_eq_ok_iff.2 hr, replaceLast]

theorem Draft.add_eq_ok_iff {d e : Draft} {level : Nat} {content : Text} {line : Line} :
    d.add level content line = .ok e ↔ d.Adds level line e := by
  cases line with
  | feature name => exact addFeature_eq_ok_iff
  | scenario name => exact addScenario_eq_ok_iff
  | step l => exact addStep_eq_ok_iff
  | row r => exact addRow_eq_ok_iff
  | text t =>
    constructor
    · intro h
      cases h
      exact .text
    · intro h
      cases h
      rfl
  | unrecognized t => constructor <;> intro h <;> cases h

theorem Draft.push_of_blank {d : Draft} {raw : Text} (h : (IndentedLine.split raw).isBlank = true) :
    d.push raw = .ok d := by
  simp [push, h]

theorem Draft.push_eq_ok_iff {d e : Draft} {raw : Text}
    (h : (IndentedLine.split raw).isBlank = false) : d.push raw = .ok e ↔
      ∃ level, (IndentedLine.split raw).level? = some level ∧
        d.Adds level (d.lineOf (IndentedLine.split raw).content) e := by
  simp only [push, h, Bool.false_eq_true, if_false]
  cases (IndentedLine.split raw).level? with
  | none => simp
  | some level => simp [add_eq_ok_iff]

def Draft.Reads : Draft → List Text → Draft → Prop
  | d, [], e => e = d
  | d, raw :: rest, e => ∃ m, d.push raw = .ok m ∧ m.Reads rest e

theorem Draft.pushAll_eq_ok_iff {d e : Draft} {n : Nat} {lines : List Text} :
    d.pushAll n lines = .ok e ↔ d.Reads lines e := by
  induction lines generalizing d n with
  | nil => simp [pushAll, Reads, eq_comm]
  | cons raw rest ih =>
    rw [pushAll, Reads]
    cases hp : d.push raw with
    | error fault => simp
    | ok m => simp [ih]

theorem Draft.reads_append {d e : Draft} {first second : List Text} :
    d.Reads (first ++ second) e ↔ ∃ m, d.Reads first m ∧ m.Reads second e := by
  induction first generalizing d with
  | nil => simp [Reads]
  | cons raw rest ih =>
    simp only [List.cons_append, Reads, ih]
    constructor
    · rintro ⟨m, hm, k, hk, he⟩
      exact ⟨k, ⟨m, hm, hk⟩, he⟩
    · rintro ⟨k, ⟨m, hm, hk⟩, he⟩
      exact ⟨m, hm, k, hk, he⟩

theorem Draft.reads_singleton {d e : Draft} {raw : Text} :
    d.Reads [raw] e ↔ d.push raw = .ok e := by
  simp [Reads]

theorem Draft.Reads.induction {P : Draft → Prop} {d e : Draft} {lines : List Text}
    (h : d.Reads lines e)
    (step : ∀ d e raw, raw ∈ lines → P d → d.push raw = .ok e → P e) (hd : P d) : P e := by
  induction lines generalizing d with
  | nil => exact h ▸ hd
  | cons raw rest ih =>
    obtain ⟨m, hm, hr⟩ := h
    exact ih hr (fun d e l hl => step d e l (by simp [hl])) (step d m raw (by simp) hd hm)

theorem Forest.ofLines_eq_ok_iff {o : ParseOptions} {lines : List Text} {f : Forest} :
    Forest.ofLines o lines = .ok f ↔ ∃ d, (Draft.start o).Reads lines d ∧ d.forest = f := by
  simp only [← Draft.pushAll_eq_ok_iff (n := 1), ofLines]
  cases (Draft.start o).pushAll 1 lines <;> simp [Except.map]

theorem Forest.parse_eq_ok_iff {o : ParseOptions} {t : Text} {f : Forest} :
    Forest.parse o t = .ok f ↔ ∃ d, (Draft.start o).Reads (Text.lines t) d ∧ d.forest = f :=
  ofLines_eq_ok_iff

theorem Forest.exists_ofLines_of_map {α : Type} {o : ParseOptions} {lines : List Text}
    {g : Forest → α} {a : α} (h : (Forest.ofLines o lines).toOption.map g = some a) :
    ∃ f, Forest.ofLines o lines = .ok f ∧ g f = a := by
  cases hp : Forest.ofLines o lines with
  | ok f => exact ⟨f, rfl, by simpa [hp, Except.toOption] using h⟩
  | error e => simp [hp, Except.toOption] at h

theorem Forest.exists_parse_of_map {α : Type} {o : ParseOptions} {t : Text} {g : Forest → α}
    {a : α} (h : (Forest.parse o t).toOption.map g = some a) :
    ∃ f, Forest.parse o t = .ok f ∧ g f = a :=
  exists_ofLines_of_map h

end ScenarioForest
