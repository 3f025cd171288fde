import ScenarioForest.Proofs.Draft
import ScenarioForest.Proofs.Grammar
import ScenarioForest.Proofs.Text
set_option autoImplicit false

/-!
Reading sees only the visible lines. The draft after some lines, or their first fault, follows from
the indentations and the contents of those that are not blank.
-/

namespace ScenarioForest

def Draft.take (d : Draft) (l : IndentedLine) : Except Fault Draft :=
  match l.level? with
  | none => .error (.invalidIndentation l.content)
  | some level => d.add level l.content (d.lineOf l.content)

def Draft.takeAll (d : Draft) : List IndentedLine → Except Fault Draft
  | [] => .ok d
  | l :: rest =>
    match d.take l with
    | .error fault => .error fault
    | .ok next => next.takeAll rest

theorem Draft.take_eq_ok_iff {d e : Draft} {l : IndentedLine} : d.take l = .ok e ↔
    ∃ level, l.level? = some level ∧ d.Adds level (d.lineOf l.content) e := by
  rw [take]
  cases l.level? with
  | none => simp
  | some level => simp [add_eq_ok_iff]

theorem Draft.takeAll_cons_eq_ok_iff {d e : Draft} {l : IndentedLine} {rest : List IndentedLine} :
    d.takeAll (l :: rest) = .ok e ↔ ∃ m, d.take l = .ok m ∧ m.takeAll rest = .ok e := by
  rw [takeAll]
  cases d.take l with
  | error fault => simp
  | ok m => simp

theorem Draft.takeAll_append_eq_ok_iff {d e : Draft} {first second : List IndentedLine} :
    d.takeAll (first ++ second) = .ok e ↔
      ∃ m, d.takeAll first = .ok m ∧ m.takeAll second = .ok e := by
  induction first generalizing d with
  | nil => simp [takeAll]
  | cons l rest ih =>
    rw [List.cons_append, takeAll, takeAll]
    cases d.take l with
    | error fault => simp
    | ok next => exact ih

theorem Draft.takeAll_induction {P : Draft → Prop} {d e : Draft} {lines : List IndentedLine}
    (step : ∀ d e l, P d → d.take l = .ok e → P e) (h : d.takeAll lines = .ok e) (hd : P d) :
    P e := by
  induction lines generalizing d with
  | nil =>
    cases h
    exact hd
  | cons l rest ih =>
    obtain ⟨m, hm, hrest⟩ := takeAll_cons_eq_ok_iff.1 h
    exact ih hrest (step d m l hd hm)

theorem visibleLines_cons (raw : Text) (rest : List Text) : visibleLines (raw :: rest) =
    if (IndentedLine.split raw).isBlank then visibleLines rest
    else IndentedLine.split raw :: visibleLines rest := by
  cases hb : (IndentedLine.split raw).isBlank <;> simp [visibleLines, hb]

theorem Draft.push_eq_take (d : Draft) {raw : Text} (h : (IndentedLine.split raw).isBlank = false) :
    d.push raw = d.take (IndentedLine.split raw) := by
  rw [push, h]
  rfl

/-- Whatever the numbers of the lines are, reading comes to the same. -/
theorem Draft.mapError_pushAll (d : Draft) (n : Nat) (raws : List Text) :
    (d.pushAll n raws).mapError (·.fault) = d.takeAll (visibleLines raws) := by
  induction raws generalizing d n with
  | nil => rfl
  | cons raw rest ih =>
    rw [pushAll, visibleLines_cons]
    cases hb : (IndentedLine.split raw).isBlank with
    | true =>
      rw [push_of_blank hb]
      exact ih d (n + 1)
    | false =>
      rw [push_eq_take d hb]
      simp only [Bool.false_eq_true, if_false, takeAll]
      cases d.take (IndentedLine.split raw) with
      | error fault => rfl
      | ok next => exact ih next (n + 1)

theorem Draft.reads_iff_takeAll {d e : Draft} {raws : List Text} :
    d.Reads raws e ↔ d.takeAll (visibleLines raws) = .ok e := by
  rw [← pushAll_eq_ok_iff (n := 1), ← mapError_pushAll d 1]
  cases d.pushAll 1 raws <;> simp [Except.mapError]

theorem Forest.parse_eq_ok_iff_takeAll {o : ParseOptions} {t : Text} {f : Forest} :
    Forest.parse o t = .ok f ↔
      ∃ d, (Draft.start o).takeAll (visibleLines (Text.lines t)) = .ok d ∧ d.forest = f := by
  rw [← Draft.mapError_pushAll (n := 1), parse, ofLines]
  cases (Draft.start o).pushAll 1 (Text.lines t) with
  | error e => simp [Except.map, Except.mapError]
  | ok d => simp [Except.map, Except.mapError]

theorem foldr_startLine_cons (a line : Text) (rest : List Text) :
    a.foldr startLine (line :: rest) = (a ++ line) :: rest := by
  induction a with
  | nil => rfl
  | cons c a ih => rw [List.foldr_cons, ih, startLine, List.cons_append]

theorem foldr_startLine_nil {a : Text} (h : a ≠ []) : a.foldr startLine [] = [a] := by
  obtain ⟨b, c, rfl⟩ := List.eq_nil_or_concat a |>.resolve_left h
  rw [List.concat_eq_append, List.foldr_append]
  exact foldr_startLine_cons b [c] []

theorem IndentedLine.split_append_of_blank {t b : Text}
    (h : ∀ c ∈ b, ScenarioForest.isBlank c = true) :
    IndentedLine.split (t ++ b) = IndentedLine.split t := by
  rw [split, split, Text.trimEnd_append_of_blank h]

theorem visibleLines_append (first second : List Text) :
    visibleLines (first ++ second) = visibleLines first ++ visibleLines second := by
  simp [visibleLines]

theorem visibleLines_foldr_startLine (a : Text) (rest : List Text) :
    visibleLines (a.foldr startLine ([] :: rest)) = visibleLines [a] ++ visibleLines rest := by
  rw [foldr_startLine_cons, List.append_nil, ← visibleLines_append, List.singleton_append]

theorem visibleLines_foldr_startLine_append (a : Text) {whole alone : List Text}
    {later : List IndentedLine} (h : visibleLines whole = visibleLines alone ++ later) :
    visibleLines (a.foldr startLine ([] :: whole)) =
      visibleLines (a.foldr startLine ([] :: alone)) ++ later := by
  rw [visibleLines_foldr_startLine, visibleLines_foldr_startLine, h, List.append_assoc]

/-- The text behind a line end has its lines for itself. The lines of the text before it are those
it has alone, as far as they are visible. -/
theorem visibleLines_foldr_lines_append (a t u : Text) :
    visibleLines (a.foldr startLine (Text.lines (t ++ '\n' :: u))) =
      visibleLines (a.foldr startLine (Text.lines t)) ++ visibleLines (Text.lines u) := by
  -- `a` is what was read of the line before `t`.
  induction t using Text.lines.induct generalizing a with
  | case1 =>
    have hwhole : Text.lines ([] ++ '\n' :: u) = [] :: Text.lines u := rfl
    have halone : visibleLines (a.foldr startLine (Text.lines [])) = visibleLines [a] := by
      by_cases ha : a = []
      · subst ha
        rfl
      · rw [Text.lines, foldr_startLine_nil ha]
    rw [hwhole, visibleLines_foldr_startLine, halone]
  | case2 t ih => exact visibleLines_foldr_startLine_append a (ih [])
  | case3 t ih => exact visibleLines_foldr_startLine_append a (ih [])
  | case4 c t hn hr ih =>
    by_cases hlast : c = '\r' ∧ t = []
    · obtain ⟨rfl, rfl⟩ := hlast
      have hwhole : Text.lines (['\r'] ++ '\n' :: u) = [] :: Text.lines u := rfl
      have halone : Text.lines ['\r'] = [['\r']] := rfl
      have hblank : ∀ c ∈ ['\r'], isBlank c = true := List.forall_mem_singleton.2 rfl
      rw [hwhole, halone, visibleLines_foldr_startLine, foldr_startLine_cons]
      simp [visibleLines, IndentedLine.split_append_of_blank hblank]
    · have hhead := Text.head?_ne_of_return hr
      have hwhole : Text.lines (c :: t ++ '\n' :: u) =
          startLine c (Text.lines (t ++ '\n' :: u)) := by
        refine Text.lines_cons_of_ne hn fun hc => ?_
        cases t with
        | nil => exact absurd ⟨hc, rfl⟩ hlast
        | cons d t => exact hhead hc
      have hfold : ∀ rest, a.foldr startLine (startLine c rest) = (a ++ [c]).foldr startLine rest :=
        fun rest => by simp
      rw [hwhole, Text.lines_cons_of_ne hn hhead, hfold, hfold]
      exact ih (a ++ [c])

theorem visibleLines_lines_append (t u : Text) : visibleLines (Text.lines (t ++ '\n' :: u)) =
    visibleLines (Text.lines t) ++ visibleLines (Text.lines u) :=
  visibleLines_foldr_lines_append [] t u

end ScenarioForest
