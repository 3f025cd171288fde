import ScenarioForest.Proofs.Line
import ScenarioForest.Proofs.Visible
set_option autoImplicit false

/-!
The layout of a document: how far each line is indented and what it says, blank lines left out.
Documents of one layout are read alike, whichever blanks stand in front of the lines, behind them
and between them.
-/

namespace ScenarioForest

def lineLayout (raw : Text) : Nat × Text := ((raw.takeWhile isBlank).length, Text.trim raw)

/-- The layout of a document, line by line. Lines of nothing but blanks do not count. -/
def Text.layout (t : Text) : List (Nat × Text) :=
  ((Text.lines t).filter (!·.all isBlank)).map lineLayout

/-- Two documents are read alike if they make the same forest, or have the same fault in whatever
lines. -/
def ReadAlike (o : ParseOptions) (t u : Text) : Prop :=
  (∃ f, Forest.parse o t = .ok f ∧ Forest.parse o u = .ok f) ∨
    ∃ fault m n, Forest.parse o t = .error ⟨m, fault⟩ ∧ Forest.parse o u = .error ⟨n, fault⟩

/-- Texts that differ only in blanks that say nothing. -/
inductive Text.Respaced : Text → Text → Prop where
  | refl (t : Text) : Respaced t t
  | symm {t u : Text} : Respaced t u → Respaced u t
  | trans {t u v : Text} : Respaced t u → Respaced u v → Respaced t v
  /-- Blanks behind the text, with or without a line end among them. -/
  | ending (t : Text) {w : Text} : (∀ c ∈ w, isBlank c = true) → Respaced (t ++ w) t
  /-- Blank lines in front of the text. -/
  | beginning {w : Text} (t : Text) : (∀ c ∈ w, isBlank c = true) → Respaced (w ++ '\n' :: t) t
  /-- The same number of other blanks in front of the first line. -/
  | indentation {a b : Text} (t : Text) : (∀ c ∈ a, isBlank c = true ∧ c ≠ '\n') →
      (∀ c ∈ b, isBlank c = true ∧ c ≠ '\n') → a.length = b.length → Respaced (a ++ t) (b ++ t)
  /-- Such differences on both sides of a line end. -/
  | lineEnd {t t' u u' : Text} : Respaced t t' → Respaced u u' →
      Respaced (t ++ '\n' :: u) (t' ++ '\n' :: u')

def Text.withReturns (t : Text) : Text := t.flatMap fun c => if c = '\n' then ['\r', '\n'] else [c]

theorem Text.exists_trimEnd_append (t : Text) :
    ∃ b, (∀ c ∈ b, isBlank c = true) ∧ t = Text.trimEnd t ++ b := by
  refine ⟨(t.reverse.takeWhile isBlank).reverse, fun c hc => ?_, ?_⟩
  · exact List.mem_takeWhile_imp (List.mem_reverse.1 hc)
  · rw [trimEnd, ← List.reverse_append, List.takeWhile_append_dropWhile, List.reverse_reverse]

theorem Text.exists_pad_trim (t : Text) : ∃ b, (∀ c ∈ b, isBlank c = true) ∧
    t = t.takeWhile isBlank ++ Text.trim t ++ b := by
  obtain ⟨b, hb, hend⟩ := exists_trimEnd_append (Text.trimStart t)
  refine ⟨b, hb, ?_⟩
  rw [trim, List.append_assoc, ← hend, trimStart, List.takeWhile_append_dropWhile]

theorem Text.trim_ne_nil_of_all {t : Text} (h : t.all isBlank = false) : Text.trim t ≠ [] := by
  rw [Ne, trim_eq_nil_iff, ← List.all_eq_true, h]
  decide

theorem IndentedLine.split_of_blank {raw : Text} (h : raw.all ScenarioForest.isBlank = true) :
    IndentedLine.split raw = ⟨0, []⟩ := by
  have hsplit := split_append_of_blank (t := []) (b := raw) (by simpa using h)
  exact hsplit

theorem IndentedLine.split_eq_lineLayout {raw : Text}
    (h : raw.all ScenarioForest.isBlank = false) :
    IndentedLine.split raw = ⟨(lineLayout raw).1, (lineLayout raw).2⟩ := by
  have hsaid := Text.trim_ne_nil_of_all h
  obtain ⟨b, hb, hraw⟩ := Text.exists_pad_trim raw
  have hfront : ∀ c ∈ raw.takeWhile ScenarioForest.isBlank, ScenarioForest.isBlank c = true :=
    fun c hc => List.mem_takeWhile_imp hc
  conv_lhs => rw [hraw]
  rw [split_append_of_blank hb, split_append hfront (Text.trimmed_trim raw) hsaid]
  rfl

theorem visibleLines_eq_map_lineLayout (raws : List Text) : visibleLines raws =
    ((raws.filter (!·.all isBlank)).map lineLayout).map fun p => ⟨p.1, p.2⟩ := by
  induction raws with
  | nil => rfl
  | cons raw rest ih =>
    rw [visibleLines_cons, ih]
    cases hb : raw.all isBlank with
    | true =>
      rw [IndentedLine.split_of_blank hb]
      simp [hb, IndentedLine.isBlank]
    | false =>
      have hsaid := Text.trim_ne_nil_of_all hb
      rw [IndentedLine.split_eq_lineLayout hb]
      simp [hb, IndentedLine.isBlank, lineLayout, hsaid]

theorem Text.visibleLines_eq_iff {t u : Text} :
    visibleLines (Text.lines t) = visibleLines (Text.lines u) ↔ t.layout = u.layout := by
  have hinj : Function.Injective fun p : Nat × Text => (⟨p.1, p.2⟩ : IndentedLine) := by
    intro p q h
    simpa [Prod.ext_iff] using h
  rw [visibleLines_eq_map_lineLayout, visibleLines_eq_map_lineLayout]
  exact (List.map_injective_iff.2 hinj).eq_iff

theorem ReadAlike.of_layout_eq (o : ParseOptions) {t u : Text} (h : t.layout = u.layout) :
    ReadAlike o t u := by
  rw [← Text.visibleLines_eq_iff] at h
  have hsame : ((Draft.start o).pushAll 1 (Text.lines t)).mapError (·.fault) =
      ((Draft.start o).pushAll 1 (Text.lines u)).mapError (·.fault) := by
    rw [Draft.mapError_pushAll, Draft.mapError_pushAll, h]
  unfold ReadAlike Forest.parse Forest.ofLines
  revert hsame
  cases (Draft.start o).pushAll 1 (Text.lines t) with
  | error e =>
    cases (Draft.start o).pushAll 1 (Text.lines u) with
    | error k =>
      intro hsame
      have hfault : e.fault = k.fault := Except.error.inj hsame
      exact .inr ⟨k.fault, e.lineNo, k.lineNo, by rw [← hfault]; rfl, rfl⟩
    | ok m =>
      intro hsame
      cases hsame
  | ok d =>
    cases (Draft.start o).pushAll 1 (Text.lines u) with
    | error k =>
      intro hsame
      cases hsame
    | ok m =>
      intro hsame
      cases hsame
      exact .inl ⟨d.forest, rfl, rfl⟩

theorem ReadAlike.parse_eq_ok {o : ParseOptions} {t u : Text} {f : Forest} (h : ReadAlike o t u)
    (hu : Forest.parse o u = .ok f) : Forest.parse o t = .ok f := by
  cases h with
  | inl h =>
    obtain ⟨g, ht, hg⟩ := h
    rw [hu] at hg
    cases hg
    exact ht
  | inr h =>
    obtain ⟨fault, m, n, -, hn⟩ := h
    rw [hu] at hn
    cases hn

theorem Text.line_induction {P : Text → Prop} (last : ∀ a, '\n' ∉ a → P a)
    (more : ∀ a t, '\n' ∉ a → P t → P (a ++ '\n' :: t)) (t : Text) : P t := by
  -- `a` is what was read of the line before `t`.
  have hread : ∀ a, '\n' ∉ a → P (a ++ t) := by
    induction t with
    | nil => simpa using last
    | cons c t ih =>
      intro a ha
      by_cases hc : c = '\n'
      · subst hc
        exact more a t ha (ih [] (by simp))
      · simpa using ih (a ++ [c]) (by simp [ha, Ne.symm hc])
  exact hread [] (by simp)

theorem Text.lines_eq_foldr {a : Text} (h : '\n' ∉ a) : Text.lines a = a.foldr startLine [] := by
  induction a with
  | nil => rfl
  | cons c a ih =>
    simp only [List.mem_cons, not_or] at h
    have hhead : a.head? ≠ some '\n' := fun hm => h.2 (List.mem_of_mem_head? hm)
    rw [lines_cons_of_ne (Ne.symm h.1) fun _ => hhead, ih h.2, List.foldr_cons]

theorem visibleLines_lines_of_oneLine {a : Text} (h : '\n' ∉ a) :
    visibleLines (Text.lines a) = visibleLines [a] := by
  rw [Text.lines_eq_foldr h]
  by_cases ha : a = []
  · subst ha
    rfl
  · rw [foldr_startLine_nil ha]

theorem visibleLines_lines_concat (t : Text) {c : Char} (h : isBlank c = true) :
    visibleLines (Text.lines (t ++ [c])) = visibleLines (Text.lines t) := by
  by_cases hc : c = '\n'
  · subst hc
    rw [visibleLines_lines_append]
    exact List.append_nil _
  · induction t using Text.line_induction with
    | last a ha =>
      have hline : '\n' ∉ a ++ [c] := by simp [ha, Ne.symm hc]
      rw [visibleLines_lines_of_oneLine hline, visibleLines_lines_of_oneLine ha]
      simp [visibleLines, IndentedLine.split_append_of_blank (List.forall_mem_singleton.2 h)]
    | more a t ha ih =>
      rw [List.append_assoc, List.cons_append, visibleLines_lines_append,
        visibleLines_lines_append, ih]

theorem visibleLines_lines_append_of_blank (t : Text) {w : Text}
    (h : ∀ c ∈ w, isBlank c = true) :
    visibleLines (Text.lines (t ++ w)) = visibleLines (Text.lines t) := by
  induction w generalizing t with
  | nil => rw [List.append_nil]
  | cons c w ih =>
    obtain ⟨hc, hw⟩ := List.forall_mem_cons.1 h
    rw [List.append_cons, ih _ hw, visibleLines_lines_concat t hc]

theorem visibleLines_lines_of_blank {w : Text} (h : ∀ c ∈ w, isBlank c = true) :
    visibleLines (Text.lines w) = [] :=
  visibleLines_lines_append_of_blank [] h

theorem lineLayout_append {a : Text} (t : Text) (h : ∀ c ∈ a, isBlank c = true) :
    lineLayout (a ++ t) = (a.length + (lineLayout t).1, (lineLayout t).2) := by
  simp only [lineLayout, Text.trim, List.takeWhile_append_of_pos h, List.length_append,
    Text.trimStart_append_of_blank h]

theorem visibleLines_indentation {a b : Text} (t : Text) (ha : ∀ c ∈ a, isBlank c = true)
    (hb : ∀ c ∈ b, isBlank c = true) (h : a.length = b.length) :
    visibleLines [a ++ t] = visibleLines [b ++ t] := by
  have hall : ∀ {w : Text}, (∀ c ∈ w, isBlank c = true) → (w ++ t).all isBlank = t.all isBlank := by
    intro w hw
    rw [List.all_append, List.all_eq_true.2 hw, Bool.true_and]
  rw [visibleLines_eq_map_lineLayout, visibleLines_eq_map_lineLayout, List.filter_singleton,
    List.filter_singleton, hall ha, hall hb]
  cases t.all isBlank with
  | true => rfl
  | false => simp [lineLayout_append t ha, lineLayout_append t hb, h]

theorem visibleLines_lines_indentation {a b : Text} (t : Text)
    (ha : ∀ c ∈ a, isBlank c = true ∧ c ≠ '\n') (hb : ∀ c ∈ b, isBlank c = true ∧ c ≠ '\n')
    (h : a.length = b.length) :
    visibleLines (Text.lines (a ++ t)) = visibleLines (Text.lines (b ++ t)) := by
  have hline : ∀ (w x : Text), (∀ c ∈ w, isBlank c = true ∧ c ≠ '\n') → '\n' ∉ x →
      '\n' ∉ w ++ x := by
    intro w x hw hx hm
    cases List.mem_append.1 hm with
    | inl hm => exact (hw _ hm).2 rfl
    | inr hm => exact hx hm
  have hsame : ∀ x, '\n' ∉ x →
      visibleLines (Text.lines (a ++ x)) = visibleLines (Text.lines (b ++ x)) := by
    intro x hx
    rw [visibleLines_lines_of_oneLine (hline a x ha hx),
      visibleLines_lines_of_oneLine (hline b x hb hx)]
    exact visibleLines_indentation x (fun c hc => (ha c hc).1) (fun c hc => (hb c hc).1) h
  induction t using Text.line_induction with
  | last x hx => exact hsame x hx
  | more x t hx =>
    rw [← List.append_assoc, ← List.append_assoc, visibleLines_lines_append,
      visibleLines_lines_append, hsame x hx]

theorem Text.Respaced.visibleLines_eq {t u : Text} (h : Text.Respaced t u) :
    visibleLines (Text.lines t) = visibleLines (Text.lines u) := by
  induction h with
  | refl => rfl
  | symm _ ih => exact ih.symm
  | trans _ _ ih ih' => exact ih.trans ih'
  | ending t hw => exact visibleLines_lines_append_of_blank t hw
  | beginning t hw =>
    rw [visibleLines_lines_append, visibleLines_lines_of_blank hw, List.nil_append]
  | indentation t ha hb hlength => exact visibleLines_lines_indentation t ha hb hlength
  | lineEnd _ _ ih ih' => rw [visibleLines_lines_append, visibleLines_lines_append, ih, ih']

theorem Text.withReturns_of_oneLine {a : Text} (h : '\n' ∉ a) : a.withReturns = a := by
  induction a with
  | nil => rfl
  | cons c a ih =>
    simp only [List.mem_cons, not_or] at h
    simpa [withReturns, Ne.symm h.1] using ih h.2

theorem Text.withReturns_append (t u : Text) : (t ++ '\n' :: u).withReturns =
    (t.withReturns ++ ['\r']) ++ '\n' :: u.withReturns := by
  simp [withReturns]

/-- A carriage return is one more blank behind its line. -/
theorem Text.respaced_withReturns (t : Text) : t.withReturns.Respaced t := by
  induction t using Text.line_induction with
  | last a ha =>
    rw [withReturns_of_oneLine ha]
    exact .refl a
  | more a t ha ih =>
    rw [withReturns_append, withReturns_of_oneLine ha]
    exact .lineEnd (.ending a (List.forall_mem_singleton.2 rfl)) ih

/-- How far the lines are indented and what they say is all that reading sees. Blank lines, blanks
behind a line, carriage returns, a line end behind the last line, and which blanks an indentation
is made of make no difference. -/
theorem parse_depends_on_layout (o : ParseOptions) (t u : Text) :
    (t.layout = u.layout → ReadAlike o t u) ∧ (t.Respaced u → ReadAlike o t u) ∧
      ReadAlike o t.withReturns t := by
  have hrespaced : ∀ {v w : Text}, v.Respaced w → ReadAlike o v w := fun h =>
    .of_layout_eq o (Text.visibleLines_eq_iff.1 h.visibleLines_eq)
  exact ⟨.of_layout_eq o, hrespaced, hrespaced (Text.respaced_withReturns t)⟩

def plainDocument : Text := "Scenario: A\n    Given b\n    Then c".toList

def spacedDocument : Text :=
  "\n \t\nScenario: A \r\n\t \t Given b\t\n\r\n\u3000\u3000\u3000\u3000Then c\r\n".toList

theorem parse_depends_on_layout_spaced : spacedDocument.layout = plainDocument.layout ∧
    Text.Respaced ('\n' :: plainDocument) plainDocument ∧
    ∃ f, Forest.parse {} plainDocument = .ok f ∧ Forest.parse {} spacedDocument = .ok f ∧
      Forest.parse {} ('\n' :: plainDocument) = .ok f ∧ f.scenarios.length = 1 := by
  have hlayout : spacedDocument.layout = plainDocument.layout := by decide +kernel
  have hrespaced : Text.Respaced ('\n' :: plainDocument) plainDocument :=
    .beginning (w := []) plainDocument (by simp)
  have hread : (Forest.parse {} plainDocument).toOption.map (·.scenarios.length) = some 1 := by
    decide +kernel
  obtain ⟨f, hf, hlength⟩ := Forest.exists_parse_of_map hread
  exact ⟨hlayout, hrespaced, f, hf,
    ((parse_depends_on_layout {} spacedDocument plainDocument).1 hlayout).parse_eq_ok hf,
    ((parse_depends_on_layout {} ('\n' :: plainDocument) plainDocument).2.1 hrespaced).parse_eq_ok
      hf, hlength⟩

end ScenarioForest
