import ScenarioForest.Proofs.RowPattern
import ScenarioForest.Proofs.Written
set_option autoImplicit false

/-!
Steps by their pattern and by their grammar. The text of a step goes on only as long as no comment
up to the end of the line can be made of what follows, so the first mark ends it that stands behind
its first character and has something behind it.
-/

namespace ScenarioForest

def keywordPattern : Pattern :=
  .either (.word (Keyword.primary .prerequisite).text)
    (.either (.word (Keyword.primary .action).text)
      (.either (.word (Keyword.primary .assertion).text)
        (.either (.word Keyword.and.text) (.word Keyword.but.text))))

/-- The text takes as little as it can. -/
def stepPattern : Pattern :=
  .seq (.noted "keyword" keywordPattern) (.seq (.word [' '])
    (.seq (.noted "text" (.oneOrMore false (.one (· != '\n')))) endPattern))

def StepLine.ofNotes? (notes : List (String × Text)) : Option StepLine :=
  (notes.lookup "keyword").bind fun word => (Keyword.read word).toOption.bind fun k =>
    (notes.lookup "text").map fun text =>
      ⟨k, Text.trim text, (notes.lookup "comment").map Text.trim⟩

theorem takes_keywordPattern : keywordPattern.Takes fun x => ∃ k : Keyword, x = k.text := by
  refine ((Pattern.takes_word _).either ((Pattern.takes_word _).either ((Pattern.takes_word _).either
    ((Pattern.takes_word _).either (Pattern.takes_word _))))).congr fun x => ?_
  constructor
  · intro h
    rcases h with h | h | h | h | h <;> exact ⟨_, h⟩
  · intro h
    obtain ⟨k, rfl⟩ := h
    rcases k with (_ | _ | _) | _ | _ <;> simp

/-- No word is the beginning of another, so at most one of the five can be taken. -/
theorem mem_ways_keyword (k : Keyword) (t : Text) (m : Take) :
    m ∈ (Pattern.noted "keyword" keywordPattern).ways (k.text ++ t) ↔
      m ∈ some (⟨k.text, [("keyword", k.text)], t⟩ : Take) := by
  rw [takes_keywordPattern.mem_ways_noted, Option.mem_some_iff]
  constructor
  · intro h
    obtain ⟨x, rest, ht, ⟨l, rfl⟩, rfl⟩ := h
    obtain rfl := Keyword.eq_of_text_append ht
    rw [List.append_cancel_left ht]
  · intro h
    exact ⟨k.text, t, rfl, ⟨k, rfl⟩, h.symm⟩

theorem rowEnd?_of_newline {t : Text} (h : '\n' ∈ t) : rowEnd? t = none := by
  rw [Option.eq_none_iff_forall_ne_some]
  intro comment hend
  obtain ⟨rfl, hline⟩ := rowEnd?_eq_some_iff_elim.1 hend
  cases comment with
  | none => simp at h
  | some c => exact (hline c rfl).2 (by simpa [commentMark] using h)

theorem findSome?_text {β : Type} (t : Text) (g : Text → List (String × Text) → Option Text → β) :
    ((Pattern.repeated false (.one (· != '\n'))).ways t).findSome?
        (fun m => (rowEnd? m.rest).map (g m.taken m.notes)) =
      if '\n' ∈ t then none else some (g (Text.cutComment t).1 [] (Text.cutComment t).2) := by
  induction t generalizing g with
  | nil =>
    rw [Pattern.findSome?_lazy _ (Pattern.length_rest_one _ _)]
    rfl
  | cons c t ih =>
    rw [Pattern.findSome?_lazy _ (Pattern.length_rest_one _ _), Pattern.oneOrMore,
      Pattern.findSome?_seq, Pattern.findSome?_one]
    simp only [Take.andThen, Take.nothing]
    rw [ih fun taken notes => g ([c] ++ taken) (notes ++ [])]
    by_cases hn : '\n' ∈ c :: t
    · rw [rowEnd?_of_newline hn, if_pos hn]
      cases List.mem_cons.1 hn with
      | inl hc => simp [← hc]
      | inr ht => simp [ht]
    · obtain ⟨hc, ht⟩ := not_or.1 (mt List.mem_cons.2 hn)
      rw [if_neg hn, Text.cutComment]
      cases hcut : Text.comment? (c :: t) with
      | some k =>
        -- A comment reaches from here to the end of the line, so the repetition stops.
        obtain ⟨hmark, hne⟩ := Text.comment?_eq_some_iff.1 hcut
        have hk : '\n' ∉ k := fun hm => hn (by rw [hmark]; simp [hm])
        rw [hmark, rowEnd?_eq_some_iff.2 ⟨rfl, hne, hk⟩]
        rfl
      | none =>
        -- Nothing can end here, so one more character is taken.
        have hend : rowEnd? (c :: t) = none := by simp [rowEnd?, hcut]
        simp [hend, ht, Ne.symm hc]

theorem notes?_stepPattern (k : Keyword) (c : Char) (rest : Text) :
    stepPattern.notes? (k.text ++ ' ' :: c :: rest) =
      if '\n' ∈ c :: rest then none
      else some (endNotes (Text.cutComment rest).2 ++
        [("text", c :: (Text.cutComment rest).1), ("keyword", k.text)]) := by
  have htext := findSome?_text rest fun taken notes comment =>
    endNotes comment ++ ("text", c :: taken) :: (notes ++ [("keyword", k.text)])
  rw [Pattern.notes?_eq_findSome?, stepPattern, Pattern.findSome?_seq,
    findSome?_of_mem_iff (mem_ways_keyword k _), Option.bind_some, Pattern.findSome?_seq]
  refine (Pattern.findSome?_word _ [' ']).trans ?_
  rw [Pattern.findSome?_seq, Pattern.findSome?_noted, Pattern.oneOrMore, Pattern.findSome?_seq,
    Pattern.findSome?_one]
  by_cases hc : c = '\n'
  · simp [hc]
  · have hmem : '\n' ∈ c :: rest ↔ '\n' ∈ rest := by simp [Ne.symm hc]
    simp only [hmem, bne_iff_ne, ne_eq, hc, not_false_eq_true, if_true]
    refine Eq.trans ?_ htext
    congr 1
    funext m
    rw [findSome?_of_mem_iff fun _ => mem_ways_endPattern]
    simp only [Take.andThen, Take.noted]
    cases rowEnd? m.rest with
    | none => rfl
    | some comment => simp

theorem StepLine.ofNotes?_text (k : Keyword) (text : Text) (comment : Option Text) :
    StepLine.ofNotes? (endNotes comment ++ [("text", text), ("keyword", k.text)]) =
      some ⟨k, Text.trim text, comment.map Text.trim⟩ := by
  cases comment <;> simp [ofNotes?, endNotes, List.lookup_cons, Keyword.read_text, Except.toOption]

theorem exists_of_mem_ways_stepPattern {s : Text} {m : Take} (h : m ∈ stepPattern.ways s) :
    ∃ (k : Keyword) (c : Char) (rest : Text), s = k.text ++ ' ' :: c :: rest := by
  obtain ⟨a, ha, b, hb, -⟩ := Pattern.mem_ways_seq.1 h
  obtain ⟨x, t, rfl, ⟨k, rfl⟩, rfl⟩ := takes_keywordPattern.mem_ways_noted.1 ha
  obtain ⟨r, ht, d, hd, -⟩ := Pattern.mem_ways_word_seq.1 hb
  obtain ⟨e, he, -⟩ := Pattern.mem_ways_seq.1 hd
  obtain ⟨y, rest, rfl, ⟨hne, -⟩, -⟩ :=
    (Pattern.takes_oneOrMore_one false (· != '\n')).mem_ways_noted.1 he
  obtain ⟨c, y, rfl⟩ := List.exists_cons_of_ne_nil hne
  exact ⟨k, c, y ++ rest, congrArg (k.text ++ ·) ht⟩

theorem StepLine.read?_eq_notes (s : Text) :
    StepLine.read? s = (stepPattern.notes? s).bind StepLine.ofNotes? := by
  by_cases hstep : ∃ (k : Keyword) (c : Char) (rest : Text), s = k.text ++ ' ' :: c :: rest
  · obtain ⟨k, c, rest, rfl⟩ := hstep
    rw [notes?_stepPattern]
    by_cases hn : '\n' ∈ c :: rest
    · rw [if_pos hn, Option.bind_none, Option.eq_none_iff_forall_ne_some]
      intro l hl
      obtain ⟨d, more, hs, hline, -⟩ := read?_eq_some_iff.1 hl
      obtain rfl := Keyword.eq_of_text_append hs
      rw [(List.cons.inj (List.append_cancel_left hs)).2] at hn
      exact hline hn
    · rw [if_neg hn, Option.bind_some, ofNotes?_text]
      exact read?_eq_some_iff.2 ⟨c, rest, rfl, hn, rfl, rfl⟩
  · have hread : StepLine.read? s = none := by
      rw [Option.eq_none_iff_forall_ne_some]
      intro l hl
      obtain ⟨c, rest, hs, -⟩ := read?_eq_some_iff.1 hl
      exact hstep ⟨l.keyword, c, rest, hs⟩
    have hnone : stepPattern.notes? s = none := by
      rw [Pattern.notes?_eq_findSome?, List.findSome?_eq_none_iff]
      exact fun m hm => absurd (exists_of_mem_ways_stepPattern hm) hstep
    rw [hread, hnone]
    rfl

/-- Where a comment starts: behind the first character, at a mark that something follows. -/
def CommentAt (r : Text) (p : Nat) (c : Text) : Prop :=
  1 ≤ p ∧ r.drop p = commentMark ++ c ∧ c ≠ []

inductive StepLine.Splits (r : Text) : Text → Option Text → Prop where
  | commented {p : Nat} {c : Text} (starts : CommentAt r p c)
      (first : ∀ q < p, ∀ d, ¬ CommentAt r q d) :
      Splits r (Text.trim (r.take p)) (some (Text.trim c))
  | plain (nowhere : ∀ p c, ¬ CommentAt r p c) : Splits r (Text.trim r) none

theorem commentAt_cons_succ {c : Char} {t k : Text} {p : Nat} :
    CommentAt (c :: t) (p + 1) k ↔ Text.comment? (t.drop p) = some k := by
  simp [CommentAt, Text.comment?_eq_some_iff]

theorem not_commentAt_zero (r c : Text) : ¬ CommentAt r 0 c := fun h => absurd h.1 (by simp)

theorem Text.cutComment_cases (t : Text) :
    (∃ p k, Text.cutComment t = (t.take p, some k) ∧ Text.comment? (t.drop p) = some k ∧
      ∀ q < p, Text.comment? (t.drop q) = none) ∨
    Text.cutComment t = (t, none) ∧ ∀ q, Text.comment? (t.drop q) = none := by
  induction t with
  | nil => exact .inr ⟨rfl, fun q => by rw [List.drop_nil]; rfl⟩
  | cons c t ih =>
    rw [cutComment]
    cases hfront : Text.comment? (c :: t) with
    | some k => exact .inl ⟨0, k, rfl, hfront, by simp⟩
    | none =>
      cases ih with
      | inl ih =>
        obtain ⟨p, k, hcut, hk, hfirst⟩ := ih
        refine .inl ⟨p + 1, k, by rw [hcut, List.take_succ_cons], hk, fun q hq => ?_⟩
        cases q with
        | zero => exact hfront
        | succ q => exact hfirst q (Nat.lt_of_succ_lt_succ hq)
      | inr ih =>
        obtain ⟨hcut, hnone⟩ := ih
        refine .inr ⟨by rw [hcut], fun q => ?_⟩
        cases q with
        | zero => exact hfront
        | succ q => exact hnone q

theorem StepLine.splits_cutComment (c : Char) (rest : Text) :
    Splits (c :: rest) (Text.trim (c :: (Text.cutComment rest).1))
      ((Text.cutComment rest).2.map Text.trim) := by
  cases Text.cutComment_cases rest with
  | inl h =>
    obtain ⟨p, k, hcut, hk, hfirst⟩ := h
    rw [hcut, ← List.take_succ_cons]
    refine .commented (commentAt_cons_succ.2 hk) fun q hq d hd => ?_
    cases q with
    | zero => exact not_commentAt_zero _ _ hd
    | succ q =>
      rw [commentAt_cons_succ, hfirst q (Nat.lt_of_succ_lt_succ hq)] at hd
      cases hd
  | inr h =>
    obtain ⟨hcut, hnone⟩ := h
    rw [hcut]
    refine .plain fun q d hd => ?_
    cases q with
    | zero => exact not_commentAt_zero _ _ hd
    | succ q =>
      rw [commentAt_cons_succ, hnone q] at hd
      cases hd

theorem StepLine.Splits.unique {r text otherText : Text} {comment other : Option Text}
    (h : Splits r text comment) (ho : Splits r otherText other) :
    text = otherText ∧ comment = other := by
  cases h with
  | commented hstarts hfirst =>
    cases ho with
    | commented hother hotherFirst =>
      obtain rfl := Nat.le_antisymm (Nat.le_of_not_lt fun hlt => hfirst _ hlt _ hother)
        (Nat.le_of_not_lt fun hlt => hotherFirst _ hlt _ hstarts)
      obtain rfl := List.append_cancel_left (hstarts.2.1.symm.trans hother.2.1)
      exact ⟨rfl, rfl⟩
    | plain hnowhere => exact absurd hstarts (hnowhere _ _)
  | plain hnowhere =>
    cases ho with
    | commented hother _ => exact absurd hother (hnowhere _ _)
    | plain _ => exact ⟨rfl, rfl⟩

theorem StepLine.isReadFrom_iff {l : StepLine} {s : Text} : l.IsReadFrom s ↔
    ∃ r, s = l.keyword.text ++ ' ' :: r ∧ r ≠ [] ∧ '\n' ∉ r ∧ Splits r l.text l.comment := by
  constructor
  · intro h
    obtain ⟨c, rest, hs, hn, htext, hcomment⟩ := h
    refine ⟨c :: rest, hs, by simp, hn, ?_⟩
    rw [htext, hcomment]
    exact splits_cutComment c rest
  · intro h
    obtain ⟨r, hs, hne, hn, hsplits⟩ := h
    obtain ⟨c, rest, rfl⟩ := List.exists_cons_of_ne_nil hne
    obtain ⟨htext, hcomment⟩ := hsplits.unique (splits_cutComment c rest)
    exact ⟨c, rest, hs, hn, htext, hcomment⟩

/-- A line is read as a step exactly if it is a keyword, a space and at least one more character.
It says what its pattern notes of it, which is what stands before the first mark and behind it. What
is said may be written again behind any keyword, and is then read as it stands. -/
theorem Line.read_step_grammar (s : Text) (w : Bool) :
    ((∃ l, Line.read s w = .step l) ↔
      ∃ (k : Keyword) (r : Text), s = k.text ++ ' ' :: r ∧ r ≠ [] ∧ '\n' ∉ r) ∧
    ∀ l, (Line.read s w = .step l ↔ (stepPattern.notes? s).bind StepLine.ofNotes? = some l) ∧
      (Line.read s w = .step l ↔ ∃ r, s = l.keyword.text ++ ' ' :: r ∧ r ≠ [] ∧ '\n' ∉ r ∧
        StepLine.Splits r l.text l.comment) ∧
      (Line.read s w = .step l → l.text ≠ [] → ∀ (k : Keyword) (v : Bool),
        Line.read (k.text ++ ' ' :: l.text) v = .step ⟨k, l.text, none⟩) := by
  have hstep : ∀ l, Line.read s w = .step l ↔ l.IsReadFrom s := fun l =>
    read_eq_step_iff.trans StepLine.read?_eq_some_iff
  refine ⟨⟨fun h => ?_, fun h => ?_⟩, fun l => ⟨?_, ?_, fun h hne k v => ?_⟩⟩
  · obtain ⟨l, hl⟩ := h
    obtain ⟨c, rest, hs, hn, -⟩ := (hstep l).1 hl
    exact ⟨l.keyword, c :: rest, hs, by simp, hn⟩
  · obtain ⟨k, r, hs, hne, hn⟩ := h
    obtain ⟨c, rest, rfl⟩ := List.exists_cons_of_ne_nil hne
    exact ⟨⟨k, _, _⟩, (hstep _).2 ⟨c, rest, hs, hn, rfl, rfl⟩⟩
  · rw [read_eq_step_iff, StepLine.read?_eq_notes]
  · exact (hstep l).trans StepLine.isReadFrom_iff
  · have hread := read_eq_step_iff.1 h
    exact read_keyword_append k ⟨StepLine.tidy_text hread, hne⟩ (StepLine.unmarked_text hread) v

theorem Line.read_step_grammar_marked :
    Line.read "When  # a # b".toList false =
      .step ⟨.primary .action, "# a".toList, some "b".toList⟩ ∧
    Line.read "But # a".toList true = .step ⟨.but, "# a".toList, none⟩ := by
  have h : Line.read "When  # a # b".toList false =
    .step ⟨.primary .action, "# a".toList, some "b".toList⟩ := by decide
  exact ⟨h, ((Line.read_step_grammar _ _).2 _).2.2 h (by decide) .but true⟩

end ScenarioForest
