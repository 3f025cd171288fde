import ScenarioForest.Proofs.Line
import ScenarioForest.Proofs.Pattern
set_option autoImplicit false

/-!
Rows by their pattern and by their grammar. The pattern takes as many cells as it can, and gives them
back one by one while the end of the row does not fit. What it finds is the form with the most cells.
-/

namespace ScenarioForest

def commentPattern : Pattern :=
  .seq (.word commentMark) (.noted "comment" (.oneOrMore true (.one (· != '\n'))))

def endPattern : Pattern := .seq (.optional commentPattern) .finish

def endNotes (comment : Option Text) : List (String × Text) :=
  comment.toList.map fun c => ("comment", c)

theorem eq_nil_of_rowEnd? {t : Text} (h : rowEnd? t = some none) : t = [] := by
  unfold rowEnd? at h
  split at h
  · next hnil => exact List.isEmpty_iff.1 hnil
  · split at h
    · split at h <;> cases h
    · cases h

theorem forall_bne_iff {t : Text} {d : Char} : (∀ c ∈ t, (c != d) = true) ↔ d ∉ t := by
  simp only [bne_iff_ne, ne_eq]
  exact ⟨fun h hm => h _ hm rfl, fun h c hc heq => h (heq ▸ hc)⟩

theorem mem_ways_commentPattern {t : Text} {m : Take} : m ∈ commentPattern.ways t ↔
    ∃ c rest, t = commentMark ++ (c ++ rest) ∧ c ≠ [] ∧ '\n' ∉ c ∧
      m = ⟨commentMark ++ c, [("comment", c)], rest⟩ := by
  have hline := Pattern.takes_oneOrMore_one true (· != '\n')
  rw [commentPattern, Pattern.mem_ways_word_seq]
  constructor
  · intro h
    obtain ⟨s, rfl, b, hb, rfl⟩ := h
    obtain ⟨c, rest, rfl, ⟨hne, hc⟩, rfl⟩ := hline.mem_ways_noted.1 hb
    exact ⟨c, rest, rfl, hne, forall_bne_iff.1 hc, rfl⟩
  · intro h
    obtain ⟨c, rest, rfl, hne, hc, rfl⟩ := h
    exact ⟨_, rfl, _, hline.mem_ways_noted.2 ⟨c, rest, rfl, ⟨hne, forall_bne_iff.2 hc⟩, rfl⟩, rfl⟩

theorem mem_ways_endPattern {t : Text} {m : Take} :
    m ∈ endPattern.ways t ↔ m ∈ (rowEnd? t).map fun comment => ⟨t, endNotes comment, []⟩ := by
  rw [endPattern, Pattern.mem_ways_seq, Option.mem_def, Option.map_eq_some_iff]
  constructor
  · intro h
    obtain ⟨a, ha, b, hb, rfl⟩ := h
    obtain ⟨hrest, rfl⟩ := Pattern.mem_ways_finish.1 hb
    cases Pattern.mem_ways_either.1 ha with
    | inl ha =>
      obtain ⟨c, rest, rfl, hne, hc, rfl⟩ := mem_ways_commentPattern.1 ha
      obtain rfl : rest = [] := hrest
      rw [List.append_nil]
      refine ⟨some c, rowEnd?_eq_some_iff.2 ⟨rfl, hne, hc⟩, ?_⟩
      simp [endNotes, Take.andThen, Take.nothing]
    | inr ha =>
      obtain ⟨w, rest, rfl, rfl, rfl⟩ := (Pattern.takes_word _ _ _).1 ha
      obtain rfl : rest = [] := hrest
      exact ⟨none, rfl, rfl⟩
  · intro h
    obtain ⟨comment, hend, rfl⟩ := h
    cases comment with
    | none =>
      obtain rfl := eq_nil_of_rowEnd? hend
      have hnothing := (Pattern.takes_word [] [] _).2 ⟨[], [], rfl, rfl, rfl⟩
      exact ⟨_, Pattern.mem_ways_either.2 (.inr hnothing), _, Pattern.mem_ways_finish.2 ⟨rfl, rfl⟩, rfl⟩
    | some c =>
      obtain ⟨rfl, hne, hc⟩ := rowEnd?_eq_some_iff.1 hend
      have hcomment := mem_ways_commentPattern.2 ⟨c, [], by rw [List.append_nil], hne, hc, rfl⟩
      refine ⟨_, Pattern.mem_ways_either.2 (.inl hcomment), _, Pattern.mem_ways_finish.2 ⟨rfl, rfl⟩, ?_⟩
      simp [endNotes, Take.andThen, Take.nothing]

def cellPattern : Pattern :=
  .seq (.word [' ']) (.seq (.repeated true (.one (· != '|')))
    (.seq (.oneOrMore true (.one (· == ' '))) (.word ['|'])))

theorem isCell_iff {x : Text} :
    isCell x = true ↔ 2 ≤ x.length ∧ x.head? = some ' ' ∧ x.getLast? = some ' ' := by
  simp [isCell, and_assoc]

theorem isCell_iff_exists {x : Text} : isCell x = true ↔ ∃ y, x = ' ' :: (y ++ [' ']) := by
  rw [isCell_iff]
  constructor
  · intro h
    obtain ⟨hlength, hhead, hlast⟩ := h
    obtain ⟨z, rfl⟩ := List.head?_eq_some_iff.1 hhead
    cases List.eq_nil_or_concat z with
    | inl hnil => simp [hnil] at hlength
    | inr hz =>
      obtain ⟨y, c, rfl⟩ := hz
      exact ⟨y, by simpa [List.getLast?_cons] using hlast⟩
  · intro h
    obtain ⟨y, rfl⟩ := h
    simp [List.getLast?_cons]

theorem eq_of_append_bar {x y s t : Text} (hx : '|' ∉ x) (hy : '|' ∉ y)
    (h : x ++ '|' :: s = y ++ '|' :: t) : x = y ∧ s = t := by
  have htake : ∀ {z r : Text}, '|' ∉ z → (z ++ '|' :: r).takeWhile (· != '|') = z := by
    intro z r hz
    rw [List.takeWhile_append_of_pos fun c hc => by
      rw [bne_iff_ne]
      intro heq
      exact hz (heq ▸ hc)]
    simp
  have hxy : x = y := by rw [← htake (r := s) hx, h, htake hy]
  subst hxy
  exact ⟨rfl, (List.cons.inj (List.append_cancel_left h)).2⟩

/-- The spaces of a cell may be shared out in several ways, and all of them take the same. -/
theorem takes_cellPattern :
    cellPattern.Takes fun z => ∃ x, isCell x = true ∧ '|' ∉ x ∧ z = x ++ ['|'] := by
  refine ((Pattern.takes_word _).seq ((Pattern.takes_repeated_one _ _).seq
    ((Pattern.takes_oneOrMore_one _ _).seq (Pattern.takes_word _)))).congr fun z => ?_
  constructor
  · intro h
    obtain ⟨w, v, rfl, ⟨y, u, hy, ⟨s, bar, ⟨hne, hs⟩, rfl, rfl⟩, rfl⟩, rfl⟩ := h
    cases List.eq_nil_or_concat s with
    | inl hnil => exact absurd hnil hne
    | inr hconcat =>
      obtain ⟨s, c, rfl⟩ := hconcat
      obtain rfl : c = ' ' := by simpa using hs c (by simp)
      have hspaces : '|' ∉ s := fun hm => by simpa using hs '|' (by simp [hm])
      refine ⟨' ' :: (y ++ s ++ [' ']), isCell_iff_exists.2 ⟨_, rfl⟩, ?_, by simp⟩
      simp [forall_bne_iff.1 hy, hspaces]
  · intro h
    obtain ⟨x, hx, hb, rfl⟩ := h
    obtain ⟨y, rfl⟩ := isCell_iff_exists.1 hx
    have hy : '|' ∉ y := fun hm => hb (by simp [hm])
    exact ⟨_, _, rfl, ⟨y, _, forall_bne_iff.2 hy, ⟨[' '], _, by simp, rfl, rfl⟩, rfl⟩, by simp⟩

theorem mem_ways_cellPattern {x rest : Text} (hx : isCell x = true) (hb : '|' ∉ x) (m : Take) :
    m ∈ cellPattern.ways (x ++ '|' :: rest) ↔ m ∈ some (⟨x ++ ['|'], [], rest⟩ : Take) := by
  rw [takes_cellPattern, Option.mem_some_iff]
  constructor
  · intro h
    obtain ⟨z, more, hz, ⟨y, -, hy, rfl⟩, rfl⟩ := h
    rw [List.append_assoc, List.singleton_append] at hz
    obtain ⟨rfl, rfl⟩ := eq_of_append_bar hb hy hz
    rfl
  · intro h
    exact ⟨_, rest, by simp, ⟨x, hx, hb, rfl⟩, h.symm⟩

theorem length_rest_cellPattern (t : Text) :
    ∀ m ∈ cellPattern.ways t, m.rest.length < t.length :=
  takes_cellPattern.length_rest (by simp) t

/-- Cells are taken as they are read: as many as can be, with the end of the row behind them. -/
theorem findSome?_cells {β : Type} (t : Text) (g : Text → List (String × Text) → Option Text → β) :
    ((cellPattern.oneOrMore true).ways t).findSome?
        (fun m => (rowEnd? m.rest).map (g m.taken m.notes)) =
      (readCells [] t).map fun found => g (found.1.flatMap (· ++ ['|'])) [] found.2 := by
  induction hn : t.length using Nat.strongRecOn generalizing t g with
  | ind n ih =>
    rw [Pattern.oneOrMore, Pattern.findSome?_seq]
    by_cases hcell : ∃ x rest, t = x ++ '|' :: rest ∧ '|' ∉ x ∧ isCell x = true
    · obtain ⟨x, rest, rfl, hb, hx⟩ := hcell
      have hshorter : rest.length < n := by
        rw [← hn, List.length_append, List.length_cons]
        omega
      have hmore := ih _ hshorter rest (fun taken notes => g (x ++ ['|'] ++ taken) (notes ++ [])) rfl
      rw [findSome?_of_mem_iff (mem_ways_cellPattern hx hb), Option.bind_some,
        Pattern.findSome?_greedy _ (length_rest_cellPattern rest), readCells_append hb,
        List.append_nil, readCells_bar hx, readRest?]
      simp only [Take.andThen, Take.nothing]
      rw [hmore]
      cases readCells [] rest with
      | some found => simp
      | none => cases rowEnd? rest <;> simp
    · have hnone : readCells [] t = none := by
        rw [← Option.not_isSome_iff_eq_none, readCells_isSome_iff]
        intro h
        obtain ⟨x, rest, ht, hb, hx, -⟩ := h
        exact hcell ⟨x, rest, ht, hb, hx⟩
      rw [hnone, Option.map_none, List.findSome?_eq_none_iff]
      intro m hm
      obtain ⟨z, rest, rfl, ⟨x, hx, hb, rfl⟩, rfl⟩ := (takes_cellPattern _ _).1 hm
      exact absurd ⟨x, rest, by simp, hb, hx⟩ hcell

def rowPattern : Pattern :=
  .seq (.noted "row" (.seq (.word ['|']) (cellPattern.oneOrMore true))) endPattern

def Text.betweenBars? : Text → Option Text
  | '|' :: t => if t.getLast? = some '|' then some t.dropLast else none
  | _ => none

/-- The row that is made of what the pattern noted: its cells are what stands between bars. -/
def Row.ofNotes? (notes : List (String × Text)) : Option Row :=
  (notes.lookup "row").bind fun row => (Text.betweenBars? row).map fun inner =>
    ⟨(inner.splitOn '|').map Text.trim, (notes.lookup "comment").map Text.trim⟩

theorem flatMap_bar {cells : List Text} (h : cells ≠ []) :
    cells.flatMap (· ++ ['|']) = ['|'].intercalate cells ++ ['|'] := by
  induction cells with
  | nil => exact absurd rfl h
  | cons x rest ih =>
    cases rest with
    | nil => simp
    | cons y rest => rw [List.flatMap_cons, ih (by simp), List.intercalate_cons_cons]; simp

theorem Row.ofNotes?_cells {cells : List Text} (hne : cells ≠ []) (hb : ∀ x ∈ cells, '|' ∉ x)
    (comment : Option Text) :
    Row.ofNotes? (endNotes comment ++ [("row", '|' :: cells.flatMap (· ++ ['|']))]) =
      some ⟨cells.map Text.trim, comment.map Text.trim⟩ := by
  have hinner : Text.betweenBars? ('|' :: cells.flatMap (· ++ ['|'])) =
      some (['|'].intercalate cells) := by
    rw [flatMap_bar hne, Text.betweenBars?, if_pos (by simp), List.dropLast_concat]
  have hrow : (endNotes comment ++ [("row", '|' :: cells.flatMap (· ++ ['|']))]).lookup "row" =
      some ('|' :: cells.flatMap (· ++ ['|'])) := by
    cases comment <;> simp [endNotes, List.lookup_cons]
  have hcomment : (endNotes comment ++ [("row", '|' :: cells.flatMap (· ++ ['|']))]).lookup
      "comment" = comment := by
    cases comment <;> simp [endNotes, List.lookup_cons]
  rw [ofNotes?, hrow, Option.bind_some, hinner, Option.map_some, hcomment,
    List.splitOn_intercalate '|' hb hne]

theorem notes?_rowPattern (t : Text) : rowPattern.notes? ('|' :: t) =
    (readCells [] t).map fun found =>
      endNotes found.2 ++ [("row", '|' :: found.1.flatMap (· ++ ['|']))] := by
  have hcells := findSome?_cells t fun taken notes comment =>
    endNotes comment ++ ("row", '|' :: taken) :: notes
  rw [Pattern.notes?_eq_findSome?, rowPattern, Pattern.findSome?_seq, Pattern.findSome?_noted,
    Pattern.findSome?_seq]
  refine (Pattern.findSome?_word _ ['|']).trans (Eq.trans ?_ hcells)
  congr 1
  funext m
  rw [findSome?_of_mem_iff fun _ => mem_ways_endPattern]
  simp only [Take.andThen, Take.noted]
  cases rowEnd? m.rest with
  | none => rfl
  | some comment => simp

theorem Row.read?_eq_notes (s : Text) :
    Row.read? s = (rowPattern.notes? s).bind Row.ofNotes? := by
  by_cases hbar : ∃ t, s = '|' :: t
  · obtain ⟨t, rfl⟩ := hbar
    rw [read?, notes?_rowPattern]
    cases hread : readCells [] t with
    | none => rfl
    | some found =>
      obtain ⟨hne, hall, -⟩ := readCells_sound hread (by simp)
      rw [Option.map_some, Option.map_some, Option.bind_some,
        ofNotes?_cells hne fun x hx => (hall x hx).2]
  · have hread : Row.read? s = none := by
      unfold read?
      split
      · next t => exact absurd ⟨t, rfl⟩ hbar
      · rfl
    have hnone : rowPattern.notes? s = none := by
      rw [Pattern.notes?_eq_findSome?, List.findSome?_eq_none_iff]
      intro m hm
      obtain ⟨a, ha, -⟩ := Pattern.mem_ways_seq.1 hm
      obtain ⟨b, hb, -⟩ := Pattern.mem_ways_noted.1 ha
      obtain ⟨t, rfl, -⟩ := Pattern.mem_ways_word_seq.1 hb
      exact absurd ⟨t, rfl⟩ hbar
    rw [hread, hnone]
    rfl

/-- A form of a row: cells with a space on each side between bars, and nothing or a comment of one
line behind the last bar. -/
structure Row.Form (s : Text) (cells : List Text) (comment : Option Text) : Prop where
  cells_ne_nil : cells ≠ []
  cell : ∀ x ∈ cells, '|' ∉ x ∧ 2 ≤ x.length ∧ x.head? = some ' ' ∧ x.getLast? = some ' '
  oneLine : ∀ c ∈ comment, c ≠ [] ∧ '\n' ∉ c
  text : s = '|' :: (cells.flatMap (· ++ ['|']) ++ comment.elim [] (commentMark ++ ·))

structure Row.LongestForm (s : Text) (cells : List Text) (comment : Option Text) : Prop
    extends Row.Form s cells comment where
  longest : ∀ {others : List Text} {otherComment : Option Text},
    Row.Form s others otherComment → others.length ≤ cells.length

theorem rowEnd?_eq_some_iff_elim {t : Text} {comment : Option Text} : rowEnd? t = some comment ↔
    t = comment.elim [] (commentMark ++ ·) ∧ ∀ c ∈ comment, c ≠ [] ∧ '\n' ∉ c := by
  cases comment with
  | none =>
    constructor
    · exact fun h => ⟨eq_nil_of_rowEnd? h, by simp⟩
    · intro h
      obtain ⟨rfl, -⟩ := h
      rfl
  | some c => simp [rowEnd?_eq_some_iff]

theorem Row.form_iff {s : Text} {cells : List Text} {comment : Option Text} :
    Row.Form s cells comment ↔ cells ≠ [] ∧ (∀ x ∈ cells, isCell x = true ∧ '|' ∉ x) ∧
      ∃ tail, s = '|' :: (cells.flatMap (· ++ ['|']) ++ tail) ∧ rowEnd? tail = some comment := by
  constructor
  · intro h
    refine ⟨h.cells_ne_nil, fun x hx => ?_, _, h.text, rowEnd?_eq_some_iff_elim.2 ⟨rfl, h.oneLine⟩⟩
    obtain ⟨hb, hcell⟩ := h.cell x hx
    exact ⟨isCell_iff.2 hcell, hb⟩
  · intro h
    obtain ⟨hne, hall, tail, rfl, hend⟩ := h
    obtain ⟨rfl, hline⟩ := rowEnd?_eq_some_iff_elim.1 hend
    exact ⟨hne, fun x hx => ⟨(hall x hx).2, isCell_iff.1 (hall x hx).1⟩, hline, rfl⟩

theorem exists_append_of_flatMap_bar {cells others : List Text} {t u : Text}
    (hcells : ∀ x ∈ cells, '|' ∉ x) (hothers : ∀ x ∈ others, '|' ∉ x)
    (hlength : cells.length ≤ others.length)
    (h : cells.flatMap (· ++ ['|']) ++ t = others.flatMap (· ++ ['|']) ++ u) :
    ∃ more, others = cells ++ more ∧ t = more.flatMap (· ++ ['|']) ++ u := by
  induction cells generalizing others with
  | nil => exact ⟨others, rfl, h⟩
  | cons x cells ih =>
    cases others with
    | nil => simp at hlength
    | cons y others =>
      obtain ⟨hx, hxs⟩ := List.forall_mem_cons.1 hcells
      obtain ⟨hy, hys⟩ := List.forall_mem_cons.1 hothers
      simp only [List.flatMap_cons, List.append_assoc, List.singleton_append] at h
      obtain ⟨hxy, hrest⟩ := eq_of_append_bar hx hy h
      obtain ⟨more, hmore, ht⟩ := ih hxs hys (by simpa using hlength) hrest
      exact ⟨more, by rw [hxy, hmore, List.cons_append], ht⟩

theorem Row.exists_longestForm_of_read? {s : Text} {r : Row} (h : Row.read? s = some r) :
    ∃ cells comment, Row.LongestForm s cells comment ∧
      r = ⟨cells.map Text.trim, comment.map Text.trim⟩ := by
  unfold read? at h
  split at h
  · next t =>
    obtain ⟨⟨cells, comment⟩, hread, rfl⟩ := Option.map_eq_some_iff.1 h
    obtain ⟨hne, hall, tail, ht, hend, hmax⟩ := readCells_sound hread (by simp)
    obtain rfl : t = cells.flatMap (· ++ ['|']) ++ tail := ht
    refine ⟨cells, comment, ⟨form_iff.2 ⟨hne, hall, tail, rfl, hend⟩, fun {others other} hform => ?_⟩, rfl⟩
    obtain ⟨-, hothers, otherTail, hsame, hotherEnd⟩ := form_iff.1 hform
    by_contra hlonger
    obtain ⟨more, hmore, rfl⟩ := exists_append_of_flatMap_bar (fun x hx => (hall x hx).2)
      (fun x hx => (hothers x hx).2) (Nat.le_of_not_le hlonger) (List.cons.inj hsame).2
    have hmoreCells : ∀ x ∈ more, isCell x = true ∧ '|' ∉ x := fun x hx =>
      hothers x (by simp [hmore, hx])
    have hmoreNe : more ≠ [] := by
      intro hnil
      simp [hmore, hnil] at hlonger
    have hrest : (readRest? otherTail).isSome = true := by simp [readRest?, hotherEnd]
    obtain ⟨found, hfound⟩ := Option.isSome_iff_exists.1 hrest
    rw [readCells_flatMap_append hmoreNe hmoreCells hfound] at hmax
    cases hmax
  · cases h

theorem Row.Form.isSome_read? {s : Text} {cells : List Text} {comment : Option Text}
    (h : Row.Form s cells comment) : (Row.read? s).isSome = true := by
  obtain ⟨hne, hall, tail, rfl, hend⟩ := form_iff.1 h
  have hrest : (readRest? tail).isSome = true := by simp [readRest?, hend]
  obtain ⟨found, hfound⟩ := Option.isSome_iff_exists.1 hrest
  rw [read?_flatMap_append hne hall hfound]
  rfl

theorem Row.LongestForm.unique {s : Text} {cells others : List Text} {comment other : Option Text}
    (h : Row.LongestForm s cells comment) (ho : Row.LongestForm s others other) :
    cells = others ∧ comment = other := by
  obtain ⟨-, hall, tail, htext, hend⟩ := form_iff.1 h.toForm
  obtain ⟨-, hothers, otherTail, hotherText, hotherEnd⟩ := form_iff.1 ho.toForm
  have hlength := Nat.le_antisymm (ho.longest h.toForm) (h.longest ho.toForm)
  obtain ⟨more, hmore, htail⟩ := exists_append_of_flatMap_bar (fun x hx => (hall x hx).2)
    (fun x hx => (hothers x hx).2) hlength.le (List.cons.inj (htext.symm.trans hotherText)).2
  have hnil : more = [] := by simpa [hmore] using hlength
  rw [htail, hnil, List.flatMap_nil, List.nil_append, hotherEnd] at hend
  exact ⟨by simp [hmore, hnil], (Option.some.inj hend).symm⟩

/-- A text is read as a row, and its pattern fits it, exactly if it has the form of one. What is read
is the form with the most cells, each of its texts trimmed. -/
theorem Row.read?_grammar (s : Text) :
    Row.read? s = (rowPattern.notes? s).bind Row.ofNotes? ∧
    ((Row.read? s).isSome = true ↔ ∃ cells comment, Row.Form s cells comment) ∧
    ∀ r, Row.read? s = some r ↔ ∃ cells comment, Row.LongestForm s cells comment ∧
      r = ⟨cells.map Text.trim, comment.map Text.trim⟩ := by
  refine ⟨read?_eq_notes s, ?_, fun r => ⟨exists_longestForm_of_read?, fun h => ?_⟩⟩
  · constructor
    · intro h
      obtain ⟨r, hr⟩ := Option.isSome_iff_exists.1 h
      obtain ⟨cells, comment, hform, -⟩ := exists_longestForm_of_read? hr
      exact ⟨cells, comment, hform.toForm⟩
    · intro h
      obtain ⟨cells, comment, hform⟩ := h
      exact hform.isSome_read?
  · obtain ⟨cells, comment, hform, rfl⟩ := h
    obtain ⟨r, hr⟩ := Option.isSome_iff_exists.1 hform.isSome_read?
    obtain ⟨others, other, hother, rfl⟩ := exists_longestForm_of_read? hr
    obtain ⟨rfl, rfl⟩ := hother.unique hform
    exact hr

/-- The second cell that could be taken has no end of a row behind it, so it belongs to the comment. -/
example : Row.read? "| a | # b | c".toList = some ⟨["a".toList], some "b | c".toList⟩ := by decide

end ScenarioForest
