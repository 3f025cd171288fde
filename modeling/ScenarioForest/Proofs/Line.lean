import ScenarioForest.Line
import ScenarioForest.Line.Indented
import ScenarioForest.Proofs.Text
set_option autoImplicit false

/-!
What is read from the content of a line, and what is read from contents that were written.
-/

namespace ScenarioForest

structure Text.Tidy (t : Text) : Prop extends Text.Trimmed t where
  oneLine : '\n' ∉ t

theorem Text.tidy_trim {t : Text} (h : '\n' ∉ t) : Text.Tidy (Text.trim t) :=
  ⟨trimmed_trim t, fun hm => h (mem_of_mem_trim hm)⟩

theorem Text.tidy_iff {t : Text} : Text.Tidy t ↔ Text.trim t = t ∧ '\n' ∉ t := by
  constructor
  · exact fun h => ⟨h.trim_eq, h.oneLine⟩
  · intro ⟨htrim, hline⟩
    rw [← htrim]
    exact tidy_trim hline

instance : DecidablePred Text.Tidy := fun _ => decidable_of_iff _ Text.tidy_iff.symm

structure Text.Solid (t : Text) : Prop extends Text.Tidy t where
  ne_nil : t ≠ []

theorem Text.Solid.marked {t : Text} (ht : Text.Solid t) {mark : Text} (hne : mark ≠ [])
    (hhead : mark.head?.any isBlank = false) (hn : '\n' ∉ mark) : Text.Solid (mark ++ t) where
  head c hc := by
    rw [List.head?_append_of_ne_nil _ hne, Option.mem_def] at hc
    simpa [hc] using hhead
  last c hc := by
    rw [List.getLast?_append_of_ne_nil _ ht.ne_nil] at hc
    exact ht.last c hc
  oneLine := by simp [hn, ht.oneLine]
  ne_nil := by simp [hne]

theorem Text.trim_eq_nil_iff {t : Text} : Text.trim t = [] ↔ ∀ c ∈ t, isBlank c = true := by
  constructor
  · intro h
    have hall : ∀ c ∈ Text.trimStart t, isBlank c = true := by
      simpa [trim, trimEnd, List.dropWhile_eq_nil_iff] using h
    cases he : Text.trimStart t with
    | nil => exact List.dropWhile_eq_nil_iff.1 he
    | cons d r =>
      have hd := trimStart_head (t := t) (c := d) (by simp [he])
      rw [hall d (by simp [he])] at hd
      cases hd
  · intro h
    have : Text.trimStart t = [] := List.dropWhile_eq_nil_iff.2 h
    simp [trim, this, trimEnd]

theorem Text.trim_ne_nil_of_last {t : Text} (hne : t ≠ [])
    (h : ∀ c ∈ t.getLast?, isBlank c = false) : Text.trim t ≠ [] := by
  intro hnil
  have hl := List.getLast?_eq_some_getLast hne
  have hb := h _ hl
  rw [trim_eq_nil_iff.1 hnil _ (List.getLast_mem hne)] at hb
  cases hb

theorem Text.Trimmed.suffix_last {t s : Text} (h : Text.Trimmed t) (hs : s <:+ t) :
    ∀ c ∈ s.getLast?, isBlank c = false := by
  intro c hc
  obtain ⟨a, rfl⟩ := hs
  refine h.last c ?_
  rw [Option.mem_def] at *
  simp [List.getLast?_append, hc]

theorem IndentedLine.trimmed_content (raw : Text) :
    Text.Trimmed (IndentedLine.split raw).content where
  head _ h := Text.trimStart_head h
  last c h := by
    obtain ⟨a, ha⟩ := Text.trimStart_suffix (Text.trimEnd raw)
    refine Text.trimEnd_last (t := raw) ?_
    rw [← ha]
    change c ∈ (Text.trimStart (Text.trimEnd raw)).getLast? at h
    rw [Option.mem_def] at *
    simp [List.getLast?_append, h]

theorem IndentedLine.tidy_content {raw : Text} (h : '\n' ∉ raw) :
    Text.Tidy (IndentedLine.split raw).content where
  toTrimmed := trimmed_content raw
  oneLine hm := h ((Text.trimEnd_isPrefix raw).subset ((Text.trimStart_suffix _).subset hm))

theorem IndentedLine.split_append {a t : Text} (ha : ∀ c ∈ a, ScenarioForest.isBlank c = true)
    (ht : Text.Trimmed t) (hne : t ≠ []) : IndentedLine.split (a ++ t) = ⟨a.length, t⟩ := by
  have hend : Text.trimEnd (a ++ t) = a ++ t := by
    refine Text.trimEnd_of_last fun c hc => ht.last c ?_
    obtain ⟨s, d, rfl⟩ := (List.eq_nil_or_concat t).resolve_left hne
    simpa [List.getLast?_append] using hc
  obtain ⟨d, r, rfl⟩ := List.exists_cons_of_ne_nil hne
  have hd : ScenarioForest.isBlank d = false := ht.head d (by simp)
  simp only [split, hend, IndentedLine.mk.injEq]
  constructor
  · rw [List.takeWhile_append_of_pos ha]
    simp [hd]
  · rw [Text.trimStart_append_of_blank ha, Text.trimStart_of_head ht.head]

theorem Text.takeWhile_oneLine {t : Text} (h : '\n' ∉ t) : t.takeWhile (· != '\n') = t := by
  rw [List.takeWhile_eq_self_iff]
  intro c hc
  have hne : c ≠ '\n' := by
    rintro rfl
    exact h hc
  simpa using hne

/-- The mark of a header ends in a blank, so the name of a header line is never empty. -/
theorem header?_tidy {mark t name : Text} (hm : mark.getLast?.any isBlank = true)
    (ht : Text.Tidy t) (h : header? mark t = some name) : Text.Solid name := by
  obtain ⟨c, hc, hb⟩ := (Option.any_eq_true ..).1 hm
  simp only [header?, Option.map_eq_some_iff] at h
  obtain ⟨rest, hp, rfl⟩ := h
  rw [List.isPrefixOf?_eq_some_iff_append_eq] at hp
  subst hp
  have hn : '\n' ∉ rest := fun hr => ht.oneLine (by simp [hr])
  rw [Text.takeWhile_oneLine hn]
  refine ⟨Text.tidy_trim hn, Text.trim_ne_nil_of_last ?_ ?_⟩
  · rintro rfl
    have hv := ht.last c (by simpa using hc)
    rw [hb] at hv
    cases hv
  · exact ht.toTrimmed.suffix_last (List.suffix_append mark rest)

theorem header?_append {mark name : Text} (h : Text.Tidy name) :
    header? mark (mark ++ name) = some name := by
  have hp : mark.isPrefixOf? (mark ++ name) = some name :=
    List.isPrefixOf?_eq_some_iff_append_eq.2 rfl
  simp [header?, hp, Text.takeWhile_oneLine h.oneLine, h.trim_eq]

theorem Keyword.text_ne_nil (k : Keyword) : k.text ≠ [] := by
  rcases k with (_ | _ | _) | _ | _ <;> decide

theorem Keyword.eq_of_text_head {k m : Keyword} (h : k.text.head? = m.text.head?) : k = m := by
  revert h
  rcases k with (_ | _ | _) | _ | _ <;> rcases m with (_ | _ | _) | _ | _ <;> decide

theorem Keyword.eq_of_text_append {k m : Keyword} {s t : Text}
    (h : k.text ++ s = m.text ++ t) : k = m := by
  have hh := congrArg List.head? h
  rw [List.head?_append_of_ne_nil _ k.text_ne_nil, List.head?_append_of_ne_nil _ m.text_ne_nil] at hh
  exact eq_of_text_head hh

/-- What it takes to be read as a certain step line: the keyword, a space and at least one more
character, on one line. -/
def StepLine.IsReadFrom (l : StepLine) (t : Text) : Prop :=
  ∃ c rest, t = l.keyword.text ++ ' ' :: c :: rest ∧ '\n' ∉ c :: rest ∧
    l.text = Text.trim (c :: (Text.cutComment rest).1) ∧
    l.comment = (Text.cutComment rest).2.map Text.trim

theorem StepLine.isReadFrom_of_read? {t : Text} {l : StepLine} (h : StepLine.read? t = some l) :
    l.IsReadFrom t := by
  obtain ⟨k, -, hk⟩ := List.exists_of_findSome?_eq_some h
  split at hk
  · next c rest hp =>
    rw [List.isPrefixOf?_eq_some_iff_append_eq] at hp
    split at hk
    · cases hk
    · next hn =>
      cases hk
      exact ⟨c, rest, by simpa using hp.symm, by simpa using hn, rfl, rfl⟩
  · cases hk

theorem StepLine.IsReadFrom.unique {t : Text} {l m : StepLine} (hl : l.IsReadFrom t)
    (hm : m.IsReadFrom t) : l = m := by
  obtain ⟨k, text, comment⟩ := l
  obtain ⟨k', text', comment'⟩ := m
  obtain ⟨c, rest, rfl, -, ht, hc⟩ := hl
  obtain ⟨c', rest', h, -, ht', hc'⟩ := hm
  simp only at ht hc ht' hc' h
  obtain rfl := Keyword.eq_of_text_append h
  simp only [List.append_cancel_left_eq, List.cons.injEq, true_and] at h
  obtain ⟨rfl, rfl⟩ := h
  rw [ht, hc, ht', hc']

theorem StepLine.read?_eq_some_iff {t : Text} {l : StepLine} :
    StepLine.read? t = some l ↔ l.IsReadFrom t := by
  refine ⟨isReadFrom_of_read?, fun h => ?_⟩
  have hsome : (StepLine.read? t).isSome := by
    obtain ⟨c, rest, rfl, hn, -, -⟩ := h
    have hp : (l.keyword.text ++ [' ']).isPrefixOf? (l.keyword.text ++ ' ' :: c :: rest) =
        some (c :: rest) := List.isPrefixOf?_eq_some_iff_append_eq.2 (by simp)
    simp only [List.mem_cons, not_or] at hn
    rw [read?, List.isSome_findSome?, List.any_eq_true]
    refine ⟨l.keyword, l.keyword.mem_all, ?_⟩
    simp [hp, hn]
  obtain ⟨m, hm⟩ := Option.isSome_iff_exists.1 hsome
  rw [hm, (isReadFrom_of_read? hm).unique h]

theorem StepLine.unmarked_text {t : Text} {l : StepLine} (h : StepLine.read? t = some l) :
    Text.Unmarked l.text := by
  obtain ⟨c, rest, -, -, ht, -⟩ := StepLine.read?_eq_some_iff.1 h
  rw [ht]
  exact Text.unmarked_trim_cutComment c rest

theorem StepLine.tidy_text {t : Text} {l : StepLine} (h : StepLine.read? t = some l) :
    Text.Tidy l.text := by
  obtain ⟨c, rest, -, hn, ht, -⟩ := StepLine.read?_eq_some_iff.1 h
  rw [ht]
  refine Text.tidy_trim fun hm => hn ?_
  have hall := Text.cutComment_append rest
  rw [← hall]
  simp only [List.mem_cons, List.mem_append] at *
  tauto

theorem StepLine.tidy_comment {t : Text} {l : StepLine} {k : Text} (ht : Text.Trimmed t)
    (h : StepLine.read? t = some l) (hk : l.comment = some k) : Text.Solid k := by
  obtain ⟨c, rest, rfl, hn, -, hc⟩ := StepLine.read?_eq_some_iff.1 h
  rw [hc, Option.map_eq_some_iff] at hk
  obtain ⟨k, hk, rfl⟩ := hk
  have hall := Text.cutComment_append rest
  rw [hk] at hall
  have hsuf : k <:+ l.keyword.text ++ ' ' :: c :: rest := by
    refine ⟨l.keyword.text ++ ' ' :: c :: (Text.cutComment rest).1 ++ commentMark, ?_⟩
    conv_rhs => rw [← hall]
    simp
  have hnk : '\n' ∉ k := fun hm => hn (by rw [← hall]; simp [hm])
  refine ⟨Text.tidy_trim hnk, Text.trim_ne_nil_of_last ?_ (ht.suffix_last hsuf)⟩
  exact Text.cutComment_ne_nil hk

theorem StepLine.read?_append (k : Keyword) {name : Text} (h : Text.Tidy name)
    (hm : Text.Unmarked name) (hne : name ≠ []) :
    StepLine.read? (k.text ++ ' ' :: name) = some ⟨k, name, none⟩ := by
  obtain ⟨c, rest, rfl⟩ := List.exists_cons_of_ne_nil hne
  have hr : Text.Unmarked rest := fun hi => hm (hi.trans (List.suffix_cons c rest).isInfix)
  refine StepLine.read?_eq_some_iff.2 ⟨c, rest, rfl, h.oneLine, ?_, ?_⟩
  · simp [hr.cutComment_eq, h.trim_eq]
  · simp [hr.cutComment_eq]

theorem rowEnd?_eq_some_iff {t k : Text} :
    rowEnd? t = some (some k) ↔ t = commentMark ++ k ∧ k ≠ [] ∧ '\n' ∉ k := by
  constructor
  · intro h
    unfold rowEnd? at h
    split at h
    · cases h
    · split at h
      · next m hm =>
        split at h
        · cases h
        · next hn =>
          cases h
          obtain ⟨ht, hne⟩ := Text.comment?_eq_some_iff.1 hm
          exact ⟨ht, hne, by simpa using hn⟩
      · cases h
  · rintro ⟨rfl, hne, hn⟩
    have he : (commentMark ++ k).isEmpty = false := by simp [commentMark]
    simp [rowEnd?, he, Text.comment?_append hne, hn]

/-- What the cells of a row were read from: each ends at a bar, and the end of the row follows where
no further cell can be read. -/
theorem readCells_sound {cell t : Text} {cells : List Text} {comment : Option Text}
    (h : readCells cell t = some (cells, comment)) (hc : '|' ∉ cell) :
    cells ≠ [] ∧ (∀ x ∈ cells, isCell x = true ∧ '|' ∉ x) ∧
      ∃ tail, cell.reverse ++ t = cells.flatMap (· ++ ['|']) ++ tail ∧
        rowEnd? tail = some comment ∧ readCells [] tail = none := by
  fun_induction readCells cell t generalizing cells comment with
  | case1 => cases h
  | case2 cell t hcell more last hmore ih =>
    cases h
    obtain ⟨hne, hall, tail, ht, he⟩ := ih hmore (by simp)
    refine ⟨by simp, ?_, tail, ?_, he⟩
    · simpa [hcell, hc] using hall
    · simpa using ht
  | case3 cell t hcell hmore ih =>
    simp only [Option.map_eq_some_iff, Prod.mk.injEq] at h
    obtain ⟨last, he, rfl, rfl⟩ := h
    exact ⟨by simp, by simp [hcell, hc], t, by simp, he, hmore⟩
  | case4 => cases h
  | case5 cell c t hbar ih =>
    obtain ⟨hne, hall, tail, ht, he⟩ := ih h (by simp [hc, Ne.symm hbar])
    exact ⟨hne, hall, tail, by simpa using ht, he⟩

theorem readCells_append {cell x t : Text} (hx : '|' ∉ x) :
    readCells cell (x ++ '|' :: t) = readCells (x.reverse ++ cell) ('|' :: t) := by
  induction x generalizing cell with
  | nil => rfl
  | cons c x ih =>
    simp only [List.mem_cons, not_or] at hx
    have hstep : readCells cell (c :: (x ++ '|' :: t)) = readCells (c :: cell) (x ++ '|' :: t) := by
      rw [readCells.eq_def]
      split <;> simp_all
    rw [List.cons_append, hstep, ih hx.2]
    simp

/-- What can follow a bar: more cells, or else the end of the row. -/
def readRest? (t : Text) : Option (List Text × Option Text) :=
  (readCells [] t).or ((rowEnd? t).map ([], ·))

theorem readCells_bar {x : Text} (h : isCell x = true) (t : Text) :
    readCells x.reverse ('|' :: t) = (readRest? t).map fun found => (x :: found.1, found.2) := by
  rw [readCells, List.reverse_reverse, if_pos h, readRest?]
  cases readCells [] t with
  | some found => rfl
  | none => cases rowEnd? t <;> rfl

theorem readCells_flatMap_append {cells : List Text} (hne : cells ≠ [])
    (h : ∀ x ∈ cells, isCell x = true ∧ '|' ∉ x) {t : Text} {found : List Text × Option Text}
    (ht : readRest? t = some found) :
    readCells [] (cells.flatMap (· ++ ['|']) ++ t) = some (cells ++ found.1, found.2) := by
  induction cells with
  | nil => exact absurd rfl hne
  | cons x rest ih =>
    obtain ⟨⟨hx, hb⟩, hrest⟩ := List.forall_mem_cons.1 h
    rw [List.flatMap_cons, List.append_assoc, List.append_assoc, List.singleton_append,
      readCells_append hb, List.append_nil, readCells_bar hx]
    cases rest with
    | nil => simp [ht]
    | cons y rest =>
      have hread := ih (by simp) hrest
      rw [readRest?, hread]
      rfl

theorem readCells_isSome_iff {t : Text} : (readCells [] t).isSome = true ↔
    ∃ x rest, t = x ++ '|' :: rest ∧ '|' ∉ x ∧ isCell x = true ∧ (readRest? rest).isSome = true := by
  have hfirst : ∀ x rest, '|' ∉ x → isCell x = true →
      (readCells [] (x ++ '|' :: rest)).isSome = (readRest? rest).isSome := by
    intro x rest hb hx
    rw [readCells_append hb, List.append_nil, readCells_bar hx, Option.isSome_map]
  constructor
  · intro h
    obtain ⟨⟨cells, comment⟩, hread⟩ := Option.isSome_iff_exists.1 h
    obtain ⟨hne, hall, tail, ht, -⟩ := readCells_sound hread (by simp)
    obtain ⟨x, xs, rfl⟩ := List.exists_cons_of_ne_nil hne
    obtain ⟨hx, hb⟩ := hall x (by simp)
    have hsplit : t = x ++ '|' :: (xs.flatMap (· ++ ['|']) ++ tail) := by simpa using ht
    refine ⟨x, _, hsplit, hb, hx, ?_⟩
    rwa [hsplit, hfirst x _ hb hx] at h
  · intro hcell
    obtain ⟨x, rest, rfl, hb, hx, hrest⟩ := hcell
    rwa [hfirst x rest hb hx]

structure Row.Tidy (r : Row) : Prop where
  cells_ne_nil : r.cells ≠ []
  cell : ∀ x ∈ r.cells, Text.Tidy x ∧ '|' ∉ x
  comment : ∀ k ∈ r.comment, Text.Solid k

theorem Row.tidy_of_read? {t : Text} {r : Row} (ht : Text.Tidy t) (h : Row.read? t = some r) :
    r.Tidy := by
  unfold read? at h
  split at h
  · next t =>
    obtain ⟨⟨cells, comment⟩, hr, rfl⟩ := Option.map_eq_some_iff.1 h
    obtain ⟨hne, hall, tail, hcat, he, -⟩ := readCells_sound hr (by simp)
    simp only [List.reverse_nil, List.nil_append] at hcat
    subst hcat
    refine ⟨by simpa using hne, ?_, ?_⟩
    · intro x hx
      obtain ⟨y, hy, rfl⟩ := List.mem_map.1 hx
      refine ⟨Text.tidy_trim fun hm => ht.oneLine ?_, fun hm => (hall y hy).2 (Text.mem_of_mem_trim hm)⟩
      simp only [List.mem_cons, List.mem_append, List.mem_flatMap]
      exact .inr (.inl ⟨y, hy, .inl hm⟩)
    · intro k hk
      obtain ⟨m, rfl, rfl⟩ := Option.map_eq_some_iff.1 hk
      obtain ⟨rfl, hne, -⟩ := rowEnd?_eq_some_iff.1 he
      have hsuf : m <:+ '|' :: (cells.flatMap (· ++ ['|']) ++ (commentMark ++ m)) :=
        ⟨'|' :: (cells.flatMap (· ++ ['|']) ++ commentMark), by simp⟩
      exact ⟨Text.tidy_trim fun hn => ht.oneLine (hsuf.subset hn),
        Text.trim_ne_nil_of_last hne (ht.toTrimmed.suffix_last hsuf)⟩
  · cases h

theorem Row.read?_flatMap_append {cells : List Text} (hne : cells ≠ [])
    (h : ∀ x ∈ cells, isCell x = true ∧ '|' ∉ x) {t : Text} {found : List Text × Option Text}
    (ht : readRest? t = some found) :
    Row.read? ('|' :: (cells.flatMap (· ++ ['|']) ++ t)) =
      some ⟨(cells ++ found.1).map Text.trim, found.2.map Text.trim⟩ := by
  rw [read?, readCells_flatMap_append hne h ht]
  rfl

theorem Line.read_cases (content : Text) :
    (∃ line, (∀ w, Line.read content w = line) ∧ ∀ t, line ≠ .text t ∧ line ≠ .unrecognized t) ∨
      ∀ w, Line.read content w = if w then .text content else .unrecognized content := by
  unfold read
  cases header? featureMark content with
  | some name => exact .inl ⟨.feature name, fun _ => rfl, fun _ => by simp⟩
  | none =>
    cases header? scenarioMark content with
    | some name => exact .inl ⟨.scenario name, fun _ => rfl, fun _ => by simp⟩
    | none =>
      cases StepLine.read? content with
      | some l => exact .inl ⟨.step l, fun _ => rfl, fun _ => by simp⟩
      | none =>
        cases Row.read? content with
        | some r => exact .inl ⟨.row r, fun _ => rfl, fun _ => by simp⟩
        | none => exact .inr fun _ => rfl

theorem Line.read_ne_unrecognized {content t : Text} : Line.read content true ≠ .unrecognized t := by
  rcases read_cases content with ⟨line, hread, hfixed⟩ | hread
  · rw [hread]
    exact (hfixed t).2
  · simp [hread]

theorem Line.read_ne_text {content t : Text} : Line.read content false ≠ .text t := by
  rcases read_cases content with ⟨line, hread, hfixed⟩ | hread
  · rw [hread]
    exact (hfixed t).1
  · simp [hread]

end ScenarioForest
