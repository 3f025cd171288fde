import ScenarioForest.Proofs.Emitted
import ScenarioForest.Proofs.Written
set_option autoImplicit false

/-!
Rows written with their comments. The comment of a row is trimmed when it is read and stands right
behind its mark when it is written, so a bar that was kept away from the mark by some other blank
comes to close one more cell.
-/

namespace ScenarioForest

/-- A comment that is taken for cells right behind a mark: it begins with a bar, and the mark and the
comment are the rest of a row. -/
def Text.TakenForCells (k : Text) : Prop :=
  k.head? = some '|' ∧ (Row.read? ('|' :: (commentMark ++ k))).isSome = true

instance : DecidablePred Text.TakenForCells := fun k =>
  inferInstanceAs (Decidable (k.head? = some '|' ∧
    (Row.read? ('|' :: (commentMark ++ k))).isSome = true))

theorem Row.isSome_read?_bar (t : Text) :
    (Row.read? ('|' :: t)).isSome = (readCells [] t).isSome := by
  rw [read?, Option.isSome_map]

theorem Row.exists_of_read? {s : Text} {r : Row} (h : Row.read? s = some r) :
    ∃ (cells : List Text) (tail : Text) (comment : Option Text),
      s = '|' :: (cells.flatMap (· ++ ['|']) ++ tail) ∧ rowEnd? tail = some comment ∧
      readCells [] tail = none ∧ r = ⟨cells.map Text.trim, comment.map Text.trim⟩ := by
  unfold read? at h
  split at h
  · next t =>
    obtain ⟨⟨cells, comment⟩, hread, rfl⟩ := Option.map_eq_some_iff.1 h
    obtain ⟨-, -, tail, ht, hend, hmax⟩ := readCells_sound hread (by simp)
    exact ⟨cells, tail, comment, by simpa using ht, hend, hmax, rfl⟩
  · cases h

/-- Blanks between a mark and a comment change nothing unless the comment begins with a bar: a cell
that ends within the comment begins at the mark in any case. -/
theorem readCells_isSome_of_gap {gap k : Text} (hgap : ∀ c ∈ gap, isBlank c = true)
    (hk : k.head? ≠ some '|') (h : (readCells [] (commentMark ++ k)).isSome = true) :
    (readCells [] (commentMark ++ (gap ++ k))).isSome = true := by
  obtain ⟨x, rest, hsplit, hb, hx, hrest⟩ := readCells_isSome_iff.1 h
  obtain ⟨p, hp, hkp⟩ : ∃ p, x = commentMark ++ p ∧ k = p ++ '|' :: rest := by
    rcases List.append_eq_append_iff.1 hsplit with ⟨p, hp, hkp⟩ | ⟨q, hq, hbar⟩
    · exact ⟨p, hp, hkp⟩
    · cases q with
      | nil => exact ⟨[], by simpa using hq.symm, by simpa using hbar.symm⟩
      | cons c q =>
        obtain ⟨rfl, -⟩ := List.cons.inj hbar
        have hmark : '|' ∈ commentMark := by simp [hq]
        exact absurd hmark (by decide)
  have hne : p ≠ [] := by
    rintro rfl
    exact hk (by simp [hkp])
  have hbar : '|' ∉ commentMark ++ (gap ++ p) := by
    simp only [hp, List.mem_append, not_or] at hb ⊢
    exact ⟨hb.1, fun hm => absurd (hgap _ hm) (by decide), hb.2⟩
  have hcell : isCell (commentMark ++ (gap ++ p)) = true := by
    have hlast : x.getLast? = p.getLast? := by
      rw [hp, List.getLast?_append_of_ne_nil _ hne]
    rw [← List.append_assoc, isCell, List.getLast?_append_of_ne_nil _ hne, ← hlast]
    simp only [isCell, Bool.and_eq_true] at hx
    simp [hx.2, commentMark]
  exact readCells_isSome_iff.2 ⟨_, rest, by simp [hkp], hbar, hcell, hrest⟩

theorem Text.takeWhile_append_trim {t : Text} (h : ∀ c ∈ t.getLast?, isBlank c = false) :
    t.takeWhile isBlank ++ Text.trim t = t := by
  have hlast : ∀ c ∈ (Text.trimStart t).getLast?, isBlank c = false := by
    intro c hc
    obtain ⟨a, ha⟩ := trimStart_suffix t
    refine h c ?_
    rw [← ha]
    rw [Option.mem_def] at *
    simp [List.getLast?_append, hc]
  rw [trim, trimEnd_of_last hlast]
  exact List.takeWhile_append_dropWhile

/-- The comment of a row of a document is taken for cells unless its row reads on as it did. -/
theorem Row.takenForCells_iff {s : Text} {r : Row} (h : Row.read? s = some r) (hs : Text.Tidy s)
    {k : Text} (hk : r.comment = some k) :
    Text.TakenForCells k ↔ (readCells [] (commentMark ++ k)).isSome = true := by
  rw [Text.TakenForCells, isSome_read?_bar]
  refine ⟨And.right, fun hread => ⟨?_, hread⟩⟩
  by_contra hhead
  obtain ⟨cells, tail, comment, rfl, hend, hmax, rfl⟩ := exists_of_read? h
  obtain ⟨m, rfl, rfl⟩ := Option.map_eq_some_iff.1 hk
  obtain ⟨rfl, -, -⟩ := rowEnd?_eq_some_iff.1 hend
  have hsuffix : m <:+ '|' :: (cells.flatMap (· ++ ['|']) ++ (commentMark ++ m)) :=
    ⟨'|' :: (cells.flatMap (· ++ ['|']) ++ commentMark), by simp⟩
  have hfront := Text.takeWhile_append_trim (hs.toTrimmed.suffix_last hsuffix)
  have hgap : ∀ c ∈ m.takeWhile isBlank, isBlank c = true := fun _ => List.mem_takeWhile_imp
  have hmore := readCells_isSome_of_gap hgap hhead hread
  rw [hfront, hmax] at hmore
  cases hmore

theorem Row.Tidy.read?_written {r : Row} (h : r.Tidy) {widths : List Nat}
    (hw : widths.length = r.width) : ∃ q, Row.read? (r.fields widths ++ r.tail true) = some q ∧
      r.cells <+: q.cells ∧ (q = r ↔ ∀ k ∈ r.comment, readCells [] (commentMark ++ k) = none) := by
  cases hk : r.comment with
  | none =>
    have hread := h.read?_fields hw
    have herase : r.eraseComment = r := by rw [eraseComment, ← hk]
    rw [herase] at hread
    exact ⟨r, by simpa [tail, hk] using hread, List.prefix_refl _, by simp⟩
  | some k =>
    have htail : r.tail true = commentMark ++ k := by simp [tail, hk]
    rw [htail]
    cases hmore : readCells [] (commentMark ++ k) with
    | some found =>
      have hrest : readRest? (commentMark ++ k) = some found := by simp [readRest?, hmore]
      have hne : found.1 ≠ [] := (readCells_sound hmore (by simp)).1
      refine ⟨_, h.read?_fields_append hw hrest, List.prefix_append _ _, ?_⟩
      have hlonger : (⟨r.cells ++ found.1.map Text.trim, found.2.map Text.trim⟩ : Row) ≠ r := by
        intro heq
        have hcells := congrArg Row.cells heq
        simp [hne] at hcells
      simp [hlonger, hmore]
    | none =>
      have hsolid := h.comment k hk
      have hend : rowEnd? (commentMark ++ k) = some (some k) :=
        rowEnd?_eq_some_iff.2 ⟨rfl, hsolid.ne_nil, hsolid.oneLine⟩
      have hrest : readRest? (commentMark ++ k) = some ([], some k) := by
        simp [readRest?, hmore, hend]
      have hread := h.read?_fields_append hw hrest
      have hcomment : (some k).map Text.trim = r.comment := by simp [hsolid.trim_eq, hk]
      rw [List.map_nil, List.append_nil, hcomment] at hread
      exact ⟨r, hread, List.prefix_refl _, by simp [hmore]⟩

/-- A row is written as a line that is read as a row again, and that row begins with the same cells.
It has no other cells and the same comment unless the comment is taken for cells. -/
theorem read?_written_row {s : Text} {r : Row} (hs : Text.Tidy s) (h : Row.read? s = some r)
    {t : Table} {line : Text} (hline : (r, line) ∈ t.allRows.zip (t.lines true)) :
    ∃ q, Row.read? (IndentedLine.split line).content = some q ∧ r.cells <+: q.cells ∧
      (q = r ↔ ∀ k ∈ r.comment, ¬ Text.TakenForCells k) := by
  obtain ⟨hmem, rfl⟩ := mem_zip_map_iff.1 hline
  have htidy := Row.tidy_of_read? hs h
  have hwidths : t.columnWidths.length = r.width := by
    rw [t.length_columnWidths, Table.width_of_mem hmem]
  have hsolid : Text.Solid (r.fields t.columnWidths ++ r.tail true) :=
    htidy.solid_fields_tail true
  have hsplit := IndentedLine.split_append (a := indent)
    (fun _ => blank_of_mem_replicate (n := 4)) hsolid.toTrimmed hsolid.ne_nil
  obtain ⟨q, hread, hcells, hsame⟩ := htidy.read?_written hwidths
  rw [List.append_assoc, hsplit]
  refine ⟨q, hread, hcells, hsame.trans (forall₂_congr fun k hk => ?_)⟩
  rw [Row.takenForCells_iff h hs hk, Option.not_isSome_iff_eq_none]

def barredRow : Text := "| a  | # \tb | c".toList

theorem read?_written_row_barred :
    Row.read? barredRow = some ⟨[['a']], some "b | c".toList⟩ ∧
      Row.read? (IndentedLine.split "    | a | # b | c".toList).content =
        Row.read? barredRow := by
  have hread : Row.read? barredRow = some ⟨[['a']], some "b | c".toList⟩ := by decide
  have htidy : Text.Tidy barredRow := by decide
  have hline : ((⟨[['a']], some "b | c".toList⟩, "    | a | # b | c".toList) : Row × Text) ∈
      (Table.ofHeader ⟨[['a']], some "b | c".toList⟩).allRows.zip
        ((Table.ofHeader ⟨[['a']], some "b | c".toList⟩).lines true) := by decide
  obtain ⟨q, hq, -, hsame⟩ := read?_written_row htidy hread hline
  refine ⟨hread, ?_⟩
  rw [hq, hread, hsame.2 (by decide)]

def tabbedRow : Text := "| a | # \t|".toList

theorem not_read?_written_row_tabbed : Text.Tidy tabbedRow ∧
    Row.read? tabbedRow = some ⟨[['a']], some ['|']⟩ ∧
    (Table.ofHeader ⟨[['a']], some ['|']⟩).lines true = ["    | a | # |".toList] ∧
    Row.read? (IndentedLine.split "    | a | # |".toList).content = some ⟨[['a'], ['#']], none⟩ :=
  ⟨by decide, by decide, by decide, by decide⟩

end ScenarioForest
