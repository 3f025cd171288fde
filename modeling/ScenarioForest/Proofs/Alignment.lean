import Mathlib.Algebra.GroupWithZero.Nat
import Mathlib.Data.List.Forall2
import ScenarioForest.Proofs.Written
set_option autoImplicit false

/-!
Tables that rows were offered to, and how they stand on the page. A table takes the rows that are as
wide as its header, so every cell has a width to be filled up to, and the bars of one column stand
below each other.
-/

namespace ScenarioForest

def Table.offer (t : Table) (r : Row) : Table := (t.push r).2

def Table.ofOffers (header : Row) (rows : List Row) : Table := rows.foldl offer (ofHeader header)

theorem Table.push_of_uneven {t : Table} {r : Row} (h : r.width ≠ t.width) :
    t.push r = (.error ⟨t.rows.length + 2, t.width, r.width⟩, t) :=
  push_eq_error_iff.2 ⟨h, rfl, rfl⟩

theorem Table.push_of_even {t : Table} {r : Row} (h : r.width = t.width) :
    t.push r = (.ok (), t.offer r) := by
  obtain ⟨u, hu⟩ := exists_push_iff.2 h
  rw [offer, hu]

theorem Table.offer_of_uneven {t : Table} {r : Row} (h : r.width ≠ t.width) : t.offer r = t := by
  rw [offer, push_of_uneven h]

theorem Table.header_offer (t : Table) (r : Row) : (t.offer r).header = t.header := by
  by_cases h : r.width = t.width
  · exact (push_eq_ok_iff.1 (push_of_even h)).2.1
  · rw [offer_of_uneven h]

theorem Table.rows_offer (t : Table) (r : Row) :
    (t.offer r).rows = t.rows ++ [r].filter (·.width == t.width) := by
  by_cases h : r.width = t.width
  · rw [(push_eq_ok_iff.1 (push_of_even h)).2.2]
    simp [h]
  · rw [offer_of_uneven h]
    simp [h]

theorem Table.ofOffers_concat (header : Row) (rows : List Row) (r : Row) :
    ofOffers header (rows ++ [r]) = (ofOffers header rows).offer r := by
  simp [ofOffers]

theorem Table.ofOffers_spec (header : Row) (rows : List Row) :
    (ofOffers header rows).header = header ∧
    (ofOffers header rows).rows = rows.filter (·.width == header.width) := by
  induction rows using List.reverseRecOn with
  | nil => exact ⟨rfl, rfl⟩
  | append_singleton rows r ih =>
    obtain ⟨hheader, hrows⟩ := ih
    rw [ofOffers_concat, header_offer, rows_offer, hheader, hrows, width, hheader, List.filter_append]
    exact ⟨rfl, rfl⟩

theorem Table.width_ofOffers (header : Row) (rows : List Row) :
    (ofOffers header rows).width = header.width := by
  rw [width, (ofOffers_spec header rows).1]

def Table.column (t : Table) (k : Nat) : List Text := t.allRows.filterMap (·.cells[k]?)

/-- The width of a column starts at one cell and grows with every longer cell below. -/
theorem getElem?_foldl_max {k : Nat} (rows : List Row) (widths : List Nat)
    (hall : ∀ r ∈ rows, r.width = widths.length) :
    (rows.foldl (fun widths r => List.zipWith max widths (r.cells.map List.length)) widths)[k]? =
      (widths[k]?.toList ++ (rows.filterMap (·.cells[k]?)).map List.length).max? := by
  induction rows generalizing widths with
  | nil => cases h : widths[k]? <;> simp [h]
  | cons r rest ih =>
    obtain ⟨hr, hrest⟩ := List.forall_mem_cons.1 hall
    rw [Row.width] at hr
    rw [List.foldl_cons, ih _ (by simpa [hr] using hrest), List.getElem?_zipWith, List.getElem?_map]
    by_cases hk : k < widths.length
    · have hcell : r.cells[k]? = some r.cells[k] := List.getElem?_eq_getElem (hr ▸ hk)
      simp only [List.filterMap_cons, hcell, List.getElem?_eq_getElem hk, Option.map_some,
        Option.toList_some, List.singleton_append, List.map_cons, List.max?_cons', List.foldl_cons]
    · have hcell : r.cells[k]? = none := List.getElem?_eq_none (by omega)
      simp [hk, hcell]

theorem Table.getElem?_columnWidths (t : Table) (k : Nat) :
    t.columnWidths[k]? = ((t.column k).map List.length).max? := by
  have hall : ∀ r ∈ t.rows, r.width = (t.header.cells.map List.length).length := by
    intro r hr
    rw [t.even r hr, Row.width, List.length_map]
  rw [columnWidths, getElem?_foldl_max t.rows _ hall, column, allRows, List.getElem?_map]
  cases h : t.header.cells[k]? <;> simp [h]

theorem Table.forall₂_columnWidths {t : Table} {r : Row} (h : r ∈ t.allRows) :
    List.Forall₂ (fun cell width => cell.length ≤ width) r.cells t.columnWidths := by
  refine List.forall₂_iff_get.2 ⟨?_, fun k hcell hwidth => ?_⟩
  · rw [t.length_columnWidths, ← t.width_of_mem h, Row.width]
  · have hmax := t.getElem?_columnWidths k
    rw [List.getElem?_eq_getElem hwidth, eq_comm, List.max?_eq_some_iff] at hmax
    refine hmax.2 _ (List.mem_map_of_mem (List.mem_filterMap.2 ⟨r, h, ?_⟩))
    exact List.getElem?_eq_getElem hcell

theorem map_length_zipWith_paddedCell {cells : List Text} {widths : List Nat}
    (h : List.Forall₂ (fun cell width => cell.length ≤ width) cells widths) :
    ((List.zipWith paddedCell cells widths).map ('|' :: ·)).map List.length =
      widths.map (· + 3) := by
  induction h with
  | nil => rfl
  | cons hfit _ ih => simpa [paddedCell, Text.length_padRight hfit] using ih

theorem bar_prefix_flatten (cells : List Text) :
    ['|'] <+: (cells.map ('|' :: ·)).flatten ++ ['|'] := by
  cases cells with
  | nil => exact List.prefix_rfl
  | cons x rest => exact ⟨_, rfl⟩

section

variable {r : Row} {widths : List Nat}
  (h : List.Forall₂ (fun cell width => cell.length ≤ width) r.cells widths)
include h

theorem Row.length_fields : (r.fields widths).length = (widths.map (· + 3)).sum + 1 := by
  rw [fields_eq_flatten, List.length_append, List.length_flatten, padded,
    map_length_zipWith_paddedCell h]
  rfl

/-- Past the cells before it, a cell and the bars on its sides are what comes first. -/
theorem Row.prefix_drop_fields {k : Nat} {cell : Text} (hcell : r.cells[k]? = some cell) :
    ∃ width, widths[k]? = some width ∧ '|' :: paddedCell cell width ++ ['|'] <+:
      (r.fields widths).drop ((widths.map (· + 3)).take k).sum := by
  obtain ⟨hk, rfl⟩ := List.getElem?_eq_some_iff.1 hcell
  have hw : k < widths.length := h.length_eq ▸ hk
  have hsplit : r.fields widths = (((r.padded widths).map ('|' :: ·)).take k).flatten ++
      ((((r.padded widths).drop k).map ('|' :: ·)).flatten ++ ['|']) := by
    rw [fields_eq_flatten, List.map_drop, ← List.append_assoc, ← List.flatten_append,
      List.take_append_drop]
  have hskip : ((widths.map (· + 3)).take k).sum =
      (((r.padded widths).map ('|' :: ·)).take k).flatten.length := by
    rw [List.length_flatten, List.map_take, padded, map_length_zipWith_paddedCell h]
  have hpadded : k < (r.padded widths).length := by simpa [padded] using ⟨hk, hw⟩
  refine ⟨widths[k], List.getElem?_eq_getElem hw, ?_⟩
  rw [hsplit, hskip, List.drop_left, List.drop_eq_getElem_cons hpadded, List.map_cons,
    List.flatten_cons, List.append_assoc]
  have hcell : (r.padded widths)[k] = paddedCell r.cells[k] widths[k] := List.getElem_zipWith
  rw [hcell]
  exact (List.prefix_append_right_inj _).2 (bar_prefix_flatten _)

end

def Table.barOffset (t : Table) (k : Nat) : Nat :=
  indent.length + ((t.columnWidths.map (· + 3)).take k).sum

/-- A table stands on the page row by row. Every line has the same length, and every cell is there
in full, between bars that stand where they stand in all other lines. -/
def Table.Aligned (t : Table) (lines : List Text) : Prop :=
  List.Forall₂ (fun r line => line.length = 5 + (t.columnWidths.map (· + 3)).sum ∧
    ∀ k cell, r.cells[k]? = some cell → ∃ width, t.columnWidths[k]? = some width ∧
      '|' :: paddedCell cell width ++ ['|'] <+: line.drop (t.barOffset k)) t.allRows lines

theorem Table.aligned_lines (t : Table) : t.Aligned (t.lines false) := by
  rw [Aligned, lines_false, List.forall₂_map_right_iff, List.forall₂_same]
  intro r hr
  have hfit := forall₂_columnWidths hr
  refine ⟨?_, fun k cell hcell => ?_⟩
  · rw [List.length_append, Row.length_fields hfit]
    simp only [indent, List.length_replicate]
    omega
  · rw [barOffset, ← List.drop_drop, List.drop_left]
    exact Row.prefix_drop_fields hfit hcell

theorem Table.lines_unlines {t : Table} (h : ∀ r ∈ t.allRows, ∀ cell ∈ r.cells, '\n' ∉ cell) :
    Text.lines (Text.unlines (t.lines false)) = t.lines false := by
  refine Text.lines_unlines fun line hline => ?_
  rw [lines_false] at hline
  obtain ⟨r, hr, rfl⟩ := List.mem_map.1 hline
  constructor
  · have hfields : '\n' ∉ r.fields t.columnWidths := Row.newline_not_mem_fields (h r hr)
    simp [newline_not_mem_indent, hfields]
  · rw [Row.fields, ← List.append_assoc, List.getLast?_concat]
    decide

/-- A table made of rows that are offered one by one takes those of the width of its header, and
refuses the others with their number and stays as it is. Its columns are as wide as their longest
cells, and it is written with one line for each row and with its bars below each other. -/
theorem Table.ofOffers_aligned (header : Row) (offered : List Row) :
    (ofOffers header offered).header = header ∧
    (ofOffers header offered).rows = offered.filter (·.width == header.width) ∧
    (∀ before r later, offered = before ++ r :: later →
      if r.width = header.width then
        (ofOffers header before).push r = (.ok (), ofOffers header (before ++ [r]))
      else
        (ofOffers header before).push r = (.error
          ⟨2 + (before.filter (·.width == header.width)).length, header.width, r.width⟩,
          ofOffers header before) ∧
        ofOffers header (before ++ [r]) = ofOffers header before) ∧
    (ofOffers header offered).columnWidths.length = header.width ∧
    (∀ k, (ofOffers header offered).columnWidths[k]? =
      (((ofOffers header offered).column k).map List.length).max?) ∧
    ((∀ r ∈ (ofOffers header offered).allRows, ∀ cell ∈ r.cells, '\n' ∉ cell) →
      (ofOffers header offered).Aligned
        (Text.lines (Text.unlines ((ofOffers header offered).lines false)))) := by
  obtain ⟨hheader, hrows⟩ := ofOffers_spec header offered
  refine ⟨hheader, hrows, fun before r later _ => ?_, ?_, getElem?_columnWidths _, fun hcells => ?_⟩
  · have hwidth := width_ofOffers header before
    rw [ofOffers_concat]
    by_cases hr : r.width = header.width
    · rw [if_pos hr]
      exact push_of_even (hr.trans hwidth.symm)
    · have huneven : r.width ≠ (ofOffers header before).width := hwidth ▸ hr
      rw [if_neg hr, push_of_uneven huneven, offer_of_uneven huneven, hwidth,
        (ofOffers_spec header before).2, Nat.add_comm]
      exact ⟨rfl, rfl⟩
  · rw [length_columnWidths, width_ofOffers]
  · rw [lines_unlines hcells]
    exact aligned_lines _

def sizeRows : List Row :=
  [⟨["XL".toList, "42".toList], none⟩, ⟨["Eve".toList], none⟩, ⟨[[], "one size".toList], none⟩]

theorem Table.ofOffers_aligned_sizes : ∃ t, ofOffers ⟨["Größe".toList, []], none⟩ sizeRows = t ∧
    t.rows = [⟨["XL".toList, "42".toList], none⟩, ⟨[[], "one size".toList], none⟩] ∧
    (ofOffers ⟨["Größe".toList, []], none⟩ (sizeRows.take 1)).push ⟨["Eve".toList], none⟩ =
      (.error ⟨3, 2, 1⟩, ofOffers ⟨["Größe".toList, []], none⟩ (sizeRows.take 1)) ∧
    t.columnWidths = [5, 8] ∧
    t.Aligned ["    | Größe |          |".toList, "    | XL    | 42       |".toList,
      "    |       | one size |".toList] := by
  obtain ⟨-, hrows, hpush, -, hwidths, haligned⟩ :=
    ofOffers_aligned ⟨["Größe".toList, []], none⟩ sizeRows
  refine ⟨_, rfl, hrows, ?_, by decide, haligned (by decide)⟩
  exact (hpush (sizeRows.take 1) _ (sizeRows.drop 2) rfl).1

end ScenarioForest
