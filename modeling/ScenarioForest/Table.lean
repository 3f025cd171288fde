import ScenarioForest.Row
set_option autoImplicit false

/-!
Data tables. Every data row is as wide as the header.
-/

namespace ScenarioForest

@[ext] structure Table where
  header : Row
  rows : List Row
  even : ∀ r ∈ rows, r.width = header.width
  deriving DecidableEq

/-- A row that is too short or too long. The header counts as row 1. -/
structure UnevenRow where
  rowNumber : Nat
  expected : Nat
  actual : Nat
  deriving DecidableEq, Repr

def Table.ofHeader (header : Row) : Table := ⟨header, [], by simp⟩

def Table.width (t : Table) : Nat := t.header.width

/-- Whether a row is taken, and the table behind it. -/
def Table.push (t : Table) (r : Row) : Except UnevenRow Unit × Table :=
  if h : r.width = t.width then
    (.ok (), ⟨t.header, t.rows ++ [r], by
      intro s hs
      rcases List.mem_append.1 hs with hs | hs
      · exact t.even s hs
      · rw [List.mem_singleton.1 hs]; exact h⟩)
  else (.error ⟨t.rows.length + 2, t.width, r.width⟩, t)

theorem Table.push_eq_ok_iff {t u : Table} {r : Row} : t.push r = (.ok (), u) ↔
    r.width = t.width ∧ u.header = t.header ∧ u.rows = t.rows ++ [r] := by
  unfold push
  split
  · next h => simp [Table.ext_iff, h, eq_comm]
  · next h => simp [h]

theorem Table.push_eq_error_iff {t u : Table} {r : Row} {e : UnevenRow} : t.push r = (.error e, u) ↔
    r.width ≠ t.width ∧ e = ⟨t.rows.length + 2, t.width, r.width⟩ ∧ u = t := by
  unfold push
  split
  · next h => simp [h]
  · next h => simp [h, eq_comm]

theorem Table.exists_push_iff {t : Table} {r : Row} :
    (∃ u, t.push r = (.ok (), u)) ↔ r.width = t.width := by
  constructor
  · intro h
    obtain ⟨u, hu⟩ := h
    exact (push_eq_ok_iff.1 hu).1
  · intro h
    rw [push, dif_pos h]
    exact ⟨_, rfl⟩

def Table.allRows (t : Table) : List Row := t.header :: t.rows

def Table.toLists (t : Table) : List (List Text) := t.allRows.map (·.cells)

def lastEntries : List (Text × Text) → List (Text × Text)
  | [] => []
  | (key, value) :: rest =>
    if rest.any (·.1 == key) then lastEntries rest else (key, value) :: lastEntries rest

/-- The data rows as entries from header cell to cell. The last column of a name counts. -/
def Table.toMaps (t : Table) : List (List (Text × Text)) :=
  t.rows.map fun r => lastEntries (t.header.cells.zip r.cells)

def Table.columnWidths (t : Table) : List Nat :=
  t.rows.foldl (fun widths r => List.zipWith max widths (r.cells.map List.length))
    (t.header.cells.map List.length)

def Table.eraseComments (t : Table) : Table :=
  ⟨t.header.eraseComment, t.rows.map Row.eraseComment, by
    intro r hr
    obtain ⟨s, hs, rfl⟩ := List.mem_map.1 hr
    exact t.even s hs⟩

end ScenarioForest
