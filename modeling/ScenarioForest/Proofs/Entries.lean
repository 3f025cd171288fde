import Mathlib.Logic.Function.Basic
import ScenarioForest.Proofs.Alignment
set_option autoImplicit false

/-!
Data rows as maps from header cells to cells. The cells of a row are entered from left to right, and
a later entry takes the place of an earlier one under the same name.
-/

namespace ScenarioForest

/-- What is found under each name once entries were made one by one. -/
def entered (entries : List (Text × Text)) : Text → Option Text :=
  entries.foldl (fun found e => Function.update found e.1 (some e.2)) fun _ => none

theorem entered_concat (entries : List (Text × Text)) (e : Text × Text) :
    entered (entries ++ [e]) = Function.update (entered entries) e.1 (some e.2) := by
  simp [entered]

theorem entered_append (before after : List (Text × Text)) (name : Text) :
    entered (before ++ after) name = (entered after name).or (entered before name) := by
  induction after using List.reverseRecOn with
  | nil => simp [entered]
  | append_singleton after e ih =>
    rw [← List.append_assoc, entered_concat, entered_concat]
    by_cases h : name = e.1
    · simp [h]
    · rw [Function.update_of_ne h, Function.update_of_ne h, ih]

theorem entered_cons (e : Text × Text) (rest : List (Text × Text)) (name : Text) :
    entered (e :: rest) name =
      (entered rest name).or (if name = e.1 then some e.2 else none) := by
  rw [← List.singleton_append, entered_append]
  simp [entered, Function.update_apply]

theorem entered_eq_none_iff {entries : List (Text × Text)} {name : Text} :
    entered entries name = none ↔ name ∉ entries.map Prod.fst := by
  induction entries with
  | nil => simp [entered]
  | cons e rest ih => simp [entered_cons, ih, and_comm]

theorem entered_of_last {entries : List (Text × Text)} {name value : Text} {k : Nat}
    (h : entries[k]? = some (name, value))
    (hlast : name ∉ (entries.drop (k + 1)).map Prod.fst) : entered entries name = some value := by
  obtain ⟨hk, hget⟩ := List.getElem?_eq_some_iff.1 h
  have hsplit : entries = entries.take k ++ (name, value) :: entries.drop (k + 1) := by
    rw [← hget, List.cons_getElem_drop_succ, List.take_append_drop]
  rw [hsplit, entered_append, entered_cons, entered_eq_none_iff.2 hlast]
  simp

theorem any_key_iff {entries : List (Text × Text)} {name : Text} :
    entries.any (·.1 == name) = true ↔ name ∈ entries.map Prod.fst := by
  simp

theorem mem_keys_lastEntries {entries : List (Text × Text)} {name : Text} :
    name ∈ (lastEntries entries).map Prod.fst ↔ name ∈ entries.map Prod.fst := by
  fun_induction lastEntries entries with
  | case1 => exact Iff.rfl
  | case2 key value rest hany ih =>
    have hkey := any_key_iff.1 hany
    rw [ih, List.map_cons, List.mem_cons]
    exact ⟨.inr, fun h => h.elim (fun heq => heq ▸ hkey) id⟩
  | case3 key value rest hany ih => simp [ih]

theorem nodup_keys_lastEntries (entries : List (Text × Text)) :
    ((lastEntries entries).map Prod.fst).Nodup := by
  fun_induction lastEntries entries with
  | case1 => exact List.nodup_nil
  | case2 key value rest hany ih => exact ih
  | case3 key value rest hany ih =>
    rw [List.map_cons, List.nodup_cons, mem_keys_lastEntries, ← any_key_iff]
    exact ⟨hany, ih⟩

/-- The entries that are kept are those found after all were made. -/
theorem lookup_lastEntries (entries : List (Text × Text)) (name : Text) :
    (lastEntries entries).lookup name = entered entries name := by
  fun_induction lastEntries entries with
  | case1 => rfl
  | case2 key value rest hany ih =>
    rw [ih, entered_cons]
    by_cases h : name = key
    · have hfound : entered rest name ≠ none := by
        rw [h, Ne, entered_eq_none_iff, not_not]
        exact any_key_iff.1 hany
      rw [Option.or_of_isSome (Option.isSome_iff_ne_none.2 hfound)]
    · simp [h]
  | case3 key value rest hany ih =>
    rw [List.lookup_cons, entered_cons, ih]
    by_cases h : name = key
    · have hnone : entered rest name = none := by
        rw [h, entered_eq_none_iff, ← any_key_iff]
        exact hany
      rw [hnone, h, beq_self_eq_true, if_pos rfl]
      rfl
    · rw [beq_eq_false_iff_ne.2 h, if_neg h, Option.or_none]

def Row.LastColumn (header : Row) (name : Text) (k : Nat) : Prop :=
  header.cells[k]? = some name ∧ name ∉ header.cells.drop (k + 1)

instance (header : Row) (name : Text) (k : Nat) : Decidable (header.LastColumn name k) :=
  inferInstanceAs (Decidable (_ ∧ _))

theorem Row.lastColumn_of_nodup {header : Row} (h : header.cells.Nodup) {name : Text} {k : Nat}
    (hname : header.cells[k]? = some name) : header.LastColumn name k := by
  refine ⟨hname, ?_⟩
  obtain ⟨hk, rfl⟩ := List.getElem?_eq_some_iff.1 hname
  have hrest := h.sublist (List.drop_sublist k header.cells)
  rw [List.drop_eq_getElem_cons hk] at hrest
  exact (List.nodup_cons.1 hrest).1

/-- A row as a map. Every header cell is a name and has one entry, and under a name of several
columns stands the cell of the last one. -/
structure Row.MapsTo (header r : Row) (entries : List (Text × Text)) : Prop where
  distinct : (entries.map Prod.fst).Nodup
  names : ∀ name, name ∈ entries.map Prod.fst ↔ name ∈ header.cells
  cell : ∀ name k, header.LastColumn name k →
    ∃ cell, r.cells[k]? = some cell ∧ entries.lookup name = some cell

section

variable {header r : Row} (h : r.width = header.width)
include h

theorem Row.map_fst_zip : (header.cells.zip r.cells).map Prod.fst = header.cells :=
  List.map_fst_zip (by simpa [Row.width] using h.ge)

theorem Row.exists_cell {name : Text} {k : Nat} (hname : header.cells[k]? = some name) :
    ∃ cell, r.cells[k]? = some cell := by
  obtain ⟨hk, -⟩ := List.getElem?_eq_some_iff.1 hname
  exact ⟨_, List.getElem?_eq_getElem (hk.trans_eq h.symm)⟩

theorem Row.mapsTo_lastEntries : header.MapsTo r (lastEntries (header.cells.zip r.cells)) where
  distinct := nodup_keys_lastEntries _
  names name := by rw [mem_keys_lastEntries, map_fst_zip h]
  cell name k hlast := by
    obtain ⟨hname, hlater⟩ := hlast
    obtain ⟨cell, hcell⟩ := exists_cell h hname
    refine ⟨cell, hcell, ?_⟩
    rw [lookup_lastEntries]
    refine entered_of_last (List.getElem?_zip_eq_some.2 ⟨hname, hcell⟩) ?_
    rwa [List.map_drop, map_fst_zip h]

theorem Row.MapsTo.map_lookup {entries : List (Text × Text)} (hmap : header.MapsTo r entries)
    (hdistinct : header.cells.Nodup) : header.cells.map (entries.lookup ·) = r.cells.map some := by
  refine List.ext_getElem? fun k => ?_
  rw [List.getElem?_map, List.getElem?_map]
  cases hname : header.cells[k]? with
  | none =>
    have hcell : r.cells[k]? = none := by
      rw [List.getElem?_eq_none_iff] at hname ⊢
      exact h.le.trans hname
    rw [hcell]
    rfl
  | some name =>
    obtain ⟨cell, hcell, hlookup⟩ := hmap.cell name k (lastColumn_of_nodup hdistinct hname)
    rw [hcell, Option.map_some, hlookup]
    rfl

end

theorem Table.toMaps_mapsTo (t : Table) : List.Forall₂ t.header.MapsTo t.rows t.toMaps := by
  rw [toMaps, List.forall₂_map_right_iff, List.forall₂_same]
  exact fun r hr => Row.mapsTo_lastEntries (t.even r hr)

theorem Table.map_lookup_toMaps {t : Table} (h : t.header.cells.Nodup) :
    t.toMaps.map (fun entries => t.header.cells.map (entries.lookup ·)) =
      t.toLists.tail.map (·.map some) := by
  rw [toMaps, toLists, allRows, List.map_cons, List.tail_cons, List.map_map, List.map_map]
  refine List.map_congr_left fun r hr => ?_
  exact (Row.mapsTo_lastEntries (t.even r hr)).map_lookup (t.even r hr) h

/-- A table of rows that were offered one by one gives one map for each row that it took, and where
all header cells differ the maps say the same as the lists behind the header. -/
theorem Table.toMaps_ofOffers (header : Row) (offered : List Row) :
    (ofOffers header offered).rows = offered.filter (·.width == header.width) ∧
    List.Forall₂ header.MapsTo (ofOffers header offered).rows (ofOffers header offered).toMaps ∧
    (header.cells.Nodup →
      (ofOffers header offered).toMaps.map (fun entries => header.cells.map (entries.lookup ·)) =
        (ofOffers header offered).toLists.tail.map (·.map some)) := by
  obtain ⟨hheader, hrows⟩ := ofOffers_spec header offered
  have hmaps := (ofOffers header offered).toMaps_mapsTo
  refine ⟨hrows, by rwa [hheader] at hmaps, fun hdistinct => ?_⟩
  have hlists := (ofOffers header offered).map_lookup_toMaps (by rwa [hheader])
  rwa [hheader] at hlists

def repeatedHeader : Row := ⟨["k".toList, [], "k".toList], none⟩

def namedRows : List Row :=
  [⟨["a".toList, "b".toList, "c".toList], none⟩, ⟨["x".toList], none⟩,
    ⟨["d".toList, [], "f".toList], none⟩]

theorem Table.toMaps_ofOffers_repeated : ∃ first second,
    (ofOffers repeatedHeader namedRows).toMaps = [first, second] ∧
    first.lookup "k".toList = some "c".toList ∧ second.lookup [] = some [] ∧
    (ofOffers ⟨[[], "k".toList, "l".toList], none⟩ namedRows).toMaps.map
        (fun entries => [[], "k".toList, "l".toList].map (entries.lookup ·)) =
      [["a".toList, "b".toList, "c".toList].map some, ["d".toList, [], "f".toList].map some] := by
  obtain ⟨hrows, hmaps, -⟩ := toMaps_ofOffers repeatedHeader namedRows
  have htaken : namedRows.filter (·.width == repeatedHeader.width) =
      [⟨["a".toList, "b".toList, "c".toList], none⟩, ⟨["d".toList, [], "f".toList], none⟩] := by
    decide
  rw [hrows, htaken] at hmaps
  obtain ⟨first, later, hfirst, hlater, hall⟩ := List.forall₂_cons_left_iff.1 hmaps
  obtain ⟨second, behind, hsecond, hbehind, rfl⟩ := List.forall₂_cons_left_iff.1 hlater
  obtain rfl := List.forall₂_nil_left_iff.1 hbehind
  obtain ⟨c, hc, hlast⟩ := hfirst.cell "k".toList 2 (by decide)
  obtain ⟨e, he, hempty⟩ := hsecond.cell [] 1 (by decide)
  cases hc
  cases he
  obtain ⟨-, -, hdistinct⟩ := toMaps_ofOffers ⟨[[], "k".toList, "l".toList], none⟩ namedRows
  exact ⟨first, second, hall, hlast, hempty, hdistinct (by decide)⟩

end ScenarioForest
