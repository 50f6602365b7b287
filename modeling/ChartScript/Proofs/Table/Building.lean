import ChartScript.Proofs.Outcome
import ChartScript.Table.Basic

/-!
# Building tables

A table is made of rows exactly when there is a column and every row fits, and it then has the
columns and rows that it was made of. A table that is given column by column is the table of the
transposed cells: every cell stands once, in the row of its place in the column and in the place of
its column in the row. Whether the columns are equally high is the only thing that is looked at
before, so ragged columns never lose cells.
-/

namespace ChartScript

namespace Cell

/-- A cell and the cells inside it, outermost first. -/
def layers : Cell → List Cell
  | .formatted value shown => .formatted value shown :: value.layers
  | cell => [cell]

/-- No number in a cell, at any depth, is infinite or not a number. -/
def Finite (cell : Cell) : Prop :=
  ∀ value, .number value ∈ cell.layers → value.isFinite = true

/-- The check for finite numbers reaches the cell inside all others. -/
theorem isFinite_iff {cell : Cell} : cell.isFinite = true ↔ cell.Finite := by
  unfold Finite
  induction cell with
  | formatted value shown ih =>
    rw [isFinite, ih, layers]
    simp only [List.mem_cons, reduceCtorEq, false_or]
  | number value => simp [isFinite, layers]
  | _ => simp [isFinite, layers]

end Cell

/-- What lies in a place of one of several lists. -/
def inPlace? {α : Type} (lists : List (List α)) (i j : Nat) : Option α :=
  lists[i]?.bind fun list => list[j]?

/-- What lies in one of several lists lies in a place. -/
theorem exists_mem_iff_inPlace? {α : Type} {lists : List (List α)} {a : α} :
    (∃ list ∈ lists, a ∈ list) ↔ ∃ i j, inPlace? lists i j = some a := by
  constructor
  · rintro ⟨list, hlist, ha⟩
    obtain ⟨i, hi⟩ := List.mem_iff_getElem?.mp hlist
    obtain ⟨j, hj⟩ := List.mem_iff_getElem?.mp ha
    exact ⟨i, j, by rw [inPlace?, hi, Option.bind_some, hj]⟩
  · rintro ⟨i, j, hij⟩
    obtain ⟨list, hi, hj⟩ := Option.bind_eq_some_iff.mp hij
    exact ⟨list, List.mem_of_getElem? hi, List.mem_of_getElem? hj⟩

/-- Columns and rows of the same cells: all columns are as high as there are rows, all rows as wide
as there are columns, and the cell in a row and a column is the same from both sides. -/
structure Transposed {α : Type} (columns rows : List (List α)) : Prop where
  height : ∀ cells ∈ columns, cells.length = rows.length
  width : ∀ row ∈ rows, row.length = columns.length
  cell : ∀ i j, inPlace? rows i j = inPlace? columns j i

/-- What all cells have is seen in the rows as in the columns. -/
theorem Transposed.forall_mem_iff {α : Type} {columns rows : List (List α)}
    (h : Transposed columns rows) {P : α → Prop} :
    (∀ row ∈ rows, ∀ a ∈ row, P a) ↔ ∀ cells ∈ columns, ∀ a ∈ cells, P a := by
  have hsame (a : α) : (∃ row ∈ rows, a ∈ row) ↔ ∃ cells ∈ columns, a ∈ cells := by
    rw [exists_mem_iff_inPlace?, exists_mem_iff_inPlace?, exists_comm]
    simp only [h.cell]
  constructor
  · intro hP cells hcells a ha
    obtain ⟨row, hrow, ha⟩ := (hsame a).mpr ⟨cells, hcells, ha⟩
    exact hP row hrow a ha
  · intro hP row hrow a ha
    obtain ⟨cells, hcells, ha⟩ := (hsame a).mp ⟨row, hrow, ha⟩
    exact hP cells hcells a ha

namespace DataTable

/-- A table is made of columns and rows when there is a column and every row fits, and it has the
columns and rows that it is made of. -/
theorem ofRows_eq_ok {columns : List Column} {rows : List (List Cell)} {t : DataTable} :
    ofRows columns rows = .ok t ↔
      columns ≠ [] ∧ (∀ row ∈ rows, RowFits columns.length row) ∧
        t.columns = columns ∧ t.rows = rows := by
  unfold ofRows
  constructor
  · intro h
    split at h
    · cases h
    · rename_i hcolumns
      split at h
      · cases h
      · rename_i hrows
        cases h
        exact ⟨hcolumns, rowsFault_eq_none.mp hrows, rfl, rfl⟩
  · rintro ⟨hcolumns, hrows, rfl, rfl⟩
    rw [dif_neg hcolumns]
    split
    · rename_i fault hfault
      rw [rowsFault_eq_none.mpr hrows] at hfault
      cases hfault
    · rfl

/-- A table of columns and rows exists when there is a column and every row fits. -/
theorem exists_ofRows_eq_ok {columns : List Column} {rows : List (List Cell)} :
    (∃ t, ofRows columns rows = .ok t) ↔
      columns ≠ [] ∧ ∀ row ∈ rows, RowFits columns.length row := by
  constructor
  · rintro ⟨t, ht⟩
    obtain ⟨hcolumns, hrows, _⟩ := ofRows_eq_ok.mp ht
    exact ⟨hcolumns, hrows⟩
  · rintro ⟨hcolumns, hrows⟩
    exact ⟨⟨columns, rows, hcolumns, hrows⟩, ofRows_eq_ok.mpr ⟨hcolumns, hrows, rfl, rfl⟩⟩

/-- There are as many rows as the columns are high. -/
theorem length_rowsOfColumns {height : Nat} {columns : List (List Cell)}
    (h : ∀ cells ∈ columns, cells.length = height) :
    (rowsOfColumns height columns).length = height := by
  induction columns with
  | nil => exact List.length_replicate
  | cons cells columns ih =>
    obtain ⟨hcells, hcolumns⟩ := List.forall_mem_cons.mp h
    change (List.zipWith (· :: ·) cells (rowsOfColumns height columns)).length = height
    rw [List.length_zipWith, hcells, ih hcolumns, Nat.min_self]

/-- A row of columns of one height has a cell of each. -/
theorem length_of_mem_rowsOfColumns {height : Nat} {columns : List (List Cell)} {row : List Cell}
    (hrow : row ∈ rowsOfColumns height columns) : row.length = columns.length := by
  induction columns generalizing row with
  | nil =>
    rw [List.eq_of_mem_replicate hrow]
    rfl
  | cons cells columns ih =>
    obtain ⟨i, hi⟩ := List.mem_iff_getElem?.mp hrow
    obtain ⟨cell, rest, _, hrest, rfl⟩ := List.getElem?_zipWith_eq_some.mp hi
    rw [List.length_cons, List.length_cons, ih (List.mem_of_getElem? hrest)]

/-- The cell in a row and a column of the rows is that in the column and the row of the columns. -/
theorem inPlace?_rowsOfColumns {height : Nat} {columns : List (List Cell)}
    (h : ∀ cells ∈ columns, cells.length = height) (i j : Nat) :
    inPlace? (rowsOfColumns height columns) i j = inPlace? columns j i := by
  induction columns generalizing j with
  | nil =>
    rw [rowsOfColumns, List.foldr_nil, inPlace?, List.getElem?_replicate]
    split <;> rfl
  | cons cells columns ih =>
    obtain ⟨hcells, hcolumns⟩ := List.forall_mem_cons.mp h
    have hrows := length_rowsOfColumns hcolumns
    have hrest := ih hcolumns
    simp only [inPlace?] at hrest
    change (List.zipWith (· :: ·) cells (rowsOfColumns height columns))[i]?.bind _ = _
    rw [List.getElem?_zipWith]
    cases hcell : cells[i]? with
    | none =>
      have hnone : (rowsOfColumns height columns)[i]? = none := by
        rw [List.getElem?_eq_none_iff] at hcell ⊢
        omega
      rw [hnone] at hrest
      cases j with
      | zero => exact hcell.symm
      | succ j => exact hrest j
    | some cell =>
      have hi : i < (rowsOfColumns height columns).length := by
        obtain ⟨hi, _⟩ := List.getElem?_eq_some_iff.mp hcell
        omega
      rw [List.getElem?_eq_getElem hi] at hrest ⊢
      cases j with
      | zero => exact hcell.symm
      | succ j => exact hrest j

/-- The rows of columns of one height are the columns transposed. -/
theorem transposed_rowsOfColumns {height : Nat} {columns : List (List Cell)}
    (h : ∀ cells ∈ columns, cells.length = height) :
    Transposed columns (rowsOfColumns height columns) where
  height cells hcells := by rw [length_rowsOfColumns h, h cells hcells]
  width _ hrow := length_of_mem_rowsOfColumns hrow
  cell := inPlace?_rowsOfColumns h

/-- Columns of cells make the table of their rows when all are equally high, and none otherwise. -/
theorem ofColumns_eq_ok {columns : List (Column × List Cell)} {t : DataTable} :
    ofColumns columns = .ok t ↔
      ∃ height, (∀ column ∈ columns, column.2.length = height) ∧
        ofRows (columns.map (·.1)) (rowsOfColumns height (columns.map (·.2))) = .ok t := by
  cases columns with
  | nil =>
    simp [ofColumns, ofRows]
  | cons first columns =>
    unfold ofColumns
    simp only
    split
    · rename_i found cells hfind
      have hlow : cells.length ≠ first.2.length := by
        simpa using List.find?_some hfind
      have hfound := List.mem_of_find?_eq_some hfind
      refine ⟨fun h => (by cases h), ?_⟩
      rintro ⟨height, hheight, _⟩
      exact absurd ((hheight _ hfound).trans (hheight first List.mem_cons_self).symm) hlow
    · rename_i hfind
      have hheight : ∀ column ∈ first :: columns, column.2.length = first.2.length := by
        intro column hcolumn
        simpa using List.find?_eq_none.mp hfind column hcolumn
      refine ⟨fun h => ⟨first.2.length, hheight, h⟩, ?_⟩
      rintro ⟨height, hother, h⟩
      obtain rfl := hother first List.mem_cons_self
      exact h

/-- The rows of columns of one height fit when all their numbers are finite. -/
theorem rowsOfColumns_fit_iff {height : Nat} {columns : List (Column × List Cell)}
    (h : ∀ column ∈ columns, column.2.length = height) :
    (∀ row ∈ rowsOfColumns height (columns.map (·.2)), RowFits (columns.map (·.1)).length row) ↔
      ∀ column ∈ columns, ∀ cell ∈ column.2, cell.Finite := by
  have htransposed := transposed_rowsOfColumns (List.forall_mem_map.mpr h)
  have hfits : (∀ row ∈ rowsOfColumns height (columns.map (·.2)),
      RowFits (columns.map (·.1)).length row) ↔
        ∀ row ∈ rowsOfColumns height (columns.map (·.2)), ∀ cell ∈ row, cell.isFinite = true := by
    refine forall₂_congr fun row hrow => and_iff_right ?_
    rw [htransposed.width row hrow, List.length_map, List.length_map]
  rw [hfits, htransposed.forall_mem_iff, List.forall_mem_map]
  simp only [Cell.isFinite_iff]

/-- Cells in columns make a table exactly when there is a column, all columns are equally high and
every number in the cells, however deep, is finite. The table has the columns that were given, and
its rows are the given cells transposed: it is the table that is made of these columns and rows. -/
theorem ofColumns_transposes (columns : List (Column × List Cell)) :
    ((∃ t, ofColumns columns = .ok t) ↔
      columns ≠ [] ∧ (∀ a ∈ columns, ∀ b ∈ columns, a.2.length = b.2.length) ∧
        ∀ column ∈ columns, ∀ cell ∈ column.2, cell.Finite) ∧
      ∀ t, ofColumns columns = .ok t →
        t.columns = columns.map (·.1) ∧ Transposed (columns.map (·.2)) t.rows ∧
          ofRows (columns.map (·.1)) t.rows = .ok t := by
  refine ⟨⟨?_, ?_⟩, ?_⟩
  · rintro ⟨t, ht⟩
    obtain ⟨height, hheight, hrows⟩ := ofColumns_eq_ok.mp ht
    obtain ⟨hcolumns, hfit⟩ := exists_ofRows_eq_ok.mp ⟨t, hrows⟩
    refine ⟨fun hnil => hcolumns (List.map_eq_nil_iff.mpr hnil), fun a ha b hb => ?_,
      (rowsOfColumns_fit_iff hheight).mp hfit⟩
    rw [hheight a ha, hheight b hb]
  · rintro ⟨hcolumns, hequal, hfinite⟩
    obtain ⟨first, hfirst⟩ := List.exists_mem_of_ne_nil columns hcolumns
    have hheight : ∀ column ∈ columns, column.2.length = first.2.length :=
      fun column hcolumn => hequal column hcolumn first hfirst
    obtain ⟨t, ht⟩ := exists_ofRows_eq_ok.mpr
      ⟨fun hnil => hcolumns (List.map_eq_nil_iff.mp hnil),
        (rowsOfColumns_fit_iff hheight).mpr hfinite⟩
    exact ⟨t, ofColumns_eq_ok.mpr ⟨_, hheight, ht⟩⟩
  · intro t ht
    obtain ⟨height, hheight, hrows⟩ := ofColumns_eq_ok.mp ht
    obtain ⟨_, _, hcolumns, hcells⟩ := ofRows_eq_ok.mp hrows
    rw [hcells]
    exact ⟨hcolumns, transposed_rowsOfColumns (List.forall_mem_map.mpr hheight), hrows⟩

/-- Two columns of two cells, one of them shown otherwise. -/
def sampleColumns : List (Column × List Cell) :=
  [(.ofLabel "year", [.text "2004", .text "2005"]),
    (.ofLabel "sales", [.formatted (.number (.ofInt 1200)) "1.2k", .null])]

/-- The sample is a table of two rows. -/
theorem ofColumns_transposes_sampleColumns :
    ∃ t, ofColumns sampleColumns = .ok t ∧ Transposed (sampleColumns.map (·.2)) t.rows ∧
      inPlace? t.rows 0 1 = some (.formatted (.number (.ofInt 1200)) "1.2k") := by
  obtain ⟨hexists, htable⟩ := ofColumns_transposes sampleColumns
  have hfinite : ∀ column ∈ sampleColumns, ∀ cell ∈ column.2, cell.Finite := by
    simp only [← Cell.isFinite_iff]
    decide +kernel
  obtain ⟨t, ht⟩ := hexists.mpr ⟨List.cons_ne_nil _ _, by decide, hfinite⟩
  obtain ⟨_, htransposed, _⟩ := htable t ht
  exact ⟨t, ht, htransposed, htransposed.cell 0 1⟩

end DataTable

end ChartScript
