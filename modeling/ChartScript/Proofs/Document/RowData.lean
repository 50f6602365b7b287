import ChartScript.Proofs.Document.Cells
import ChartScript.Proofs.Document.RoundTrip
import ChartScript.Proofs.Table.Building

/-!
# Charts of described rows

Which described rows a chart can be made of: every value in them has to be one that a cell can be
made of, and every row as wide as there are columns. Cells then stand where the values stand that
they are read from. Numbers that are read from JSON are finite, so no row is ever refused for a
number in it.
-/

namespace ChartScript

namespace Json

/-- JSON whose integers have 64 bits. -/
inductive Ranged : Json → Prop
  | null : Ranged .null
  | bool (value : Bool) : Ranged (.bool value)
  | number {value : JsonNumber} (h : ∀ n, value = .integer n → value.Is64Bit) :
    Ranged (.number value)
  | text (value : String) : Ranged (.text value)
  | array {items : List Json} (h : ∀ item ∈ items, Ranged item) : Ranged (.array items)
  | object {members : List (String × Json)} (h : ∀ member ∈ members, Ranged member.2) :
    Ranged (.object members)

/-- That integers have 64 bits is inherited. -/
theorem inherited_ranged : Inherited Ranged :=
  ⟨⟨fun h => by cases h; assumption, .array⟩, ⟨fun h => by cases h; assumption, .object⟩⟩

/-- The canonical form has no other numbers. -/
theorem Ranged.canonical {value : Json} (h : value.Ranged) : value.canonical.Ranged := by
  induction h with
  | null => exact .null
  | bool value => exact .bool value
  | number h => exact .number h
  | text value => exact .text value
  | array _ ih =>
    rw [Json.canonical, canonicalItems_eq_map]
    exact .array (List.forall_mem_map.mpr ih)
  | object _ ih =>
    rw [Json.canonical, canonicalMembers_eq_map]
    refine .object fun member hmember => ?_
    obtain ⟨written, hwritten, rfl⟩ := List.mem_map.mp (Keyed.mem_ofList hmember)
    exact ih written hwritten

end Json

namespace RawJson

mutual

/-- The integers in the content of a tree have 64 bits. -/
theorem ranged_of_content? : (raw : RawJson) → {k : Nat} → {value : Json} →
    content? k raw = some value → value.Ranged
  | .null, _, _, h => by
    cases h
    exact .null
  | .bool value, _, _, h => by
    cases h
    exact .bool value
  | .number lexeme, _, _, h => by
    obtain ⟨number, hnumber, rfl⟩ := Option.map_eq_some_iff.mp h
    refine .number fun n hn => ?_
    subst hn
    exact JsonNumber.is64Bit_of_value? hnumber
  | .string text, _, _, h => by
    obtain ⟨text, _, rfl⟩ := Option.map_eq_some_iff.mp h
    exact .text text
  | .array items, k, _, h => by
    cases k with
    | zero => cases h
    | succ k =>
      obtain ⟨values, hvalues, rfl⟩ := Option.map_eq_some_iff.mp h
      exact .array (ranged_of_contentItems? items hvalues)
  | .object members, k, _, h => by
    cases k with
    | zero => cases h
    | succ k =>
      obtain ⟨values, hvalues, rfl⟩ := Option.map_eq_some_iff.mp h
      exact .object (ranged_of_contentMembers? members hvalues)

/-- The integers in the contents of items have 64 bits. -/
theorem ranged_of_contentItems? : (items : List RawJson) → {k : Nat} → {values : List Json} →
    contentItems? k items = some values → ∀ value ∈ values, value.Ranged
  | [], _, _, h => by
    cases h
    exact List.forall_mem_nil _
  | item :: rest, _, _, h => by
    obtain ⟨first, hfirst, h⟩ := Option.bind_eq_some_iff.mp h
    obtain ⟨others, hothers, h⟩ := Option.bind_eq_some_iff.mp h
    cases h
    exact List.forall_mem_cons.mpr
      ⟨ranged_of_content? item hfirst, ranged_of_contentItems? rest hothers⟩

/-- The integers in the contents of members have 64 bits. -/
theorem ranged_of_contentMembers? : (members : List (Option String × RawJson)) → {k : Nat} →
    {values : List (String × Json)} → contentMembers? k members = some values →
      ∀ value ∈ values, value.2.Ranged
  | [], _, _, h => by
    cases h
    exact List.forall_mem_nil _
  | (key, value) :: rest, _, _, h => by
    obtain ⟨key, _, h⟩ := Option.bind_eq_some_iff.mp h
    obtain ⟨first, hfirst, h⟩ := Option.bind_eq_some_iff.mp h
    obtain ⟨others, hothers, h⟩ := Option.bind_eq_some_iff.mp h
    cases h
    exact List.forall_mem_cons.mpr
      ⟨ranged_of_content? value hfirst, ranged_of_contentMembers? rest hothers⟩

end

end RawJson

/-- The integers in rows that are read have 64 bits, from whatever they are read. -/
theorem DataDocument.ranged_of_ofRaw? {depth : Nat} {raw : RawJson} {columns : List Column}
    {written : List (List Json)} (h : ofRaw? depth raw = some (.rows columns written)) :
    ∀ row ∈ written, ∀ json ∈ row, json.Ranged := by
  obtain ⟨json, hjson, hread⟩ := Option.bind_eq_some_iff.mp h
  intro row hrow cell hcell
  obtain ⟨value, hvalue, rfl⟩ := canonicalOf_of_ofJson? Json.inherited_ranged
    (RawJson.ranged_of_content? raw hjson) hread row hrow cell hcell
  exact hvalue.canonical

/-- JSON that a cell is made of: anything plain, an object with a text that is marked as code, and
an object with a value that a cell is made of. -/
inductive Json.CellLike : Json → Prop
  | null : CellLike .null
  | bool (value : Bool) : CellLike (.bool value)
  | number (value : JsonNumber) : CellLike (.number value)
  | text (value : String) : CellLike (.text value)
  | code {members : List (String × Json)} {source : String}
    (h : member? codeKey members = some (.text source)) : CellLike (.object members)
  | value {members : List (String × Json)} {value : Json} (h : member? "v" members = some value)
    (hvalue : CellLike value) : CellLike (.object members)

namespace Cell

/-- A cell is made of exactly the JSON that is said to be like a cell, in a column of any type. -/
theorem exists_ofJson_eq_ok {type : Option ColumnType} {json : Json} :
    (∃ cell, ofJson type json = .ok cell) ↔ json.CellLike := by
  constructor
  · induction json using Json.object_induction with
    | plain json hplain =>
      rintro ⟨cell, h⟩
      cases json with
      | null => exact .null
      | bool value => exact .bool value
      | number value => exact .number value
      | text value => exact .text value
      | array items =>
        rw [ofJson] at h
        cases h
      | object members => exact absurd rfl (hplain members)
    | object members ih =>
      rintro ⟨cell, h⟩
      rw [ofJson_object] at h
      split at h
      · rename_i source _ hsource
        exact .code (memberText?_eq_some.mp hsource)
      · rename_i value _ hvalue
        obtain ⟨inner, hinner, _⟩ := map_eq_ok.mp h
        exact .value hvalue (ih _ (mem_of_member? hvalue) ⟨inner, hinner⟩)
      · cases h
  · intro h
    induction h with
    | null => exact ⟨_, by rw [ofJson]⟩
    | bool value => exact ⟨_, by rw [ofJson]⟩
    | number value => exact ⟨_, by rw [ofJson]⟩
    | text value => exact ⟨_, by rw [ofJson]⟩
    | code h => exact ⟨_, by rw [ofJson_object, memberText?_eq_some.mpr h]⟩
    | value h _ ih =>
      obtain ⟨inner, hinner⟩ := ih
      rw [ofJson_object, h]
      split
      · exact ⟨_, rfl⟩
      · rename_i heq
        cases heq
        rw [hinner]
        exact ⟨_, rfl⟩
      · rename_i heq
        cases heq

/-- The numbers in cells from JSON whose integers have 64 bits are finite. -/
theorem cellInvariant_isFinite :
    CellInvariant Json.Ranged fun cell => cell.isFinite = true where
  members h := Json.inherited_ranged.object_iff.mp h
  null := rfl
  flag _ := rfl
  number h := by
    cases h with
    | number hrange => exact JsonNumber.isFinite_toBinary64 hrange
  text _ := rfl
  date _ := rfl
  moment _ := rfl
  time _ := rfl
  formatted _ h := h
  code _ _ := rfl

/-- A row of cells has a cell for each value, read by the type of its column. -/
theorem getElem?_of_rowOfJson {types : List (Option ColumnType)} {row : List Json}
    {cells : List Cell} (h : rowOfJson types row = .ok cells) :
    cells.length = row.length ∧
      ∀ (j : Nat) json, row[j]? = some json →
        ∃ cell, cells[j]? = some cell ∧ ofJson types[j]?.join json = .ok cell := by
  induction row generalizing types cells with
  | nil =>
    cases h
    exact ⟨rfl, by simp⟩
  | cons json rest ih =>
    rw [rowOfJson] at h
    obtain ⟨first, hfirst, h⟩ := bind_eq_ok.mp h
    obtain ⟨others, hothers, h⟩ := bind_eq_ok.mp h
    cases h
    obtain ⟨hlength, hcells⟩ := ih hothers
    refine ⟨by rw [List.length_cons, List.length_cons, hlength], fun j other hother => ?_⟩
    cases j with
    | zero =>
      cases hother
      rw [List.head?_eq_getElem?] at hfirst
      exact ⟨first, rfl, hfirst⟩
    | succ j =>
      obtain ⟨cell, hcell, hread⟩ := hcells j other hother
      rw [List.getElem?_tail] at hread
      exact ⟨cell, hcell, hread⟩

/-- JSON of which no cell can be made is an array or an object without value, or has such a value
inside. -/
theorem eq_of_ofJson_eq_error {type : Option ColumnType} {json : Json} {e : Error}
    (h : ofJson type json = .error e) : e = .arrayCell ∨ e = .cellWithoutValue := by
  induction json using Json.object_induction with
  | plain json hplain =>
    cases json with
    | array items =>
      rw [ofJson] at h
      cases h
      exact .inl rfl
    | object members => exact absurd rfl (hplain members)
    | _ =>
      rw [ofJson] at h
      cases h
  | object members ih =>
    rw [ofJson_object] at h
    split at h
    · cases h
    · rename_i value _ hvalue
      refine ih _ (mem_of_member? hvalue) ?_
      cases hinner : ofJson type value with
      | ok inner =>
        rw [hinner] at h
        cases h
      | error e' =>
        rw [hinner] at h
        cases h
        rfl
    · cases h
      exact .inr rfl

/-- A row of cells is made of exactly the rows of JSON each of which is like a cell. -/
theorem exists_rowOfJson_eq_ok {types : List (Option ColumnType)} {row : List Json} :
    (∃ cells, rowOfJson types row = .ok cells) ↔ ∀ json ∈ row, json.CellLike := by
  induction row generalizing types with
  | nil => exact ⟨fun _ => List.forall_mem_nil _, fun _ => ⟨[], by rw [rowOfJson]⟩⟩
  | cons json rest ih =>
    rw [List.forall_mem_cons, ← exists_ofJson_eq_ok, ← ih, rowOfJson]
    constructor
    · rintro ⟨cells, h⟩
      obtain ⟨first, hfirst, h⟩ := bind_eq_ok.mp h
      obtain ⟨others, hothers, _⟩ := bind_eq_ok.mp h
      exact ⟨⟨first, hfirst⟩, ⟨others, hothers⟩⟩
    · rintro ⟨⟨first, hfirst⟩, ⟨others, hothers⟩⟩
      exact ⟨first :: others, by rw [hfirst, hothers]; rfl⟩

/-- A row of which no cells can be made has a value of which no cell can be made. -/
theorem eq_of_rowOfJson_eq_error {types : List (Option ColumnType)} {row : List Json} {e : Error}
    (h : rowOfJson types row = .error e) : e = .arrayCell ∨ e = .cellWithoutValue := by
  induction row generalizing types with
  | nil => cases h
  | cons json rest ih =>
    rw [rowOfJson] at h
    rcases bind_eq_error.mp h with h | ⟨first, _, h⟩
    · exact eq_of_ofJson_eq_error h
    · rcases bind_eq_error.mp h with h | ⟨others, _, h⟩
      · exact ih h
      · cases h

end Cell

/-- Rows of cells are read from rows of JSON: there are as many rows, each as wide as it was, and a
cell stands where the JSON stands that it is read from, by the type of its column. -/
structure ReadInPlace (columns : List Column) (written : List (List Json))
    (rows : List (List Cell)) : Prop where
  shape : rows.map List.length = written.map List.length
  cell : ∀ i j json, inPlace? written i j = some json →
    ∃ cell, inPlace? rows i j = some cell ∧
      Cell.ofJson (columns[j]?.bind Column.type) json = .ok cell

/-- Rows that are read one after another stand where they stood. -/
theorem readInPlace_of_mapM {columns : List Column} {written : List (List Json)}
    {rows : List (List Cell)}
    (h : written.mapM (Cell.rowOfJson (columns.map (·.type))) = .ok rows) :
    ReadInPlace columns written rows where
  shape := map_eq_of_mapM_eq_ok (fun _ _ _ hread => (Cell.getElem?_of_rowOfJson hread).1) h
  cell i j json hjson := by
    obtain ⟨row, hrow, hvalue⟩ := Option.bind_eq_some_iff.mp hjson
    obtain ⟨hlength, hget⟩ := getElem?_of_mapM_eq_ok h
    obtain ⟨hi, _⟩ := List.getElem?_eq_some_iff.mp hrow
    obtain ⟨item, hitem, hread⟩ := hget i _ (List.getElem?_eq_getElem (hlength.symm ▸ hi))
    obtain rfl := Option.some.inj (hitem.symm.trans hrow)
    obtain ⟨cell, hcell, hok⟩ := (Cell.getElem?_of_rowOfJson hread).2 j json hvalue
    refine ⟨cell, ?_, ?_⟩
    · rw [inPlace?, List.getElem?_eq_getElem (hlength.symm ▸ hi)]
      exact hcell
    · rw [List.getElem?_map] at hok
      cases hcolumn : columns[j]? with
      | none =>
        rw [hcolumn] at hok
        exact hok
      | some column =>
        rw [hcolumn] at hok
        exact hok

namespace ReadInPlace

variable {columns : List Column} {written : List (List Json)} {rows : List (List Cell)}

/-- Whether every row has as many cells is seen before reading as after. -/
theorem forall_length_iff (h : ReadInPlace columns written rows) {width : Nat} :
    (∀ row ∈ rows, row.length = width) ↔ ∀ row ∈ written, row.length = width := by
  rw [← List.forall_mem_map (f := List.length) (P := (· = width)), h.shape, List.forall_mem_map]

end ReadInPlace

namespace DataTable

/-- Rows of finite numbers are never refused for a number. -/
theorem rowsFault_ne_rowNotFinite {width index : Nat} {rows : List (List Cell)}
    (h : ∀ row ∈ rows, ∀ cell ∈ row, cell.isFinite = true) (i : Nat) :
    rowsFault width index rows ≠ some (.rowNotFinite i) := by
  induction rows generalizing index with
  | nil => exact nofun
  | cons row rest ih =>
    obtain ⟨hrow, hrest⟩ := List.forall_mem_cons.mp h
    intro hfault
    rcases Option.or_eq_some_iff.mp hfault with hfault | ⟨_, hfault⟩
    · rw [rowFault, if_pos (List.all_eq_true.mpr hrow)] at hfault
      split at hfault <;> cases hfault
    · exact ih hrest hfault

/-- A table is never refused for a number when all its numbers are finite. -/
theorem ofRows_ne_rowNotFinite {columns : List Column} {rows : List (List Cell)}
    (h : ∀ row ∈ rows, ∀ cell ∈ row, cell.isFinite = true) (i : Nat) :
    ofRows columns rows ≠ .error (.rowNotFinite i) := by
  intro hrefused
  unfold ofRows at hrefused
  split at hrefused
  · cases hrefused
  · split at hrefused
    · rename_i fault hfault
      cases hrefused
      exact rowsFault_ne_rowNotFinite h i hfault
    · cases hrefused

end DataTable

namespace DataDocument

/-- A chart of described rows is the chart of the table of the cells that are read from them. -/
theorem chart_rows_eq_ok {name : String} {type : ChartType} {columns : List Column}
    {written : List (List Json)} {c : Chart} :
    (rows columns written).chart name type = .ok c ↔
      ∃ cells t i, written.mapM (Cell.rowOfJson (columns.map (·.type))) = .ok cells ∧
        DataTable.ofRows columns cells = .ok t ∧ Identifier.ofText name = .ok i ∧
          c = ⟨i, type, none, .table (.rows t), Options.empty type.schema, []⟩ := by
  constructor
  · intro h
    obtain ⟨source, hsource, h⟩ := bind_eq_ok.mp h
    obtain ⟨cells, hcells, hsource⟩ := bind_eq_ok.mp hsource
    obtain ⟨t, ht, hsource⟩ := bind_eq_ok.mp hsource
    obtain ⟨i, hi, h⟩ := bind_eq_ok.mp h
    cases hsource
    cases h
    exact ⟨cells, t, i, hcells, ht, hi, rfl⟩
  · rintro ⟨cells, t, i, hcells, ht, hi, rfl⟩
    have hsource : (rows columns written).source = .ok (.rows t) := by
      rw [source, hcells]
      change (DataTable.ofRows columns cells >>= _) = _
      rw [ht]
      rfl
    rw [chart, hsource]
    change Chart.ofTable name type (.rows t) = _
    rw [Chart.ofTable, hi]
    rfl

/-- The numbers in the cells of described rows are finite. -/
theorem forall_isFinite_of_mapM {types : List (Option ColumnType)} {written : List (List Json)}
    (h : ∀ row ∈ written, ∀ json ∈ row, json.Ranged) {cells : List (List Cell)}
    (hcells : written.mapM (Cell.rowOfJson types) = .ok cells) :
    ∀ row ∈ cells, ∀ cell ∈ row, cell.isFinite = true := by
  intro row hrow cell hcell
  obtain ⟨json, hjson, hread⟩ := exists_mem_of_mapM_eq_ok hcells hrow
  exact Cell.cellInvariant_isFinite.rowOfJson (h json hjson) hread cell hcell

/-- No chart of described rows is refused for a number that is not finite. -/
theorem chart_rows_ne_rowNotFinite {name : String} {type : ChartType} {columns : List Column}
    {written : List (List Json)} (h : ∀ row ∈ written, ∀ json ∈ row, json.Ranged) (index : Nat) :
    (rows columns written).chart name type ≠ .error (.rowNotFinite index) := by
  intro hrefused
  rcases bind_eq_error.mp hrefused with hsource | ⟨source, _, hname⟩
  · rcases bind_eq_error.mp hsource with hread | ⟨cells, hcells, htable⟩
    · obtain ⟨_, row, _, _, _, hrow⟩ := mapM_eq_error.mp hread
      rcases Cell.eq_of_rowOfJson_eq_error hrow with heq | heq <;> cases heq
    · rcases bind_eq_error.mp htable with htable | ⟨t, _, hdone⟩
      · exact DataTable.ofRows_ne_rowNotFinite (forall_isFinite_of_mapM h hcells) index htable
      · cases hdone
  · rcases bind_eq_error.mp hname with hname | ⟨i, _, hdone⟩
    · unfold Identifier.ofText at hname
      split at hname
      · cases hname
      · split at hname <;> cases hname
    · cases hdone

/-- A chart of described rows exists exactly when its name is an identifier, there is a column, and
every row has as many values as there are columns, all of them like cells. It has the columns that
are described, and in every place the cell that is read from the value in that place. Rows whose
integers have 64 bits, as those of all rows that are read have, are never refused for a number. -/
theorem chart_of_rows (name : String) (type : ChartType) (columns : List Column)
    (written : List (List Json)) (h : ∀ row ∈ written, ∀ json ∈ row, json.Ranged) :
    ((∃ c, (rows columns written).chart name type = .ok c) ↔
      Text.isIdentifier name.toList = true ∧ columns ≠ [] ∧
        ∀ row ∈ written, row.length = columns.length ∧ ∀ json ∈ row, json.CellLike) ∧
      (∀ c, (rows columns written).chart name type = .ok c →
        c.name.text = name ∧ c.type = type ∧
          ∃ t : DataTable, c.data = .table (.rows t) ∧ t.columns = columns ∧
            ReadInPlace columns written t.rows) ∧
      ∀ index, (rows columns written).chart name type ≠ .error (.rowNotFinite index) := by
  have hdone : ∀ c, (rows columns written).chart name type = .ok c →
      c.name.text = name ∧ c.type = type ∧
        ∃ t : DataTable, c.data = .table (.rows t) ∧ t.columns = columns ∧
          ReadInPlace columns written t.rows := by
    intro c hc
    obtain ⟨cells, t, i, hcells, ht, hi, rfl⟩ := chart_rows_eq_ok.mp hc
    obtain ⟨_, _, hcolumns, hrows⟩ := DataTable.ofRows_eq_ok.mp ht
    exact ⟨Identifier.text_of_ofText hi, rfl, t, rfl, hcolumns, hrows ▸ readInPlace_of_mapM hcells⟩
  refine ⟨⟨?_, ?_⟩, hdone, chart_rows_ne_rowNotFinite h⟩
  · rintro ⟨c, hc⟩
    obtain ⟨cells, t, i, hcells, ht, hi, rfl⟩ := chart_rows_eq_ok.mp hc
    obtain ⟨hcolumns, hfit, _⟩ := DataTable.ofRows_eq_ok.mp ht
    have hwidths := (readInPlace_of_mapM hcells).forall_length_iff.mp fun row hrow =>
      (hfit row hrow).1
    refine ⟨(Identifier.ofText_isOk_iff name).mp ⟨i, hi⟩, hcolumns, fun row hrow =>
      ⟨hwidths row hrow, ?_⟩⟩
    exact Cell.exists_rowOfJson_eq_ok.mp (exists_mapM_eq_ok.mp ⟨cells, hcells⟩ row hrow)
  · rintro ⟨hname, hcolumns, hrows⟩
    obtain ⟨i, hi⟩ := (Identifier.ofText_isOk_iff name).mpr hname
    have hread : ∀ row ∈ written, ∃ cells, Cell.rowOfJson (columns.map (·.type)) row = .ok cells :=
      fun row hrow => Cell.exists_rowOfJson_eq_ok.mpr (hrows row hrow).2
    obtain ⟨cells, hcells⟩ := exists_mapM_eq_ok.mpr hread
    have hwidths := (readInPlace_of_mapM hcells).forall_length_iff.mpr fun row hrow =>
      (hrows row hrow).1
    have hfinite := forall_isFinite_of_mapM h hcells
    obtain ⟨t, ht⟩ := DataTable.exists_ofRows_eq_ok.mpr
      ⟨hcolumns, fun row hrow => ⟨hwidths row hrow, hfinite row hrow⟩⟩
    exact ⟨_, chart_rows_eq_ok.mpr ⟨cells, t, i, hcells, ht, hi, rfl⟩⟩

/-- Two rows under a label and a column of dates: a value that is shown otherwise beside a date,
and code beside nothing. -/
def sampleRows : List (List Json) :=
  [[.object [("f", .text "1.2k"), ("v", .number (.integer 1200))], .text "2024-02-29"],
    [.object [("$raw", .text "now()")], .null]]

/-- The sample has a chart, and a date stands where the text is that it is read from. -/
theorem chart_of_rows_sampleRows :
    (∀ row ∈ sampleRows, ∀ json ∈ row, json.Ranged) ∧
      ∃ c t, (rows [.ofLabel "sales", ⟨"day", some .date, none, none⟩] sampleRows).chart "sales"
          .barChart = .ok c ∧ c.data = .table (.rows t) ∧
        ∃ cell, inPlace? t.rows 0 1 = some cell ∧
          Cell.ofJson (some .date) (.text "2024-02-29") = .ok cell := by
  have hpair {α : Type} {P : α → Prop} {a b : α} (ha : P a) (hb : P b) : ∀ x ∈ [a, b], P x :=
    List.forall_mem_cons.mpr ⟨ha, List.forall_mem_singleton.mpr hb⟩
  have hranged : ∀ row ∈ sampleRows, ∀ json ∈ row, json.Ranged := by
    have hnumber : (Json.number (.integer 1200)).Ranged :=
      .number fun n h => by
        obtain rfl := JsonNumber.integer.inj h
        exact ⟨by decide, by decide⟩
    have hcode : (Json.object [("$raw", .text "now()")]).Ranged :=
      .object (List.forall_mem_singleton.mpr (.text _))
    exact hpair (hpair (.object (hpair (.text _) hnumber)) (.text _)) (hpair hcode .null)
  have hcells : ∀ row ∈ sampleRows, row.length = 2 ∧ ∀ json ∈ row, json.CellLike :=
    hpair ⟨rfl, hpair (.value rfl (.number _)) (.text _)⟩ ⟨rfl, hpair (.code rfl) .null⟩
  obtain ⟨hexists, htable, _⟩ := chart_of_rows "sales" .barChart
    [.ofLabel "sales", ⟨"day", some .date, none, none⟩] sampleRows hranged
  obtain ⟨c, hc⟩ := hexists.mpr ⟨by decide, List.cons_ne_nil _ _, hcells⟩
  obtain ⟨_, _, t, ht, _, hplace⟩ := htable c hc
  exact ⟨hranged, c, t, hc, ht, hplace.cell 0 1 _ rfl⟩

end DataDocument

end ChartScript
