import ChartScript.Error
import ChartScript.Table.Cell
import ChartScript.Table.Column

/-!
# Data tables

A table is rectangular by its type: it has at least one column, every row has a cell for each
column, and every number in it is finite. Tables are built from rows or from columns of cells, and
either way the first fault is the one reported.

Tables in the runtime's own JSON form are kept as they are; all that is known of them is that they
list their columns.
-/

namespace ChartScript

/-- What is wrong with one row of a table. -/
def rowFault (width index : Nat) (row : List Cell) : Option Error :=
  if row.length ≠ width then some (.rowWidth index row.length width)
  else if row.all Cell.isFinite then none
  else some (.rowNotFinite index)

/-- The first fault of some rows, counted from an index. -/
def rowsFault (width : Nat) : Nat → List (List Cell) → Option Error
  | _, [] => none
  | index, row :: rest => (rowFault width index row).or (rowsFault width (index + 1) rest)

/-- A row is sound when it has the right number of cells and only finite numbers. -/
def RowFits (width : Nat) (row : List Cell) : Prop :=
  row.length = width ∧ ∀ cell ∈ row, cell.isFinite = true

/-- A row without fault is sound. -/
theorem rowFault_eq_none {width index : Nat} {row : List Cell} :
    rowFault width index row = none ↔ RowFits width row := by
  unfold rowFault RowFits
  by_cases hlength : row.length = width
  · by_cases hfinite : row.all Cell.isFinite = true
    · simp only [hlength, hfinite]
      simpa using hfinite
    · simp only [hlength, hfinite]
      simpa using hfinite
  · simp [hlength]

/-- Rows without fault are all sound. -/
theorem rowsFault_eq_none {width index : Nat} {rows : List (List Cell)} :
    rowsFault width index rows = none ↔ ∀ row ∈ rows, RowFits width row := by
  induction rows generalizing index with
  | nil => simp [rowsFault]
  | cons row rest ih =>
    simp [rowsFault, Option.or_eq_none_iff, rowFault_eq_none, ih]

/-- A rectangular table. -/
structure DataTable where
  columns : List Column
  rows : List (List Cell)
  columns_ne_nil : columns ≠ []
  rows_fit : ∀ row ∈ rows, RowFits columns.length row

namespace DataTable

/-- A table with the given columns and rows. -/
def ofRows (columns : List Column) (rows : List (List Cell)) : Except Error DataTable :=
  if hcolumns : columns = [] then .error .noColumns
  else
    match hrows : rowsFault columns.length 0 rows with
    | some fault => .error fault
    | none => .ok ⟨columns, rows, hcolumns, rowsFault_eq_none.mp hrows⟩

/-- The rows of a table that is given column by column. -/
def rowsOfColumns (height : Nat) (columns : List (List Cell)) : List (List Cell) :=
  columns.foldr (List.zipWith (· :: ·)) (List.replicate height [])

/-- A table with the given columns and the cells of each, which must be equally many. -/
def ofColumns (columns : List (Column × List Cell)) : Except Error DataTable :=
  let height := match columns with
    | [] => 0
    | (_, cells) :: _ => cells.length
  match columns.find? fun (_, cells) => cells.length != height with
  | some (column, cells) => .error (.columnHeight column.label cells.length height)
  | none => ofRows (columns.map (·.1)) (rowsOfColumns height (columns.map (·.2)))

/-- The header as text. -/
def headerText (t : DataTable) : String :=
  "[" ++ ",".intercalate (t.columns.map fun column => column.header.scriptText) ++ "]"

/-- The header and the rows as one array. -/
def arrayText (t : DataTable) : String :=
  "[" ++ ",".intercalate
    (t.headerText :: t.rows.map fun row => (Literal.array (row.map Cell.literal)).spell) ++ "]"

/-- The expression that makes the table. -/
def expression (t : DataTable) : String :=
  "new google.visualization.arrayToDataTable(" ++ t.arrayText ++ ", false)"

end DataTable

/-- Whether a JSON value is an object that lists its columns. -/
def Json.listsColumns : Json → Bool
  | .object members =>
    match Json.member? "cols" members with
    | some (.array _) => true
    | _ => false
  | _ => false

/-- A table in the runtime's JSON form. -/
structure JsonTable where
  json : Json
  lists_columns : json.listsColumns = true

namespace JsonTable

/-- Accept JSON that lists its columns. -/
def ofJson (json : Json) : Except Error JsonTable :=
  if h : json.listsColumns = true then .ok ⟨json, h⟩ else .error .tableWithoutColumns

/-- Read a table from text. -/
def ofText (text : String) : Except Error JsonTable :=
  match Json.read? text with
  | some json => ofJson json
  | none => .error .unreadableTable

/-- The expression that makes the table. -/
def expression (t : JsonTable) : String :=
  "new google.visualization.DataTable(" ++ t.json.scriptText ++ ")"

end JsonTable

/-- Where the table of a chart comes from. -/
inductive TableSource where
  | rows (table : DataTable)
  | json (table : JsonTable)
  /-- A source of the caller's own. All that is asked of it is that it declares a variable as its
  table, so all that is known of it is the expression that it declares the variable as. -/
  | own (expression : String)

/-- The expression that makes the table. -/
def TableSource.expression : TableSource → String
  | .rows table => table.expression
  | .json table => table.expression
  | .own expression => expression

end ChartScript
