import ChartScript.Document.Basic
import ChartScript.Options.Import
import ChartScript.Script.Assembly

/-!
# Charts from documents

A described chart becomes a chart: its rows become cells, its options a tree of the schema that
belongs to its type. The first thing that is wrong is reported: in a chart, data before options; in
a batch, the settings of the loader before the charts, and charts in their order.

A text in a row is read as a date or time where its column says that the cells are such, and stays
text if it cannot be read.
-/

namespace ChartScript

namespace Cell

/-- A text as a cell of a column of some type. -/
def ofText (type : Option ColumnType) (value : String) : Cell :=
  let temporal? := match type with
    | some .date => (Date.read? value).map Cell.date
    | some .datetime => (Moment.read? true value).map Cell.moment
    | some .timeofday => (TimeOfDay.read? value).map Cell.time
    | _ => none
  temporal?.getD (.text value)

/-- The text of a member, if it has one. -/
def memberText? (key : String) (members : List (String × Json)) : Option String :=
  (Json.member? key members).bind Json.text?

mutual

/-- A cell from JSON. An object is code if it has a text marked as such, else it is the value of its
member `v`, shown as its member `f` if that is text. -/
def ofJson (type : Option ColumnType) : Json → Except Error Cell
  | .null => .ok .null
  | .bool value => .ok (.flag value)
  | .number value => .ok (.number value.toBinary64)
  | .text value => .ok (ofText type value)
  | .array _ => .error .arrayCell
  | .object members =>
    match memberText? Json.codeKey members, valueOfMembers? type members,
      memberText? "f" members with
    | some source, _, _ => .ok (.code source)
    | none, some value, some shown => value.map fun value => .formatted value shown
    | none, some value, none => value
    | none, none, _ => .error .cellWithoutValue

/-- The cell from the member `v`, if there is one. -/
def valueOfMembers? (type : Option ColumnType) :
    List (String × Json) → Option (Except Error Cell)
  | [] => none
  | (key, value) :: rest =>
    if key = "v" then some (ofJson type value) else valueOfMembers? type rest

end

/-- A row of cells, each read by the type of its column; cells beyond the last column have none. -/
def rowOfJson : List (Option ColumnType) → List Json → Except Error (List Cell)
  | _, [] => .ok []
  | types, value :: rest => do
    let first ← ofJson types.head?.join value
    let others ← rowOfJson types.tail rest
    return first :: others

end Cell

/-- The described table. -/
def DataDocument.source : DataDocument → Except Error TableSource
  | .rows columns written => do
    let cells ← written.mapM (Cell.rowOfJson (columns.map (·.type)))
    let table ← DataTable.ofRows columns cells
    return .rows table
  | .table json => do
    let table ← JsonTable.ofJson json
    return .json table

/-- A chart of a described table. -/
def DataDocument.chart (name : String) (type : ChartType) (data : DataDocument) :
    Except Error Chart := do
  let source ← data.source
  Chart.ofTable name type source

/-- A chart that compares two described tables. -/
def ComparisonDocument.chart (name : String) (type : ChartType) (d : ComparisonDocument) :
    Except Error Chart := do
  let old ← d.old.chart (name ++ "Old") type
  let new ← d.new.chart (name ++ "New") type
  Chart.compare name old new

namespace ChartDocument

/-- The chart without options, listeners and element. -/
def bareChart (d : ChartDocument) : Except Error Chart :=
  match d.data, d.comparison with
  | some data, none => data.chart d.name d.type
  | none, some comparison => comparison.chart d.name d.type
  | _, _ => .error (.dataOrComparison d.name)

/-- The described chart. -/
def chart (d : ChartDocument) : Except Error Chart := do
  let bare ← d.bareChart
  let chart ←
    if d.options = .null then .ok bare
    else do
      let options ← Options.ofJson bare.options.schema d.options
      bare.withOptions options
  return { chart.withListeners d.listeners with elementId := d.elementId }

end ChartDocument

namespace BatchDocument

/-- The described charts. -/
def batch (d : BatchDocument) : Except Error Batch := do
  let charts ← d.charts.mapM ChartDocument.chart
  return ⟨charts, d.elementIds⟩

/-- The script for the described batch. -/
def script (d : BatchDocument) : Except Error String := do
  let loader ← Loader.ofSettings d.settings
  let batch ← d.batch
  batch.script loader

end BatchDocument

end ChartScript
