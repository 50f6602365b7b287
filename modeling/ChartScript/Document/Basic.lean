import ChartScript.Chart.Event
import ChartScript.Chart.Type
import ChartScript.Json.Value
import ChartScript.Loader.Settings
import ChartScript.Table.Column

/-!
# Documents

A document describes a batch of charts in JSON: the settings of the loader, the charts, and perhaps
the ids of the elements to draw them in. Here are the records that such a document consists of.
They say what was written, and promise nothing: names may be no identifiers, rows may be too long,
and a chart may have no data at all. `Document.Charts` makes charts of them or says why it cannot.

JSON inside a document is kept in canonical form.
-/

namespace ChartScript

/-- The data of a chart as described. -/
inductive DataDocument where
  /-- Columns and the rows under them. -/
  | rows (columns : List Column) (rows : List (List Json))
  /-- A table in the runtime's own JSON form. -/
  | table (json : Json)
deriving DecidableEq

/-- Two tables to be compared. -/
structure ComparisonDocument where
  old : DataDocument
  new : DataDocument
deriving DecidableEq

/-- A chart as described. -/
structure ChartDocument where
  name : String
  type : ChartType
  elementId : Option String
  data : Option DataDocument
  comparison : Option ComparisonDocument
  /-- The options, or null for none. -/
  options : Json
  listeners : List EventListener
deriving DecidableEq

/-- A batch of charts as described. -/
structure BatchDocument where
  settings : LoaderSettings
  elementIds : Option (List String)
  charts : List ChartDocument
deriving DecidableEq

namespace BatchDocument

/-- The version of the form of documents. -/
def version : Nat := 1

/-- Charts alone, under the default settings. -/
def ofCharts (charts : List ChartDocument) : BatchDocument := ⟨.default, none, charts⟩

end BatchDocument

end ChartScript
