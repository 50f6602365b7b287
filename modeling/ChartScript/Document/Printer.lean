import ChartScript.Document.Basic
import ChartScript.Json.Printer

/-!
# Writing documents

A document as JSON on indented lines, its fields in a fixed order. Element ids, data, comparisons
and listeners are left out where there are none; options are always written, and so is the language
of the loader.
-/

namespace ChartScript

/-- A column list and rows, or a table, tagged with the kind of data that it is. -/
def DataDocument.toJson : DataDocument → Json
  | .rows columns cells =>
    .object [("kind", .text "array"), ("columns", .array (columns.map Column.descriptor)),
      ("rows", .array (cells.map .array))]
  | .table json => .object [("kind", .text "table"), ("table", json)]

/-- Two tables, the old one first. -/
def ComparisonDocument.toJson (d : ComparisonDocument) : Json :=
  .object [("old", d.old.toJson), ("new", d.new.toJson)]

/-- An event, a function and whether it is called once only. -/
def EventListener.toJson (listener : EventListener) : Json :=
  .object [("event", .text listener.event.word), ("function", .text listener.function),
    ("once", .bool listener.once)]

/-- A field that is left out when there is nothing to say. -/
def optionalField {α : Type} (name : String) (value? : Option α) (toJson : α → Json) :
    List (String × Json) :=
  (value?.map fun value => (name, toJson value)).toList

/-- A chart as a JSON object. -/
def ChartDocument.toJson (d : ChartDocument) : Json :=
  .object ([("name", .text d.name), ("chart_type", .text d.type.word)] ++
    optionalField "element_id" d.elementId .text ++
    optionalField "data" d.data DataDocument.toJson ++
    optionalField "diff" d.comparison ComparisonDocument.toJson ++
    [("options", d.options)] ++
    if d.listeners.isEmpty then []
    else [("events", .array (d.listeners.map EventListener.toJson))])

namespace BatchDocument

/-- A document as a JSON object. -/
def toJson (d : BatchDocument) : Json :=
  .object ([("schema_version", .number (.integer version)), ("config", d.settings.toJson)] ++
    optionalField "element_ids" d.elementIds (fun ids => .array (ids.map .text)) ++
    [("charts", .array (d.charts.map ChartDocument.toJson))])

/-- A document as text. -/
def text (d : BatchDocument) : String := d.toJson.indented

end BatchDocument

end ChartScript
