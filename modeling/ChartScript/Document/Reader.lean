import ChartScript.Document.Basic
import ChartScript.Error
import ChartScript.Json.Record

/-!
# Reading documents

A text is a document if it is a list of charts or, failing that, a record of settings, element ids
and charts with the version of the form. Records are read as `Json.Record` says.

The data of a chart says of which kind it is: in a member `kind`, wherever that stands among the
members, or in the first item of an array. It is therefore taken in as a whole before anything in it
is looked at, while members of other records that nobody asks for are skipped unread.
-/

namespace ChartScript

namespace DataDocument

/-- The rows of cells in an array of arrays. -/
def rowsOfJson? : Json → Option (List (List Json))
  | .array items => items.mapM fun
    | .array cells => some (Json.canonicalItems cells)
    | _ => none
  | _ => none

/-- Data of a kind, from the fields that are left when the kind is taken away. -/
def ofKind? (kind : String) (body : Json) : Option DataDocument :=
  if kind = "array" then do
    match ← body.record? ["columns", "rows"] with
    | [some (.array columns), written] =>
      let columns ← columns.mapM (Column.ofJson? .nullOrEmpty)
      let cells ← match written with
        | none => some []
        | some written => rowsOfJson? written
      return .rows columns cells
    | _ => none
  else if kind = "table" then do
    match ← body.record? ["table"] with
    | [some json] => return .table json.canonical
    | _ => none
  else none

/-- Data from JSON as it is written. -/
def ofJson? : Json → Option DataDocument
  | .array (.text kind :: items) => ofKind? kind (.array items)
  | .object members =>
    match members.filter (·.1 == "kind") with
    | [(_, .text kind)] => ofKind? kind (.object (members.filter (·.1 != "kind")))
    | _ => none
  | _ => none

/-- The data of a chart. -/
def ofRaw? (depth : Nat) (raw : RawJson) : Option DataDocument :=
  (raw.content? depth).bind ofJson?

end DataDocument

/-- Two tables, neither of which may be left out. -/
def ComparisonDocument.ofRaw? (depth : Nat) (raw : RawJson) : Option ComparisonDocument := do
  match ← raw.record? ["old", "new"] depth with
  | (depth, [some old, some new]) =>
    let old ← DataDocument.ofRaw? depth old
    let new ← DataDocument.ofRaw? depth new
    return ⟨old, new⟩
  | _ => none

/-- A listener, which is called every time unless it says otherwise. -/
def EventListener.ofRaw? (depth : Nat) (raw : RawJson) : Option EventListener := do
  match ← raw.record? ["event", "function", "once"] depth with
  | (depth, [some event, some function, once]) =>
    let event ← (event.word? depth).bind EventType.ofWord?
    let function ← function.text?
    let once ← RawJson.orDefault? false RawJson.bool? once
    return ⟨event, function, once⟩
  | _ => none

/-- A chart, which must have a name and a type. -/
def ChartDocument.ofRaw? (depth : Nat) (raw : RawJson) : Option ChartDocument := do
  match ← raw.record?
      ["name", "chart_type", "element_id", "data", "diff", "options", "events"] depth with
  | (depth, [some name, some type, elementId, data, comparison, options, listeners]) =>
    let name ← name.text?
    let type ← (type.word? depth).bind ChartType.ofWord?
    let elementId ← RawJson.optional? RawJson.text? elementId
    let data ← RawJson.optional? (DataDocument.ofRaw? depth) data
    let comparison ← RawJson.optional? (ComparisonDocument.ofRaw? depth) comparison
    let options ← RawJson.orDefault? .null (RawJson.value? depth) options
    let listeners ← RawJson.orDefault? [] (RawJson.list? EventListener.ofRaw? depth) listeners
    return ⟨name, type, elementId, data, comparison, options, listeners⟩
  | _ => none

namespace BatchDocument

/-- A list of charts. -/
def chartsOfRaw? (raw : RawJson) : Option (List ChartDocument) :=
  raw.list? ChartDocument.ofRaw? jsonDepth

/-- A record with the version of its form. -/
def versionedOfRaw? (raw : RawJson) : Option (Nat × BatchDocument) := do
  match ← raw.record? ["schema_version", "config", "element_ids", "charts"] jsonDepth with
  | (depth, [some version, settings, elementIds, some charts]) =>
    let version ← version.unsigned32?
    let settings ← RawJson.orDefault? .default (LoaderSettings.ofRaw? depth) settings
    let elementIds ← RawJson.optional? (RawJson.list? (fun _ => RawJson.text?) depth) elementIds
    let charts ← charts.list? ChartDocument.ofRaw? depth
    return (version, ⟨settings, elementIds, charts⟩)
  | _ => none

/-- A document in either form. -/
def ofRaw (raw : RawJson) : Except Error BatchDocument :=
  match chartsOfRaw? raw with
  | some charts => .ok (ofCharts charts)
  | none =>
    match versionedOfRaw? raw with
    | none => .error .unreadableBatch
    | some (number, document) =>
      if number = version then .ok document else .error (.unsupportedVersion number)

/-- Read a document. -/
def ofText (text : String) : Except Error BatchDocument :=
  match RawJson.read? text with
  | none => .error .unreadableBatch
  | some raw => ofRaw raw

end BatchDocument

end ChartScript
