import ChartScript.Chart.Event
import ChartScript.Chart.Type
import ChartScript.Options.Assignment
import ChartScript.Table.Basic
import ChartScript.Text.Identifier

/-!
# Charts

A chart has a name, a type, data, options and listeners, and perhaps the id of the page element that
it is drawn in. Its data is one table, or an old and a new chart whose tables are compared. A chart
that compares has no table of its own, so it is refused as one of the two.

The name is an identifier, and the variables for a chart's data and options are named after it.
-/

namespace ChartScript

mutual

/-- What a chart shows. -/
inductive ChartData where
  | table (source : TableSource)
  /-- The tables of two charts, to be compared. -/
  | comparison (old new : Chart)

/-- A chart. -/
structure Chart where
  name : Identifier
  type : ChartType
  elementId : Option String
  data : ChartData
  options : Options
  listeners : List EventListener

end

/-- A type of chart together with whether it compares; the charts of a batch must agree on it. -/
structure ChartClass where
  type : ChartType
  comparison : Bool
deriving DecidableEq, Repr

/-- A class in words. -/
def ChartClass.describe (c : ChartClass) : String :=
  if c.comparison then c.type.path ++ " (diff)" else c.type.path

/-- Whether two tables are compared. -/
def ChartData.isComparison : ChartData → Bool
  | .table _ => false
  | .comparison .. => true

namespace Chart

/-- A chart of a table, without element, options and listeners. -/
def ofTable (name : String) (type : ChartType) (source : TableSource) : Except Error Chart := do
  let name ← Identifier.ofText name
  return ⟨name, type, none, .table source, Options.empty type.schema, []⟩

/-- A chart that compares the tables of two charts of one type. -/
def compare (name : String) (old new : Chart) : Except Error Chart := do
  let name ← Identifier.ofText name
  if old.data.isComparison || new.data.isComparison then .error .nestedComparison
  else if old.type ≠ new.type then .error (.typesDiffer old.type.path new.type.path)
  else
    match old.type.comparisonSchema? with
    | none => .error (.noComparison old.type.path)
    | some schema =>
      return ⟨name, old.type, none, .comparison old new, Options.empty schema, []⟩

/-- The table of a chart; one that compares has none. -/
def table (c : Chart) : Except Error TableSource :=
  match c.data with
  | .table source => .ok source
  | .comparison .. => .error (.comparisonAsTable c.name.text)

/-- The class of a chart. -/
def chartClass (c : Chart) : ChartClass := ⟨c.type, c.data.isComparison⟩

/-- The variable for the data. -/
def dataName (c : Chart) : String := "data" ++ Text.capitalize c.name.text

/-- The variable for the options. -/
def optionsName (c : Chart) : String := "options" ++ Text.capitalize c.name.text

/-- A chart drawn in an element. -/
def withElementId (c : Chart) (id : String) : Chart := { c with elementId := some id }

/-- A chart with other options, whose schema must be the present one or extend it. -/
def withOptions (c : Chart) (options : Options) : Except Error Chart :=
  if options.schema.isA c.options.schema then .ok { c with options := options }
  else
    .error (.shapeMismatch (c.name.text ++ ".options") c.options.schema.describe
      options.schema.describe)

/-- A chart with other listeners. -/
def withListeners (c : Chart) (listeners : List EventListener) : Chart :=
  { c with listeners := listeners }

/-- A chart with one listener more. -/
def listen (c : Chart) (listener : EventListener) : Chart :=
  { c with listeners := c.listeners ++ [listener] }

/-- Assign an option through a path; the chart keeps whatever tree that leaves behind. -/
def assign (c : Chart) (path : String) (value : OptionValue) : Except Error Unit × Chart :=
  let (outcome, options) := c.options.assign path value
  (outcome, { c with options := options })

/-- The id of the element for a chart, which must not be empty. -/
def requireElementId (c : Chart) (id : Option String) : Except Error String :=
  match id with
  | none => .error (.missingElementId c.name.text)
  | some id => if id = "" then .error (.missingElementId c.name.text) else .ok id

end Chart

end ChartScript
