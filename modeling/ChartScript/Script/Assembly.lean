import ChartScript.Script.Statement

/-!
# Assembling scripts

The script for a batch loads the packages of its charts, opens a callback, starts every chart,
finishes every chart, and closes the callback. Starting a chart declares its variables, finishing it
attaches its listeners and draws it. A batch that fails a check has no script at all.

The callback is named after a digest of the element ids, so equal ids give equal scripts.
-/

namespace ChartScript

/-- The name of the callback for charts in elements of these ids. -/
def callbackName (ids : List String) : String :=
  "drawChart" ++ Text.capitalize (Text.digest (String.join ids))

/-- Declare a variable for an option tree. -/
def Options.declaration (options : Options) (name : String) : Except Error Statement :=
  options.literal.map fun literal => .declare name (.options literal)

namespace Chart

/-- The variable for the old table of a comparison. -/
def oldDataName (c : Chart) : String := "old_" ++ c.dataName

/-- The variable for the new table of a comparison. -/
def newDataName (c : Chart) : String := "new_" ++ c.dataName

/-- Declare the variables for a chart's data. -/
def dataDeclarations (c : Chart) : Except Error (List Statement) :=
  match c.data with
  | .table source => .ok [.declare c.dataName (.table source)]
  | .comparison old new => do
    let oldTable ← old.table
    let newTable ← new.table
    return [.declare c.oldDataName (.table oldTable), .declare c.newDataName (.table newTable),
      .declare c.dataName (.comparison c.name.text c.oldDataName c.newDataName)]

/-- Declare the variables of a chart that is drawn in the element of an id. -/
def start (c : Chart) (id : String) : Except Error (List Statement) := do
  let id ← c.requireElementId (some id)
  let data ← c.dataDeclarations
  let options ← c.options.declaration c.optionsName
  return .declare c.name.text (.chart c.type.path id) :: (data ++ [options])

/-- Attach the listeners of a chart. -/
def listening (c : Chart) : List Statement :=
  c.listeners.map (.listen c.name.text)

/-- The class that converts a chart's options, for the charts that need it. -/
def converter? (c : Chart) : Option String :=
  match c.type.library with
  | .visualization => none
  | .charts => some c.type.path

/-- Attach the listeners of a chart and draw it. -/
def finish (c : Chart) : List Statement :=
  c.listening ++ [.draw c.name.text c.dataName c.optionsName c.converter?]

end Chart

namespace Batch

/-- The packages of the charts, each once, in order of first use. -/
def packages (b : Batch) : List String :=
  (b.charts.map (·.type.package)).eraseDups

/-- Load the library, open the callback and start every chart. -/
def start (loader : Loader) (b : Batch) : Except Error (List Statement) := do
  b.validate
  let ids ← b.resolvedIds
  let starts ← (b.charts.zip ids).mapM fun (chart, id) => chart.start id
  return .load loader.settings b.packages :: .callback (callbackName ids) :: starts.flatten

/-- Finish every chart and close the callback. -/
def finish (b : Batch) : Except Error (List Statement) := do
  requireCharts b.charts
  requireOneClass b.charts
  return b.charts.flatMap Chart.finish ++ [.close]

/-- The whole script. -/
def statements (loader : Loader) (b : Batch) : Except Error (List Statement) := do
  let start ← b.start loader
  let finish ← b.finish
  return start ++ finish

/-- The whole script as text. -/
def script (loader : Loader) (b : Batch) : Except Error String :=
  (b.statements loader).map Statement.script

/-- A batch of one chart, drawn in its own element. -/
def ofChart (chart : Chart) : Batch := ⟨[chart], none⟩

end Batch

end ChartScript
