import ChartScript.Chart.Basic

/-!
# Batches

Charts that one callback draws. They must be of one class. Element ids may be bound to a batch, one
for each chart; bound ids take the place of the charts' own, whatever those are.
-/

namespace ChartScript

/-- Charts drawn together. -/
structure Batch where
  charts : List Chart
  /-- The element ids that were bound, if any were. -/
  elementIds : Option (List String)

/-- Refuse an empty list of charts. -/
def requireCharts (charts : List Chart) : Except Error Unit :=
  if charts.isEmpty then .error .emptyBatch else .ok ()

/-- Refuse charts whose class is not that of the first. -/
def requireOneClass (charts : List Chart) : Except Error Unit :=
  match charts with
  | [] => .ok ()
  | first :: _ =>
    match (charts.map Chart.chartClass).find? (· != first.chartClass) with
    | some other => .error (.typesDiffer first.chartClass.describe other.describe)
    | none => .ok ()

/-- Refuse more or fewer ids than charts. -/
def requireIdCount (charts : List Chart) (ids : List String) : Except Error Unit :=
  if charts.length = ids.length then .ok () else .error (.elementIdCount charts.length ids.length)

namespace Batch

/-- The checks on a batch that need no element ids of its charts. -/
def validate (b : Batch) : Except Error Unit := do
  requireCharts b.charts
  requireOneClass b.charts
  match b.elementIds with
  | some ids => requireIdCount b.charts ids
  | none => return ()

/-- The element id of every chart. -/
def resolvedIds (b : Batch) : Except Error (List String) :=
  match b.elementIds with
  | some ids => do
    requireIdCount b.charts ids
    (b.charts.zip ids).mapM fun (chart, id) => chart.requireElementId (some id)
  | none => b.charts.mapM fun chart => chart.requireElementId chart.elementId

end Batch

end ChartScript
