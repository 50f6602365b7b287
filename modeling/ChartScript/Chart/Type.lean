import ChartScript.Catalog.Comparison
import ChartScript.Catalog.Material

/-!
# Chart types

The charts that the catalog knows: the class of each at run time, the package that has to be loaded
for it, and the schemas of its options. Four types can also be drawn as a comparison of old and new
data, with options of their own.
-/

namespace ChartScript

/-- A type of chart. -/
inductive ChartType where
  | areaChart
  | barChart
  | columnChart
  | comboChart
  | geoChart
  | gauge
  | histogram
  | lineChart
  | pieChart
  | scatterChart
  | table
  | timeline
  | materialBar
  | materialLine
  | materialScatter
deriving DecidableEq, Repr

/-- The namespace of a chart class. -/
inductive ChartLibrary where
  | visualization
  | charts
deriving DecidableEq, Repr

/-- A namespace in a script. -/
def ChartLibrary.word : ChartLibrary → String
  | visualization => "visualization"
  | charts => "charts"

namespace ChartType

/-- All types, in the order of the catalog. -/
def all : List ChartType :=
  [areaChart, barChart, columnChart, comboChart, geoChart, gauge, histogram, lineChart, pieChart,
    scatterChart, table, timeline, materialBar, materialLine, materialScatter]

/-- The name of a type in a description of charts. -/
def word : ChartType → String
  | areaChart => "AreaChart"
  | barChart => "BarChart"
  | columnChart => "ColumnChart"
  | comboChart => "ComboChart"
  | geoChart => "GeoChart"
  | gauge => "Gauge"
  | histogram => "Histogram"
  | lineChart => "LineChart"
  | pieChart => "PieChart"
  | scatterChart => "ScatterChart"
  | table => "Table"
  | timeline => "Timeline"
  | materialBar => "MaterialBar"
  | materialLine => "MaterialLine"
  | materialScatter => "MaterialScatter"

/-- The type of a name. -/
def ofWord? (word : String) : Option ChartType :=
  all.find? (·.word == word)

/-- The namespace of a type's class. -/
def library : ChartType → ChartLibrary
  | materialBar | materialLine | materialScatter => .charts
  | _ => .visualization

/-- The name of a type's class in its namespace. -/
def className : ChartType → String
  | materialBar => "Bar"
  | materialLine => "Line"
  | materialScatter => "Scatter"
  | type => type.word

/-- The package that brings a type's class. -/
def package : ChartType → String
  | geoChart => "geochart"
  | gauge => "gauge"
  | table => "table"
  | timeline => "timeline"
  | materialBar => "bar"
  | materialLine => "line"
  | materialScatter => "scatter"
  | _ => "corechart"

/-- The class of a type as it is written in a script. -/
def path (type : ChartType) : String :=
  "google." ++ type.library.word ++ "." ++ type.className

/-- The schema of a type's options. -/
def schema : ChartType → Schema
  | areaChart => Catalog.areaChart
  | barChart => Catalog.barChart
  | columnChart => Catalog.columnChart
  | comboChart => Catalog.comboChart
  | geoChart => Catalog.geoChart
  | gauge => Catalog.gauge
  | histogram => Catalog.histogram
  | lineChart => Catalog.lineChart
  | pieChart => Catalog.pieChart
  | scatterChart => Catalog.scatterChart
  | table => Catalog.table
  | timeline => Catalog.timeline
  | materialBar => Catalog.materialBar
  | materialLine => Catalog.materialLine
  | materialScatter => Catalog.materialScatter

/-- The schema of the options of a comparison, for the types that can be compared. -/
def comparisonSchema? : ChartType → Option Schema
  | barChart => some Catalog.barDiffChart
  | columnChart => some Catalog.columnDiffChart
  | pieChart => some Catalog.pieDiffChart
  | scatterChart => some Catalog.scatterDiffChart
  | _ => none

/-- Names stand for the types they are the names of. -/
theorem ofWord?_word (t : ChartType) : ofWord? t.word = some t := by
  cases t <;> decide

/-- The options of a comparison are options of the plain chart and more. -/
theorem comparisonSchema_isA {t : ChartType} {s : Schema} (h : t.comparisonSchema? = some s) :
    s.isA t.schema = true := by
  cases t <;> simp only [comparisonSchema?, Option.some.injEq, reduceCtorEq] at h <;> subst h <;>
    decide

end ChartType

end ChartScript
