import ChartScript.Catalog.Comparison
import ChartScript.Catalog.Material

/-!
# The catalog

All schemas of the catalog, by name. No two have the same name, so the name identifies the schema.
-/

namespace ChartScript.Catalog

/-- Every schema of the catalog. -/
def all : List Schema := [
  textStyle, stroke, chartArea, legend, advancedLegend, geoLegend, tooltip, advancedTooltip,
  pieTooltip, animation, advancedAnimation, annotationStem, annotations, bar, slice,
  cssClassNames, timelineBars, gridlines, viewWindow, axis, hAxis, vAxis, series, trendline,
  explorer, crosshairState, crosshair, histogramBuckets, colorAxis, sizeAxis, magnifyingGlass,
  chartOptions, advancedChartOptions, lineChart, areaChart, barChart, columnChart, comboChart,
  scatterChart, histogram, pieChart, geoChart, gauge, table, timeline, barDiffData, barDiff,
  pieDiffInnerCircle, pieDiffOldData, pieDiff, scatterDiffData, scatterDiff, barDiffChart,
  columnDiffChart, pieDiffChart, scatterDiffChart, materialTitle, materialAxis, materialAxes,
  materialChart, materialLine, materialBar, materialScatter]

/-- The schema of a name. -/
def find? (name : String) : Option Schema :=
  all.find? (·.name == name)

/-- Names identify schemas. -/
theorem nodup_names : (all.map (·.name)).Nodup := by
  decide +kernel

/-- A schema of the catalog is identified by its name. -/
theorem identity_of_mem : ∀ s ∈ all, s.identity = .catalog s.name := by
  decide +kernel

end ChartScript.Catalog
