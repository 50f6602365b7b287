import ChartScript.Catalog.Visualization

/-!
# Compared charts

Charts that show old and new data together take the options of the plain chart and one field more,
`diff`, for the two sides.
-/

namespace ChartScript.Catalog

/-- The bars of one side of a comparison. -/
def barDiffData : Schema :=
  schema "BarDiffData" [
    number "widthFactor"]

/-- The two sides of compared bars. -/
def barDiff : Schema :=
  schema "BarDiff" [
    object "newData" barDiffData, object "oldData" barDiffData]

/-- The inner pie of a comparison. -/
def pieDiffInnerCircle : Schema :=
  schema "PieDiffInnerCircle" [
    number "borderFactor", number "radiusFactor"]

/-- The old side of compared pies. -/
def pieDiffOldData : Schema :=
  schema "PieDiffOldData" [
    flag "inCenter", number "opacity"]

/-- The two sides of compared pies. -/
def pieDiff : Schema :=
  schema "PieDiff" [
    object "innerCircle" pieDiffInnerCircle, object "oldData" pieDiffOldData]

/-- The points of one side of a comparison. -/
def scatterDiffData : Schema :=
  schema "ScatterDiffData" [
    number "opacity"]

/-- The two sides of compared points. -/
def scatterDiff : Schema :=
  schema "ScatterDiff" [
    object "newData" scatterDiffData, object "oldData" scatterDiffData]

/-- Compared bar charts. -/
def barDiffChart : Schema :=
  extension barChart "BarDiffChartOptions" [
    object "diff" barDiff]

/-- Compared column charts. -/
def columnDiffChart : Schema :=
  extension columnChart "ColumnDiffChartOptions" [
    object "diff" barDiff]

/-- Compared pie charts. -/
def pieDiffChart : Schema :=
  extension pieChart "PieDiffChartOptions" [
    object "diff" pieDiff]

/-- Compared scatter charts. -/
def scatterDiffChart : Schema :=
  extension scatterChart "ScatterDiffChartOptions" [
    object "diff" scatterDiff]

end ChartScript.Catalog
