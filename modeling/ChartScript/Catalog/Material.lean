import ChartScript.Catalog.Axes

/-!
# Material charts

The options of the charts of the `charts` namespace, a smaller set that the runtime converts before
drawing.
-/

namespace ChartScript.Catalog

/-- A title with a subtitle. -/
def materialTitle : Schema :=
  schema "MaterialTitle" [
    text "title", text "subtitle"]

/-- A labelled axis on one side of the chart. -/
def materialAxis : Schema :=
  schema "MaterialAxis" [
    text "label", choice "side" ["top", "bottom", "left", "right"]]

/-- Labelled axes in both directions. -/
def materialAxes : Schema :=
  schema "MaterialAxes" [
    indexed "x" materialAxis, indexed "y" materialAxis]

/-- What all Material charts have. -/
def materialChart : Schema :=
  schema "MaterialChartOptions" [
    object "axes" materialAxes, text "backgroundColor", object "chart" materialTitle,
    list "colors" .text, flag "enableInteractivity", text "fontName", number "fontSize",
    object "hAxis" hAxis, size "height", either "legend" (.oneOf ["none"]) legend,
    indexed "series" series, text "title", object "vAxis" vAxis, size "width"]

/-- Material line charts. -/
def materialLine : Schema :=
  extension materialChart "MaterialLineOptions" [
    number "lineWidth"]

/-- Material bar charts. -/
def materialBar : Schema :=
  extension materialChart "MaterialBarOptions" [
    object "bar" bar, choice "bars" orientations, isStacked]

/-- Material scatter charts. -/
def materialScatter : Schema :=
  extension materialChart "MaterialScatterOptions" [
    number "pointSize"]

end ChartScript.Catalog
