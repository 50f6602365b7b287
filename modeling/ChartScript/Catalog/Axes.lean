import ChartScript.Catalog.Styles

/-!
# Axes and series

The nested objects that say what is measured and how it is laid out.
-/

namespace ChartScript.Catalog

/-- Lines across the chart area. -/
def gridlines : Schema :=
  schema "Gridlines" [
    text "color", number "count", number "minSpacing", number "multiple"]

/-- The part of an axis that is shown. -/
def viewWindow : Schema :=
  schema "ViewWindow" [
    bound "max", bound "min"]

/-- What all axes have. -/
def axis : Schema :=
  schema "Axis" [
    text "baselineColor", number "direction", text "format", object "gridlines" gridlines,
    flag "logScale", bound "maxValue", object "minorGridlines" gridlines, bound "minValue",
    choice "scaleType" ["log", "mirrorLog"], choice "textPosition" ["out", "in", "none"],
    object "textStyle" textStyle, list "ticks" .numberOrDate, text "title",
    object "titleTextStyle" textStyle, object "viewWindow" viewWindow,
    choice "viewWindowMode" ["pretty", "maximized", "explicit"]]

/-- A horizontal axis. -/
def hAxis : Schema :=
  extension axis "HAxis" [
    flag "allowContainerBoundaryTextCutoff", number "maxAlternation", number "maxTextLines",
    number "minTextSpacing", number "showTextEvery", flag "slantedText", number "slantedTextAngle"]

/-- A vertical axis. -/
def vAxis : Schema :=
  extension axis "VAxis" []

/-- How one series is drawn. -/
def series : Schema :=
  schema "Series" [
    object "annotations" annotations, number "areaOpacity", text "color",
    choice "curveType" curveTypes, text "labelInLegend", list "lineDashStyle" .number,
    number "lineWidth", choice "pointShape" pointShapes, number "pointSize", flag "pointsVisible",
    number "targetAxisIndex",
    choice "type" ["line", "area", "bars", "candlesticks", "steppedArea"], flag "visibleInLegend"]

/-- A trend line of a series. -/
def trendline : Schema :=
  schema "Trendline" [
    text "color", number "degree", text "labelInLegend", number "lineWidth", number "opacity",
    number "pointSize", flag "pointsVisible", flag "showR2",
    choice "type" ["linear", "exponential", "polynomial"], flag "visibleInLegend"]

/-- Panning and zooming. -/
def explorer : Schema :=
  schema "Explorer" [
    list "actions" (.oneOf ["dragToPan", "dragToZoom", "rightClickToReset"]),
    choice "axis" orientations, flag "keepInBounds", number "maxZoomIn", number "maxZoomOut",
    number "zoomDelta"]

/-- A crosshair in one state. -/
def crosshairState : Schema :=
  schema "CrosshairState" [
    text "color", number "opacity"]

/-- A crosshair and its states. -/
def crosshair : Schema :=
  extension crosshairState "Crosshair" [
    object "focused" crosshairState, choice "orientation" ["vertical", "horizontal", "both"],
    object "selected" crosshairState, choice "trigger" ["focus", "selection", "both"]]

/-- How a histogram groups values. -/
def histogramBuckets : Schema :=
  schema "HistogramBuckets" [
    number "bucketSize", flag "hideBucketItems", number "lastBucketPercentile", number "maxValue",
    number "minValue", choice "numBucketsRule" ["sqrt", "sturges", "rice"]]

/-- How values become colours. -/
def colorAxis : Schema :=
  schema "ColorAxis" [
    list "colors" .text, number "maxValue", number "minValue", list "values" .number]

/-- How values become sizes. -/
def sizeAxis : Schema :=
  schema "SizeAxis" [
    number "maxSize", number "maxValue", number "minSize", number "minValue"]

/-- The lens over crowded markers. -/
def magnifyingGlass : Schema :=
  schema "MagnifyingGlass" [
    flag "enable", number "zoomFactor"]

end ChartScript.Catalog
