import ChartScript.Catalog.Axes

/-!
# Charts of the visualization library

The options of each chart of the `visualization` namespace. Charts with axes share a base, pie
charts share a smaller one, and maps, gauges, tables and timelines stand alone.
-/

namespace ChartScript.Catalog

/-- What all charts of the core package have, pie charts included. -/
def chartOptions : Schema :=
  schema "ChartOptions" [
    either "backgroundColor" .text stroke, object "chartArea" chartArea, list "colors" .text,
    flag "enableInteractivity", text "fontName", number "fontSize", flag "forceIFrame",
    size "height", either "legend" (.oneOf ["none"]) legend, text "title",
    choice "titlePosition" ["in", "out", "none"], object "titleTextStyle" textStyle,
    object "tooltip" tooltip, size "width"]

/-- What all charts with axes have. -/
def advancedChartOptions : Schema :=
  extension chartOptions "AdvancedChartOptions" [
    either "legend" (.oneOf ["none"]) advancedLegend, object "tooltip" advancedTooltip,
    choice "aggregationTarget" ["category", "series", "auto", "none"],
    object "animation" advancedAnimation, object "annotations" annotations,
    choice "axisTitlesPosition" ["in", "out", "none"], number "dataOpacity",
    object "explorer" explorer, choice "focusTarget" ["datum", "category"], object "hAxis" hAxis,
    choice "orientation" orientations, flag "reverseCategories",
    choice "selectionMode" ["single", "multiple"], indexed "series" series,
    choice "theme" ["maximized"], indexed "trendlines" trendline, indexed "vAxes" vAxis,
    object "vAxis" vAxis]

/-- Line charts. -/
def lineChart : Schema :=
  extension advancedChartOptions "LineChartOptions" [
    object "crosshair" crosshair, choice "curveType" curveTypes, flag "interpolateNulls",
    list "lineDashStyle" .number, number "lineWidth", choice "pointShape" pointShapes,
    number "pointSize", flag "pointsVisible"]

/-- Area charts. -/
def areaChart : Schema :=
  extension advancedChartOptions "AreaChartOptions" [
    number "areaOpacity", object "crosshair" crosshair, flag "interpolateNulls", isStacked,
    list "lineDashStyle" .number, number "lineWidth", choice "pointShape" pointShapes,
    number "pointSize", flag "pointsVisible"]

/-- Bar charts. -/
def barChart : Schema :=
  extension advancedChartOptions "BarChartOptions" [
    object "bar" bar, choice "bars" ["horizontal", "vertical"], indexed "hAxes" hAxis, isStacked]

/-- Column charts, which are bar charts turned. -/
def columnChart : Schema :=
  extension barChart "ColumnChartOptions" []

/-- Charts that mix series of several types. -/
def comboChart : Schema :=
  extension advancedChartOptions "ComboChartOptions" [
    number "areaOpacity", object "bar" bar, object "crosshair" crosshair,
    choice "curveType" curveTypes, flag "interpolateNulls", isStacked,
    list "lineDashStyle" .number, number "lineWidth", choice "pointShape" pointShapes,
    number "pointSize", flag "pointsVisible",
    choice "seriesType" ["line", "area", "bars", "candlesticks", "steppedArea"]]

/-- Scatter charts. -/
def scatterChart : Schema :=
  extension advancedChartOptions "ScatterChartOptions" [
    object "crosshair" crosshair, choice "curveType" curveTypes, number "lineWidth",
    choice "pointShape" pointShapes, number "pointSize", flag "pointsVisible"]

/-- Histograms. -/
def histogram : Schema :=
  extension advancedChartOptions "HistogramOptions" [
    object "bar" bar, object "histogram" histogramBuckets, flag "interpolateNulls", isStacked]

/-- Pie charts. -/
def pieChart : Schema :=
  extension chartOptions "PieChartOptions" [
    object "tooltip" pieTooltip, flag "is3D", number "pieHole", text "pieResidueSliceColor",
    text "pieResidueSliceLabel", text "pieSliceBorderColor",
    choice "pieSliceText" ["percentage", "value", "label", "none"],
    object "pieSliceTextStyle" textStyle, number "pieStartAngle", flag "reverseCategories",
    indexed "slices" slice, number "sliceVisibilityThreshold"]

/-- Maps. -/
def geoChart : Schema :=
  schema "GeoChartOptions" [
    either "backgroundColor" .text stroke, object "colorAxis" colorAxis,
    text "datalessRegionColor", text "defaultColor",
    choice "displayMode" ["auto", "regions", "markers", "text"], text "domain",
    flag "enableRegionInteractivity", size "height", flag "keepAspectRatio",
    either "legend" (.oneOf ["none"]) geoLegend, object "magnifyingGlass" magnifyingGlass,
    number "markerOpacity", text "region",
    choice "resolution" ["countries", "provinces", "metros"], object "sizeAxis" sizeAxis,
    object "tooltip" tooltip, size "width"]

/-- Gauges. -/
def gauge : Schema :=
  schema "GaugeOptions" [
    object "animation" animation, flag "forceIFrame", text "greenColor", number "greenFrom",
    number "greenTo", size "height", list "majorTicks" .text, number "max", number "min",
    number "minorTicks", text "redColor", number "redFrom", number "redTo", size "width",
    text "yellowColor", number "yellowFrom", number "yellowTo"]

/-- Tables. -/
def table : Schema :=
  schema "TableOptions" [
    flag "allowHtml", flag "alternatingRowStyle", object "cssClassNames" cssClassNames,
    number "firstRowNumber", number "frozenColumns", size "height", choice "page" pagingModes,
    number "pageSize", size "pagingButtons", flag "rtlTable", number "scrollLeftStartPosition",
    flag "showRowNumber", choice "sort" pagingModes, flag "sortAscending", number "sortColumn",
    number "startPage", size "width"]

/-- Timelines. -/
def timeline : Schema :=
  schema "TimelineOptions" [
    flag "avoidOverlappingGridLines", text "backgroundColor", list "colors" .text,
    flag "enableInteractivity", text "fontName", number "fontSize", flag "forceIFrame",
    size "height", object "timeline" timelineBars, object "tooltip" tooltip, size "width"]

end ChartScript.Catalog
