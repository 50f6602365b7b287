import ChartScript.Catalog.Fields

/-!
# Looks

Text, fillings, legends, tooltips, animations and annotations: the nested objects that say how a
part of a chart looks.
-/

namespace ChartScript.Catalog

/-- How text looks. -/
def textStyle : Schema :=
  schema "TextStyle" [
    text "color", text "fontName", number "fontSize", flag "bold", flag "italic",
    text "auraColor", number "opacity"]

/-- An outline and a filling. -/
def stroke : Schema :=
  schema "Stroke" [
    text "stroke", number "strokeWidth", text "fill"]

/-- Where in its element a chart is drawn. -/
def chartArea : Schema :=
  schema "ChartArea" [
    either "backgroundColor" .text stroke, size "left", size "top", size "width", size "height"]

/-- A legend. -/
def legend : Schema :=
  schema "Legend" [
    choice "alignment" ["start", "center", "end"],
    choice "position" ["bottom", "left", "in", "none", "right", "top", "labeled"],
    object "textStyle" textStyle]

/-- A legend that may have several lines or pages. -/
def advancedLegend : Schema :=
  extension legend "AdvancedLegend" [
    number "maxLines", number "pageIndex"]

/-- The legend of a map. -/
def geoLegend : Schema :=
  schema "GeoLegend" [
    text "numberFormat", object "textStyle" textStyle]

/-- What appears when a value is pointed at. -/
def tooltip : Schema :=
  schema "Tooltip" [
    flag "isHtml", flag "showColorCode", object "textStyle" textStyle,
    choice "trigger" ["focus", "none", "selection"]]

/-- A tooltip that may leave the chart. -/
def advancedTooltip : Schema :=
  extension tooltip "AdvancedTooltip" [
    flag "ignoreBounds"]

/-- The tooltip of a slice. -/
def pieTooltip : Schema :=
  extension tooltip "PieTooltip" [
    choice "text" ["both", "value", "percentage"]]

/-- How a change is animated. -/
def animation : Schema :=
  schema "Animation" [
    number "duration", choice "easing" ["linear", "in", "out", "inAndOut"]]

/-- An animation that may run at the first drawing too. -/
def advancedAnimation : Schema :=
  extension animation "AdvancedAnimation" [
    flag "startup"]

/-- The line from an annotation to its value. -/
def annotationStem : Schema :=
  schema "Stem" [
    text "color", number "length"]

/-- Text beside values. -/
def annotations : Schema :=
  schema "Annotations" [
    flag "alwaysOutside", object "boxStyle" stroke, flag "highContrast",
    object "stem" annotationStem, choice "style" ["point", "line"], object "textStyle" textStyle]

/-- The bars of a group. -/
def bar : Schema :=
  schema "Bar" [
    size "groupWidth"]

/-- One slice of a pie. -/
def slice : Schema :=
  schema "Slice" [
    text "color", number "offset", object "textStyle" textStyle]

/-- Style classes of the parts of a table. -/
def cssClassNames : Schema :=
  schema "CssClassNames" [
    text "headerRow", text "tableRow", text "oddTableRow", text "selectedTableRow",
    text "hoverTableRow", text "headerCell", text "tableCell", text "rowNumberCell"]

/-- The rows and bars of a timeline. -/
def timelineBars : Schema :=
  schema "TimelineBars" [
    object "barLabelStyle" textStyle, flag "colorByRowLabel", flag "groupByRowLabel",
    object "rowLabelStyle" textStyle, flag "showBarLabels", flag "showRowLabels",
    text "singleColor"]

end ChartScript.Catalog
