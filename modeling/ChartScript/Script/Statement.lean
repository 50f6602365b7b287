import ChartScript.Chart.Batch
import ChartScript.Loader.Settings
import ChartScript.Options.Writing
import ChartScript.Text.Digest

/-!
# Script statements

A script is a list of statements. It loads the chart library, and the rest is the body of a callback
that the library runs when it is ready: declarations of variables, listeners, and calls that draw.
What a statement says is kept apart from how it is written, so that one can ask which variables a
statement declares and which it reads.

The element id of a chart is written between double quotes as it was given. The settings of the
loader are written between single quotes, which a `Loader` has checked that they bear.
-/

namespace ChartScript

/-- What a variable is declared as. -/
inductive Expression where
  /-- A new chart of a class, in the element of an id. -/
  | chart (path elementId : String)
  | table (source : TableSource)
  /-- The comparison that a chart makes of two tables. -/
  | comparison (chart old new : String)
  | options (literal : Literal)

/-- A statement of a script. -/
inductive Statement where
  /-- Load packages of the chart library. -/
  | load (settings : LoaderSettings) (packages : List String)
  /-- Register a callback and open its body. -/
  | callback (name : String)
  | declare (name : String) (value : Expression)
  | listen (chart : String) (listener : EventListener)
  /-- Draw a chart; where a class is given, it converts the options first. -/
  | draw (chart data options : String) (converter : Option String)
  /-- Close the body of the callback. -/
  | close

/-- An expression as it is written. -/
def Expression.text : Expression → String
  | .chart path elementId =>
    "new " ++ path ++ "(document.getElementById(\"" ++ elementId ++ "\"))"
  | .table source => source.expression
  | .comparison owner old new => owner ++ ".computeDiff(" ++ old ++ ", " ++ new ++ ")"
  | .options literal => literal.spell

/-- A setting between single quotes. -/
def singleQuoted (text : String) : String := "'" ++ text ++ "'"

/-- The packages and the language as the second argument of the loading call. -/
def loadArgument (packages : List String) (language : Option String) : String :=
  "\x7bpackages:[" ++ ",".intercalate (packages.map singleQuoted) ++ "]" ++
    (match language with
      | some language => ", language: " ++ singleQuoted language
      | none => "") ++ "\x7d"

namespace Statement

/-- A statement as it is written. -/
def text : Statement → String
  | load settings packages =>
    "google.charts.load(" ++ singleQuoted settings.version ++ ", " ++
      loadArgument packages settings.language ++ ");"
  | callback name =>
    "google.charts.setOnLoadCallback(" ++ name ++ "); function " ++ name ++ "() \x7b"
  | declare name value => "var " ++ name ++ " = " ++ value.text ++ ";"
  | listen chart listener =>
    "google.visualization.events." ++
      (if listener.once then "addOneTimeListener" else "addListener") ++
      "(" ++ chart ++ ", '" ++ listener.event.word ++ "', " ++ listener.function ++ ");"
  | draw chart data options converter =>
    chart ++ ".draw(" ++ data ++ ", " ++
      (match converter with
        | some path => path ++ ".convertOptions(" ++ options ++ ")"
        | none => options) ++ ");"
  | close => "\x7d"

/-- Statements one after another. -/
def script (statements : List Statement) : String :=
  String.join (statements.map text)

/-- The variable that a statement declares. -/
def declared? : Statement → Option String
  | declare name _ => some name
  | _ => none

/-- The variables that a statement reads, apart from those inside code. -/
def reads : Statement → List String
  | declare _ (.comparison chart old new) => [chart, old, new]
  | listen chart _ => [chart]
  | draw chart data options _ => [chart, data, options]
  | _ => []

end Statement

end ChartScript
