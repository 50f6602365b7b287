import ChartScript.Json.Printer
import ChartScript.Json.Record

/-!
# Columns

The header of a data table. A column has a label and may say what its cells are, what part they play
in the chart, and by which id they are known. A column with a label only is written as text, every
other one as a descriptor.
-/

namespace ChartScript

/-- What the cells of a column are. -/
inductive ColumnType where
  | string
  | number
  | boolean
  | date
  | datetime
  | timeofday
deriving DecidableEq, Repr

/-- What part the cells of a column play. -/
inductive ColumnRole where
  | annotation
  | annotationText
  | certainty
  | domain
  | emphasis
  | interval
  | scope
  | style
  | tooltip
deriving DecidableEq, Repr

/-- A column of a table. -/
structure Column where
  label : String
  type : Option ColumnType
  role : Option ColumnRole
  id : Option String
deriving DecidableEq

namespace ColumnType

/-- The word for a type. -/
def word : ColumnType → String
  | string => "string"
  | number => "number"
  | boolean => "boolean"
  | date => "date"
  | datetime => "datetime"
  | timeofday => "timeofday"

/-- All types. -/
def all : List ColumnType := [string, number, boolean, date, datetime, timeofday]

/-- The type of a word. -/
def ofWord? (word : String) : Option ColumnType :=
  all.find? (·.word == word)

/-- Words stand for the types they are the words of. -/
theorem ofWord?_word (t : ColumnType) : ofWord? t.word = some t := by
  cases t <;> decide

end ColumnType

namespace ColumnRole

/-- The word for a role. -/
def word : ColumnRole → String
  | annotation => "annotation"
  | annotationText => "annotationText"
  | certainty => "certainty"
  | domain => "domain"
  | emphasis => "emphasis"
  | interval => "interval"
  | scope => "scope"
  | style => "style"
  | tooltip => "tooltip"

/-- All roles. -/
def all : List ColumnRole :=
  [ annotation, annotationText, certainty, domain, emphasis, interval, scope, style, tooltip]

/-- The role of a word. -/
def ofWord? (word : String) : Option ColumnRole :=
  all.find? (·.word == word)

/-- Words stand for the roles they are the words of. -/
theorem ofWord?_word (r : ColumnRole) : ofWord? r.word = some r := by
  cases r <;> decide

end ColumnRole

namespace Column

/-- A column with a label only. -/
def ofLabel (label : String) : Column := ⟨label, none, none, none⟩

/-- Whether there is nothing but a label. -/
def isPlain (c : Column) : Bool :=
  c.type.isNone && c.role.isNone && c.id.isNone

/-- A column as a JSON descriptor; what is not said is left out. -/
def descriptor (c : Column) : Json :=
  .object ([("label", .text c.label)] ++
    (c.type.map fun t => ("type", .text t.word)).toList ++
    (c.role.map fun r => ("role", .text r.word)).toList ++
    (c.id.map fun id => ("id", .text id)).toList)

/-- A column in a header: its label alone, or its descriptor. -/
def header (c : Column) : Json :=
  if c.isPlain then .text c.label else c.descriptor

/-- A column from its descriptor. -/
def ofJson? (content : Json.WordContent) (json : Json) : Option Column := do
  match ← json.record? ["label", "type", "role", "id"] with
  | [label, type, role, id] =>
    let label ← (← label).text?
    let type ← Json.nullable? (fun j => (j.word? content).bind ColumnType.ofWord?) type
    let role ← Json.nullable? (fun j => (j.word? content).bind ColumnRole.ofWord?) role
    let id ← Json.nullable? Json.text? id
    return ⟨label, type, role, id⟩
  | _ => none

end Column

end ChartScript
