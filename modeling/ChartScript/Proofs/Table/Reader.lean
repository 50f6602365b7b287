import ChartScript.Proofs.Script.Sequence
import ChartScript.Table.Basic

/-!
# A reader of table arrays

The grammar of the arrays that tables are written as: first the header, then the rows. A heading is
a label between quotes or the descriptor of a column, and a cell is a literal, a call `new Date(…)`,
a time of day as three numbers between brackets, or an object with a value and the text that is
shown for it. There are no blanks but those between the numbers of dates and times. Every array has
something in it.

Months are read as they are written, counted from zero, and years as they are.
-/

namespace ChartScript

/-- What stands over a column: its label alone, or its descriptor. -/
inductive Heading where
  | label (text : String)
  | descriptor (column : Column)
deriving DecidableEq

/-- The column that is meant by a heading. -/
def Heading.column : Heading → Column
  | label text => .ofLabel text
  | descriptor column => column

/-- What stands over a column. -/
def Column.heading (c : Column) : Heading :=
  if c.isPlain then .label c.label else .descriptor c

namespace TableReader

open LiteralReader

/-- Text between quotes. -/
def string? : List Char → Option (String × List Char)
  | '"' :: chars => do
    match ← text? chars with
    | (.text text, rest) => return (text, rest)
    | _ => none
  | _ => none

/-- A member of a descriptor, which is always text. -/
def member? (chars : List Char) : Option ((String × Json) × List Char) := do
  let (key, rest) ← string? chars
  let (value, rest) ← string? (← after? ':' rest)
  return ((key, .text value), rest)

/-- A heading. -/
def heading? : List Char → Option (Heading × List Char)
  | '\x7b' :: chars => do
    let (members, rest) ← sequence? [','] '\x7d' member? 4 chars
    let column ← Column.ofJson? .null (.object members)
    return (.descriptor column, rest)
  | chars => (string? chars).map fun (label, rest) => (.label label, rest)

/-- The cell that a literal is. -/
def ofLiteral? : Literal → Option Cell
  | .null => some .null
  | .bool value => some (.flag value)
  | .number value => some (.number value)
  | .text value => some (.text value)
  | _ => none

/-- The date or the moment with the arguments of a call; milliseconds that are left out are zero. -/
def ofArguments? : List Int → Option Cell
  | [year, month, day] => (Date.of? year (month + 1).toNat day.toNat).map .date
  | year :: month :: day :: hour :: minute :: second :: millis => do
    let date ← Date.of? year (month + 1).toNat day.toNat
    let time ← TimeOfDay.of? hour.toNat minute.toNat second.toNat
      ((millis.headD 0).toNat * 1000000)
    return .moment ⟨date, time⟩
  | _ => none

/-- The time of day with three numbers. -/
def ofTriple? : List Int → Option Cell
  | [hour, minute, second] =>
    (TimeOfDay.of? hour.toNat minute.toNat second.toNat 0).map .time
  | _ => none

/-- The text that is shown for a value, and the end of the object. -/
def shown? : List Char → Option (String × List Char)
  | ',' :: 'f' :: ':' :: chars => do
    let (shown, rest) ← string? chars
    return (shown, ← after? '\x7d' rest)
  | _ => none

/-- A cell. The bound is on how deep values lie in objects. -/
def cell? : Nat → List Char → Option (Cell × List Char)
  | 0, _ => none
  | bound + 1, '\x7b' :: 'v' :: ':' :: chars => do
    let (value, rest) ← cell? bound chars
    let (shown, rest) ← shown? rest
    return (.formatted value shown, rest)
  | _ + 1, '[' :: chars => do
    let (numbers, rest) ← numbers? ']' 3 chars
    return (← ofTriple? numbers, rest)
  | _ + 1, 'n' :: 'e' :: 'w' :: ' ' :: 'D' :: 'a' :: 't' :: 'e' :: '(' :: chars => do
    let (numbers, rest) ← numbers? ')' 7 chars
    return (← ofArguments? numbers, rest)
  | _ + 1, chars => do
    let (literal, rest) ← literal? 1 chars
    return (← ofLiteral? literal, rest)

/-- An array of things that are read alike. The bound is on how many there are. -/
def array? {α : Type} (item? : List Char → Option (α × List Char)) (bound : Nat) :
    List Char → Option (List α × List Char)
  | '[' :: chars => sequence? [','] ']' item? bound chars
  | _ => none

/-- The header and the rows. -/
def table? (bound : Nat) : List Char → Option ((List Heading × List (List Cell)) × List Char)
  | '[' :: chars => do
    let (header, rest) ← array? heading? bound chars
    let (rows, rest) ← further? [','] ']' (array? (cell? bound) bound) bound rest
    return ((header, rows), rest)
  | _ => none

end TableReader

/-- Read a text that is the array of a table as a whole. -/
def DataTable.read? (text : String) : Option (List Heading × List (List Cell)) :=
  match TableReader.table? (text.toList.length + 1) text.toList with
  | some (table, []) => some table
  | _ => none

end ChartScript
