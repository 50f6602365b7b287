import ChartScript.Calendar.Moment
import ChartScript.Error
import ChartScript.Number.Spelling
import ChartScript.Text.Quoted

/-!
# Script literals

The values that a script spells out: constants, numbers, text, dates and times, arrays, and objects
whose keys are field names or labels. A `Literal` is what is said, `Literal.spell` how it is
written. Option trees and table cells both become literals, so there is one place that decides on
commas and quotes.

Code is the exception: it is written as it was given, and nothing is known about it.
-/

namespace ChartScript

/-- What a member of an object literal is called. -/
inductive Key where
  /-- A field name, written bare. -/
  | field (name : String)
  /-- A number, written in decimal. -/
  | label (number : UInt32)
deriving DecidableEq

/-- A value spelled out in a script. -/
inductive Literal where
  | null
  | bool (value : Bool)
  | number (value : Binary64)
  | text (value : String)
  | date (value : Date)
  | moment (value : Moment)
  | time (value : TimeOfDay)
  /-- Code to be written as it stands. -/
  | code (source : String)
  | array (items : List Literal)
  | object (members : List (Key × Literal))

namespace Key

/-- A key as it is written. -/
def chars : Key → List Char
  | field name => name.toList
  | label number => Nat.toDigits 10 number.toNat

end Key

/-- The arguments of a date, months counted from zero. -/
def Date.arguments (d : Date) : List Int :=
  [d.year, (d.month : Int) - 1, d.day]

/-- The arguments of a moment; whole milliseconds are written where there are any. -/
def Moment.arguments (m : Moment) : List Int :=
  m.date.arguments ++ [(m.time.hour : Int), m.time.minute, m.time.second] ++
    if m.time.millis = 0 then [] else [(m.time.millis : Int)]

/-- Numbers with a comma and a blank between them. -/
def argumentList (numbers : List Int) : String :=
  ", ".intercalate (numbers.map Int.repr)

/-- The call that makes a date of its arguments. -/
def dateCall (arguments : List Int) : String :=
  "new Date(" ++ argumentList arguments ++ ")"

namespace Literal

mutual

/-- A literal as it is written, without blanks except inside dates and times. -/
def chars : Literal → List Char
  | .null => "null".toList
  | .bool value => (if value then "true" else "false").toList
  | .number value => value.text.toList
  | .text value => (Text.scriptQuote value).toList
  | .date value => (dateCall value.arguments).toList
  | .moment value => (dateCall value.arguments).toList
  | .time value =>
    ("[" ++ argumentList [(value.hour : Int), value.minute, value.second] ++ "]").toList
  | .code source => source.toList
  | .array [] => ['[', ']']
  | .array (item :: rest) => '[' :: (chars item ++ (restChars rest ++ [']']))
  | .object [] => ['\x7b', '\x7d']
  | .object ((key, value) :: rest) =>
    '\x7b' :: (key.chars ++ ':' :: (chars value ++ (restMemberChars rest ++ ['\x7d'])))

/-- Further items, each after a comma. -/
def restChars : List Literal → List Char
  | [] => []
  | item :: rest => ',' :: (chars item ++ restChars rest)

/-- Further members, each after a comma. -/
def restMemberChars : List (Key × Literal) → List Char
  | [] => []
  | (key, value) :: rest =>
    ',' :: (key.chars ++ ':' :: (chars value ++ restMemberChars rest))

end

/-- A literal as text. -/
def spell (l : Literal) : String :=
  String.ofList l.chars

/-- A number on its own; those that are not finite have no literal. -/
def ofNumber (field : String) (value : Binary64) : Except Error Literal :=
  if value.isFinite then .ok (.number value)
  else .error (.shapeMismatch field "a finite number" value.text)

end Literal

end ChartScript
