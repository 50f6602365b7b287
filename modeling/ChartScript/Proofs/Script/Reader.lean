import ChartScript.Json.Token
import ChartScript.Options.Label
import ChartScript.Proofs.Number.Spelling
import ChartScript.Script.Literal
import ChartScript.Text.Identifier

/-!
# A reader of script literals

The grammar of the literals that option trees are written in: `null`, `true`, `false`, decimal
numbers, text between double quotes, calls `new Date(…)` with six or seven arguments, arrays, and
objects whose keys are bare names or numbers. Blanks stand only inside dates. Each reader takes
characters off the front and answers with what it read and what is left; the whole text has to be
one literal.

Code, and the dates and times of day that only tables hold, are not in the grammar. The first
argument of the readers that call each other bounds how deep and how far they go.
-/

namespace ChartScript.LiteralReader

/-- The digits after a point, if one comes next. -/
def fraction : List Char → List Char × List Char
  | '.' :: rest => (rest.takeWhile Char.isDigit, rest.dropWhile Char.isDigit)
  | rest => ([], rest)

/-- A decimal number after its sign. -/
def number? (negative : Bool) (chars : List Char) : Option (Literal × List Char) :=
  let whole := chars.takeWhile Char.isDigit
  let (fraction, rest) := fraction (chars.dropWhile Char.isDigit)
  if whole.isEmpty then none
  else (Magnitude.ofDecimalDigits? whole fraction).map fun m => (.number (.finite negative m), rest)

/-- Text after its opening quote. -/
def text? (chars : List Char) : Option (Literal × List Char) := do
  let (pieces, rest) ← JsonToken.scanString chars
  let text ← JsonToken.piecesText? pieces
  return (.text (String.ofList text), rest)

/-- A whole number. -/
def integer? : List Char → Option (Int × List Char)
  | '-' :: chars =>
    some (-(Nat.ofDigitChars 10 (chars.takeWhile Char.isDigit) 0 : Nat),
      chars.dropWhile Char.isDigit)
  | chars =>
    some ((Nat.ofDigitChars 10 (chars.takeWhile Char.isDigit) 0 : Nat),
      chars.dropWhile Char.isDigit)

/-- A further argument of a call. -/
def argument? : List Char → Option (Int × List Char)
  | ',' :: ' ' :: chars => integer? chars
  | _ => none

/-- The last argument of a date, which is left out when it is zero, and the end of the call. -/
def millis? : List Char → Option (Int × List Char)
  | ')' :: rest => some (0, rest)
  | chars => do
    match ← argument? chars with
    | (millis, ')' :: rest) => return (millis, rest)
    | _ => none

/-- A date after the opening of its call. -/
def moment? (chars : List Char) : Option (Literal × List Char) := do
  let (year, chars) ← integer? chars
  let (month, chars) ← argument? chars
  let (day, chars) ← argument? chars
  let (hour, chars) ← argument? chars
  let (minute, chars) ← argument? chars
  let (second, chars) ← argument? chars
  let (millis, rest) ← millis? chars
  let date ← Date.of? year (month + 1).toNat day.toNat
  let time ← TimeOfDay.of? hour.toNat minute.toNat second.toNat (millis.toNat * 1000000)
  return (.moment ⟨date, time⟩, rest)

/-- The key of a member: a number, or a name. -/
def key? : List Char → Option (Key × List Char)
  | [] => none
  | c :: chars =>
    if c.isDigit then
      (Label.ofDigits? ((c :: chars).takeWhile Char.isDigit)).map fun label =>
        (.label label, (c :: chars).dropWhile Char.isDigit)
    else if Text.identifierHead c then
      some (.field (String.ofList ((c :: chars).takeWhile Text.identifierTail)),
        (c :: chars).dropWhile Text.identifierTail)
    else none

/-- What stands before an entry: nothing before the first, a comma before the others. -/
def separated? (first : Bool) (chars : List Char) : Option (List Char) :=
  if first then some chars
  else
    match chars with
    | ',' :: rest => some rest
    | _ => none

/-- What follows a key and its colon. -/
def colon? : List Char → Option (List Char)
  | ':' :: rest => some rest
  | _ => none

/-- A literal that begins with a letter or a digit: a word, a date or a number. -/
def word? : List Char → Option (Literal × List Char)
  | 'n' :: 'u' :: 'l' :: 'l' :: rest => some (.null, rest)
  | 't' :: 'r' :: 'u' :: 'e' :: rest => some (.bool true, rest)
  | 'f' :: 'a' :: 'l' :: 's' :: 'e' :: rest => some (.bool false, rest)
  | 'n' :: 'e' :: 'w' :: ' ' :: 'D' :: 'a' :: 't' :: 'e' :: '(' :: rest => moment? rest
  | rest => number? false rest

mutual

/-- A literal. -/
def literal? (bound : Nat) (chars : List Char) : Option (Literal × List Char) :=
  match bound with
  | 0 => none
  | bound + 1 =>
    match chars with
    | '"' :: rest => text? rest
    | '[' :: rest => (items? true bound rest).map fun (items, rest) => (.array items, rest)
    | '\x7b' :: rest =>
      (members? true bound rest).map fun (members, rest) => (.object members, rest)
    | '-' :: rest => number? true rest
    | chars => word? chars

/-- The items of an array and its end; those after the first each follow a comma. -/
def items? (first : Bool) (bound : Nat) (chars : List Char) : Option (List Literal × List Char) :=
  match bound with
  | 0 => none
  | bound + 1 =>
    match chars with
    | ']' :: rest => some ([], rest)
    | chars => do
      let chars ← separated? first chars
      let (item, rest) ← literal? bound chars
      let (items, rest) ← items? false bound rest
      return (item :: items, rest)

/-- The members of an object and its end; those after the first each follow a comma. -/
def members? (first : Bool) (bound : Nat) (chars : List Char) :
    Option (List (Key × Literal) × List Char) :=
  match bound with
  | 0 => none
  | bound + 1 =>
    match chars with
    | '\x7d' :: rest => some ([], rest)
    | chars => do
      let chars ← separated? first chars
      let (key, chars) ← key? chars
      let (value, rest) ← literal? bound (← colon? chars)
      let (members, rest) ← members? false bound rest
      return ((key, value) :: members, rest)

end

end ChartScript.LiteralReader

namespace ChartScript

/-- Read a text that is a literal as a whole. -/
def Literal.read? (text : String) : Option Literal :=
  match LiteralReader.literal? (text.toList.length + 1) text.toList with
  | some (literal, []) => some literal
  | _ => none

end ChartScript
