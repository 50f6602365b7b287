import ChartScript.Number.Spelling

/-!
# JSON numbers

A JSON number is an integer of 64 bits or a binary64 number. Which of the two depends on how it is
written: without point and exponent and within 64 bits it is an integer, else a number, and `-0` is
a number too, since the integers have only one zero.

A number that is not an integer is not read by a single rounding. As many digits as fit in 64 bits
are kept, rounded to binary64, and then multiplied or divided by a rounded power of ten, by several
powers if the exponent is far below zero. What would become infinite is refused. Digits are dropped
from the first that does not fit up to the point, and again from the first that does not fit up to
the end, so a digit after the point may be kept although one before it was not.
-/

namespace ChartScript

/-- A number in JSON. -/
inductive JsonNumber where
  | integer (value : Int)
  | float (negative : Bool) (magnitude : Magnitude)
deriving DecidableEq

/-- A JSON number as it is written. -/
structure NumberLexeme where
  negative : Bool
  /-- The digits before the point. -/
  whole : List Char
  /-- The digits after the point, if there is one. -/
  fraction : Option (List Char)
  /-- The sign and the digits of the exponent, if there is one; the sign is true for minus. -/
  exponent : Option (Bool × List Char)
deriving DecidableEq

namespace JsonNumber

/-- The number as a binary64 number. -/
def toBinary64 : JsonNumber → Binary64
  | integer value => .ofInt value
  | float negative magnitude => .finite negative magnitude

/-- The number as it is written. -/
def spell : JsonNumber → String
  | integer value => value.repr
  | float negative magnitude => (Binary64.finite negative magnitude).spell .json

end JsonNumber

/-- A power of ten, rounded. -/
def powerOfTen? (exponent : Nat) : Option Magnitude :=
  Magnitude.ofRatio? (Nat.pow 10 exponent) 1

/-- Divide by the same divisor a number of times, or until nothing is left. -/
def Magnitude.divRepeat? (divisor : Magnitude) : Nat → Magnitude → Option Magnitude
  | 0, m => some m
  | times + 1, m =>
    if m = .zero then some m else (m.div? divisor).bind (divRepeat? divisor times)

/-- Divide by a power of ten: by its 308th power as often as that leaves an exponent of at least
one, then by the rest. -/
def Magnitude.divPower? (m : Magnitude) (exponent : Nat) : Option Magnitude := do
  let step ← powerOfTen? 308
  let times := (exponent - 1) / 308
  let quotient ← Magnitude.divRepeat? step times m
  quotient.div? (← powerOfTen? (exponent - 308 * times))

/-- Scale by a power of ten; none if the product is too large. -/
def Magnitude.scale? (m : Magnitude) (exponent : Int) : Option Magnitude :=
  if exponent < 0 then m.divPower? exponent.natAbs
  else if exponent ≤ 308 then do m.mul? (← powerOfTen? exponent.toNat)
  else if m = .zero then some m
  else none

namespace NumberLexeme

/-- Append digits to a value as long as it stays below `2 ^ 64`: the value, and the digits that were
dropped. -/
def significand : Nat → List Char → Nat × List Char
  | value, [] => (value, [])
  | value, c :: rest =>
    let next := 10 * value + (c.toNat - '0'.toNat)
    if next < UInt64.size then significand next rest else (value, c :: rest)

/-- The exponent as a number. -/
def power (l : NumberLexeme) : Int :=
  match l.exponent with
  | none => 0
  | some (negative, digits) =>
    let value : Int := (Nat.ofDigitChars 10 digits 0 : Nat)
    if negative then -value else value

/-- The magnitude: the kept digits, scaled. A digit dropped before the point counts as a power of
ten, a digit kept after it takes one away. -/
def magnitude? (l : NumberLexeme) : Option Magnitude :=
  let fraction := l.fraction.getD []
  let (leading, droppedWhole) := significand 0 l.whole
  let (value, droppedFraction) := significand leading fraction
  let shift : Int := (droppedWhole.length + droppedFraction.length : Nat) - (fraction.length : Int)
  (Magnitude.ofRatio? value 1).bind fun m => m.scale? (l.power + shift)

/-- The number that is written; none if it is out of range. -/
def value? (l : NumberLexeme) : Option JsonNumber :=
  let integer := Nat.ofDigitChars 10 l.whole 0
  if l.fraction.isNone && l.exponent.isNone && !l.negative && integer < UInt64.size then
    some (.integer integer)
  else if l.fraction.isNone && l.exponent.isNone && l.negative && 0 < integer &&
      integer ≤ UInt64.size / 2 then
    some (.integer (-(integer : Int)))
  else l.magnitude?.map (.float l.negative)

/-- The unsigned 32-bit number that is written, without sign, point or exponent. -/
def unsigned32? (l : NumberLexeme) : Option Nat :=
  let integer := Nat.ofDigitChars 10 l.whole 0
  if l.fraction.isNone && l.exponent.isNone && !l.negative && integer < UInt32.size then
    some integer
  else none

end NumberLexeme

end ChartScript
