import ChartScript.Number.Binary64

/-!
# Reading numbers

Decimal text with an optional sign, point and exponent, rounded once to the nearest number, and the
words for NaN and infinity in any case. At least one digit is needed; the point may come first or
last; blanks are refused.

JSON numbers are read by other rules, which round more than once; they are not here.
-/

namespace ChartScript

/-- What decimal text says before it is rounded. -/
inductive NumberText where
  | nan
  | infinite (negative : Bool)
  | decimal (negative : Bool) (digits : Nat) (exponent : Int)

namespace NumberText

/-- An exponent after its letter: an optional sign and at least one digit, up to the end. -/
def readExponent (chars : List Char) : Option Int :=
  let (negative, digits) := match chars with
    | '-' :: rest => (true, rest)
    | '+' :: rest => (false, rest)
    | rest => (false, rest)
  if digits.isEmpty || !digits.all Char.isDigit then none
  else
    let value : Int := (Nat.ofDigitChars 10 digits 0 : Nat)
    some (if negative then -value else value)

/-- Digits with at most one point, then perhaps an exponent. -/
def readDecimal (negative : Bool) (chars : List Char) : Option NumberText :=
  let whole := chars.takeWhile Char.isDigit
  let (fraction, rest) := match chars.dropWhile Char.isDigit with
    | '.' :: rest => (rest.takeWhile Char.isDigit, rest.dropWhile Char.isDigit)
    | rest => ([], rest)
  let digits := whole ++ fraction
  if digits.isEmpty then none
  else
    let value (exponent : Int) : NumberText :=
      .decimal negative (Nat.ofDigitChars 10 digits 0) (exponent - fraction.length)
    match rest with
    | [] => some (value 0)
    | 'e' :: exponent | 'E' :: exponent => (readExponent exponent).map value
    | _ => none

/-- A number without its sign. -/
def readUnsigned (negative : Bool) (chars : List Char) : Option NumberText :=
  let word := String.ofList (chars.map Char.toLower)
  if word = "nan" then some .nan
  else if word = "inf" || word = "infinity" then some (.infinite negative)
  else readDecimal negative chars

/-- Read a whole text. -/
def read (text : String) : Option NumberText :=
  match text.toList with
  | '-' :: rest => readUnsigned true rest
  | '+' :: rest => readUnsigned false rest
  | chars => readUnsigned false chars

/-- The nearest number of the 64-bit format. -/
def toBinary64 : NumberText → Binary64
  | .nan => .nan
  | .infinite negative => .infinite negative
  | .decimal negative digits exponent =>
    .signed negative (Magnitude.ofRank? (BinaryFormat.double.nearestDecimal digits exponent))

/-- The nearest number of the 32-bit format, as the 64-bit number with the same value. -/
def toSingle : NumberText → Binary64
  | .nan => .nan
  | .infinite negative => .infinite negative
  | .decimal negative digits exponent =>
    let rank := BinaryFormat.single.nearestDecimal digits exponent
    if rank < BinaryFormat.single.size then
      .signed negative
        (Magnitude.ofRatio? (BinaryFormat.single.units rank) (Nat.pow 2 BinaryFormat.single.finest))
    else .infinite negative

end NumberText

end ChartScript
