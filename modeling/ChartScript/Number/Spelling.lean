import ChartScript.Number.Binary64
import ChartScript.Number.Shortest

/-!
# Spelling numbers

Numbers as text. Scripts and JSON agree on the digits up to ties and differ in the layout: a script
never uses an exponent, JSON does outside a range and marks whole numbers with `.0`. The two
conventions are the records `NumberStyle.script` and `NumberStyle.json`.
-/

namespace ChartScript

/-- The conventions of a format for numbers. -/
structure NumberStyle where
  /-- Which decimal exponents of the first digit are written in place, without an exponent. -/
  inPlace : Int → Bool
  /-- What follows a whole number written in place. -/
  wholeMark : List Char
  /-- Which of two equally near shortest decimals is written. -/
  tie : Tie

namespace NumberStyle

/-- In scripts all digits stand in place, and a tie goes up. -/
def script : NumberStyle := ⟨fun _ => true, [], .up⟩

/-- In JSON exponents from -5 to 15 are written in place, whole numbers end in `.0`, and a tie goes
to the even digit. -/
def json : NumberStyle := ⟨fun e => -5 ≤ e && e ≤ 15, ['.', '0'], .even⟩

end NumberStyle

/-- Digits without leading or trailing zeros, and where the point stands: the value is
`0.digits * 10 ^ point`. -/
structure PointedDigits where
  digits : List Char
  point : Int

namespace PointedDigits

/-- The digits of a decimal. -/
def ofDecimal (d : Decimal) : PointedDigits :=
  let all := Nat.toDigits 10 d.digits
  ⟨(all.reverse.dropWhile (· == '0')).reverse, all.length + d.exponent⟩

/-- All digits in place. -/
def inPlace (p : PointedDigits) (wholeMark : List Char) : List Char :=
  if p.point ≤ 0 then '0' :: '.' :: (List.replicate (-p.point).toNat '0' ++ p.digits)
  else if p.digits.length ≤ p.point.toNat then
    p.digits ++ List.replicate (p.point.toNat - p.digits.length) '0' ++ wholeMark
  else p.digits.take p.point.toNat ++ '.' :: p.digits.drop p.point.toNat

/-- One digit before the point and an exponent. -/
def scientific (p : PointedDigits) : List Char :=
  let exponent := p.point - 1
  let sign := if exponent < 0 then '-' else '+'
  let power := 'e' :: sign :: Nat.toDigits 10 exponent.natAbs
  match p.digits with
  | [] => '0' :: power
  | [d] => d :: power
  | d :: rest => d :: '.' :: rest ++ power

end PointedDigits

/-- A magnitude as text. -/
def Magnitude.spell (style : NumberStyle) (m : Magnitude) : List Char :=
  if m.val = 0 then '0' :: style.wholeMark
  else
    let p := PointedDigits.ofDecimal (BinaryFormat.double.shortest style.tie m.val)
    if style.inPlace (p.point - 1) then p.inPlace style.wholeMark else p.scientific

/-- A number as text. -/
def Binary64.spell (style : NumberStyle) : Binary64 → String
  | .nan => "NaN"
  | .infinite negative => if negative then "-inf" else "inf"
  | .finite negative m =>
    String.ofList (if negative then '-' :: m.spell style else m.spell style)

/-- The decimal form of a number in a script or a message. -/
def Binary64.text (x : Binary64) : String :=
  x.spell .script

end ChartScript
