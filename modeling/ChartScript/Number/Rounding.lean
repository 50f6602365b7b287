/-!
# Rounding to a binary format

The non-negative finite values of a binary floating-point format, numbered from zero in ascending
order, and the nearest of them to a ratio of natural numbers. The number of a value is its `rank`;
all values are whole multiples of the format's finest unit, so both directions are arithmetic on
natural numbers and no step is approximate.

Ties go to the value with the even significand. Infinities, signs and NaN are not here.
-/

namespace ChartScript

/-- A binary floating-point format. -/
structure BinaryFormat where
  /-- Bits of a significand. -/
  precision : Nat
  /-- The finest unit is `2 ^ (-finest)`. -/
  finest : Nat
  /-- How many non-negative finite values there are. -/
  size : Nat

namespace BinaryFormat

/-- The 64-bit format. -/
def double : BinaryFormat := ⟨53, 1074, 0x7ff0000000000000⟩

/-- The 32-bit format. -/
def single : BinaryFormat := ⟨24, 149, 0x7f800000⟩

/-- The value of a rank, in finest units. -/
def units (f : BinaryFormat) (rank : Nat) : Nat :=
  let half := Nat.pow 2 (f.precision - 1)
  if rank < half then rank else (half + rank % half) * Nat.pow 2 (rank / half - 1)

end BinaryFormat

/-- The whole number nearest to a ratio; of two equally near the even one. -/
def roundHalfEven (num den : Nat) : Nat :=
  let quotient := num / den
  let twice := 2 * (num % den)
  if den < twice || (twice == den && quotient % 2 == 1) then quotient + 1 else quotient

namespace BinaryFormat

/-- The rank of the value nearest to a ratio; beyond the last value it goes on as if there were
more, so a rank of at least `size` says that the ratio is too large. -/
def nearest (f : BinaryFormat) (num den : Nat) : Nat :=
  let scaled := num * Nat.pow 2 f.finest
  let shift := (scaled / den).log2 - (f.precision - 1)
  shift * Nat.pow 2 (f.precision - 1) + roundHalfEven scaled (den * Nat.pow 2 shift)

/-- The rank of the value nearest to `digits * 10 ^ exponent`. Exponents that put the decimal far
outside the format are settled without forming the power. -/
def nearestDecimal (f : BinaryFormat) (digits : Nat) (exponent : Int) : Nat :=
  let magnitude := (Nat.toDigits 10 digits).length + exponent
  if digits = 0 then 0
  else if 400 < magnitude then f.size
  else if magnitude < -400 then 0
  else if 0 ≤ exponent then f.nearest (digits * Nat.pow 10 exponent.toNat) 1
  else f.nearest digits (Nat.pow 10 (-exponent).toNat)

end BinaryFormat

/-- A whole number rounds to itself. -/
theorem roundHalfEven_mul (n den : Nat) (h : 0 < den) : roundHalfEven (n * den) den = n := by
  simp [roundHalfEven, Nat.mul_div_cancel n h]
  omega

/-- Rounding moves by less than one. -/
theorem le_roundHalfEven (num den : Nat) :
    num / den ≤ roundHalfEven num den ∧ roundHalfEven num den ≤ num / den + 1 := by
  simp only [roundHalfEven]
  split <;> omega

end ChartScript
