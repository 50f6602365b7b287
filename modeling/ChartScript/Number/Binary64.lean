import ChartScript.Number.Rounding

/-!
# Binary64 numbers

The numbers of the 64-bit binary floating-point format: a sign and a magnitude, the infinities, and
one NaN. A magnitude is given by its rank, so each number has one representation and equality of
representations tells `0` from `-0`; `sameValue` is the comparison that does not.

Only the arithmetic that reading a JSON number needs is here, and only on magnitudes.
-/

namespace ChartScript

/-- A finite magnitude, by its rank. -/
abbrev Magnitude := Fin BinaryFormat.double.size

namespace Magnitude

/-- The magnitude in units of `2 ^ (-1074)`. -/
def units (m : Magnitude) : Nat :=
  BinaryFormat.double.units m.val

/-- The magnitude of a rank, unless it is too large. -/
def ofRank? (rank : Nat) : Option Magnitude :=
  if h : rank < BinaryFormat.double.size then some ⟨rank, h⟩ else none

/-- The magnitude nearest to a ratio, unless it is too large. -/
def ofRatio? (num den : Nat) : Option Magnitude :=
  ofRank? (BinaryFormat.double.nearest num den)

/-- The rounded product, unless it is too large. -/
def mul? (a b : Magnitude) : Option Magnitude :=
  ofRatio? (a.units * b.units) (Nat.pow 2 (2 * BinaryFormat.double.finest))

/-- The rounded quotient, unless it is too large. -/
def div? (a b : Magnitude) : Option Magnitude :=
  ofRatio? a.units b.units

/-- The magnitude nothing is smaller than. -/
def zero : Magnitude := ⟨0, by decide⟩

end Magnitude

/-- A number of the 64-bit binary format. -/
inductive Binary64 where
  | nan
  | infinite (negative : Bool)
  | finite (negative : Bool) (magnitude : Magnitude)
deriving DecidableEq

namespace Binary64

/-- A signed magnitude, infinite where there is none. -/
def signed (negative : Bool) : Option Magnitude → Binary64
  | some m => .finite negative m
  | none => .infinite negative

/-- The number nearest to an integer. -/
def ofInt (n : Int) : Binary64 :=
  signed (n < 0) (Magnitude.ofRatio? n.natAbs 1)

/-- Neither infinite nor NaN. -/
def isFinite : Binary64 → Bool
  | .finite .. => true
  | _ => false

/-- Numeric comparison: NaN equals nothing, and zero equals its negative. -/
def sameValue : Binary64 → Binary64 → Bool
  | .finite s m, .finite t n => m == n && (s == t || m.val == 0)
  | .infinite s, .infinite t => s == t
  | _, _ => false

/-- Numbers that compare equal are equal, zero and its negative apart. -/
theorem eq_of_sameValue {x y : Binary64} (h : sameValue x y = true) :
    x = y ∨ ∃ s t, x = .finite s .zero ∧ y = .finite t .zero := by
  cases x <;> cases y <;> simp only [sameValue, Bool.false_eq_true, beq_iff_eq] at h
  · exact .inl (by rw [h])
  · rename_i s m t n
    simp only [Bool.and_eq_true, beq_iff_eq, Bool.or_eq_true] at h
    obtain ⟨rfl, h⟩ := h
    rcases h with rfl | h
    · exact .inl rfl
    · exact .inr ⟨s, t, by simp [Magnitude.zero, Fin.ext_iff, h]⟩

end Binary64

end ChartScript
