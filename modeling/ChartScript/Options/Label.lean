/-!
# Labels in text

Entries of a labelled collection are numbered with unsigned 32-bit numbers. In paths and JSON keys a
label is decimal text: digits, perhaps after a plus sign, perhaps with leading zeros. Several texts
may therefore denote one label.
-/

namespace ChartScript.Label

/-- Decimal digits within 32 bits. -/
def ofDigits? (digits : List Char) : Option UInt32 :=
  if digits.isEmpty || !digits.all Char.isDigit then none
  else
    let value := Nat.ofDigitChars 10 digits 0
    if value < UInt32.size then some (UInt32.ofNat value) else none

/-- The label that a text denotes. -/
def ofText? (text : String) : Option UInt32 :=
  match text.toList with
  | '+' :: digits => ofDigits? digits
  | digits => ofDigits? digits

/-- The label of a position in a list, if there is one. -/
def ofPosition? (position : Nat) : Option UInt32 :=
  if position < UInt32.size then some (UInt32.ofNat position) else none

/-- A label says its position. -/
theorem toNat_of_ofPosition? {position : Nat} {label : UInt32}
    (h : ofPosition? position = some label) : label.toNat = position := by
  unfold ofPosition? at h
  split at h
  · rename_i hlt
    simp only [Option.some.injEq] at h
    subst h
    exact UInt32.toNat_ofNat_of_lt' hlt
  · simp at h

end ChartScript.Label
