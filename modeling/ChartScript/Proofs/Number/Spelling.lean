import ChartScript.Number.Spelling
import ChartScript.Proofs.Number.Rounding

/-!
# Reading spelled numbers

The text of a finite number in a script is a sign, digits, and perhaps a point with more digits.
What these digits say as a decimal rounds to the number, so the text determines the number, down to
the sign of zero.
-/

namespace ChartScript

/-- What decimal digits before and after a point say: their number over a power of ten, rounded. -/
def Magnitude.ofDecimalDigits? (whole fraction : List Char) : Option Magnitude :=
  Magnitude.ofRatio? (Nat.ofDigitChars 10 (whole ++ fraction) 0) (10 ^ fraction.length)

/-- Text in which digits stand before and after a point; without digits after it the point may be
missing. -/
structure DecimalText (text whole fraction : List Char) : Prop where
  layout : text = whole ++ '.' :: fraction ∨ (text = whole ∧ fraction = [])
  whole_ne_nil : whole ≠ []
  whole_digits : ∀ c ∈ whole, c.isDigit = true
  fraction_digits : ∀ c ∈ fraction, c.isDigit = true

namespace PointedDigits

/-- Zeros at the end are what is dropped from the digits of a decimal. -/
theorem exists_digits_ofDecimal (d : Decimal) : ∃ zeros, Nat.toDigits 10 d.digits =
    (ofDecimal d).digits ++ List.replicate zeros '0' := by
  have hsplit := List.takeWhile_append_dropWhile
    (p := fun c => c == '0') (l := (Nat.toDigits 10 d.digits).reverse)
  refine ⟨((Nat.toDigits 10 d.digits).reverse.takeWhile (· == '0')).length, ?_⟩
  have hzeros : (Nat.toDigits 10 d.digits).reverse.takeWhile (· == '0') =
      List.replicate ((Nat.toDigits 10 d.digits).reverse.takeWhile (· == '0')).length '0' := by
    refine List.eq_replicate_of_mem fun c hc => ?_
    simpa using List.all_eq_true.mp List.all_takeWhile c hc
  rw [← List.reverse_replicate, ← hzeros, ofDecimal, ← List.reverse_append, hsplit,
    List.reverse_reverse]

/-- The digits of a decimal are digits. -/
theorem isDigit_of_mem_ofDecimal {d : Decimal} {c : Char} (h : c ∈ (ofDecimal d).digits) :
    c.isDigit = true := by
  obtain ⟨zeros, hdigits⟩ := exists_digits_ofDecimal d
  refine Nat.isDigit_of_mem_toDigits (b := 10) (n := d.digits) (by decide) (by decide) ?_
  rw [hdigits]
  exact List.mem_append_left _ h

/-- Zeros after digits multiply what they say. -/
theorem ofDigitChars_append_zeros (digits : List Char) (zeros : Nat) :
    Nat.ofDigitChars 10 (digits ++ List.replicate zeros '0') 0 =
      10 ^ zeros * Nat.ofDigitChars 10 digits 0 := by
  rw [Nat.ofDigitChars_append, Nat.ofDigitChars_replicate_zero]

/-- Zeros before digits do not change what they say. -/
theorem ofDigitChars_zeros_append (digits : List Char) (zeros : Nat) :
    Nat.ofDigitChars 10 (List.replicate zeros '0' ++ digits) 0 = Nat.ofDigitChars 10 digits 0 := by
  rw [Nat.ofDigitChars_append, Nat.ofDigitChars_replicate_zero, Nat.mul_zero]

/-- Digits with their point in place say the digits times the power of ten that the point is at.
Here `zeros` more digits would reach to the last place, which counts `10 ^ (kept - places)`. -/
theorem exists_decimalText_inPlace {p : PointedDigits} (hdigits : ∀ c ∈ p.digits, c.isDigit = true)
    {zeros kept places : Nat}
    (hpoint : p.point = (p.digits.length + zeros : Nat) + ((kept : Int) - (places : Int))) :
    ∃ whole fraction, DecimalText (p.inPlace []) whole fraction ∧
      Nat.ofDigitChars 10 (whole ++ fraction) 0 * 10 ^ places =
        10 ^ zeros * Nat.ofDigitChars 10 p.digits 0 * 10 ^ kept * 10 ^ fraction.length := by
  have hreplicate {n : Nat} {c : Char} (h : c ∈ List.replicate n '0') : c.isDigit = true := by
    rw [(List.mem_replicate.mp h).2]
    decide
  unfold inPlace
  split
  · rename_i hle
    refine ⟨['0'], List.replicate (-p.point).toNat '0' ++ p.digits,
      ⟨.inl rfl, List.cons_ne_nil _ _, List.forall_mem_singleton.mpr rfl, fun c hc => ?_⟩, ?_⟩
    · rcases List.mem_append.mp hc with hc | hc
      · exact hreplicate hc
      · exact hdigits c hc
    · have hplaces : places = zeros + kept + ((-p.point).toNat + p.digits.length) := by omega
      rw [← List.append_assoc, ← List.replicate_one, List.replicate_append_replicate,
        ofDigitChars_zeros_append, List.length_append, List.length_replicate, hplaces, Nat.pow_add,
        Nat.pow_add]
      ac_rfl
  · split
    · rename_i hpositive hlength
      refine ⟨p.digits ++ List.replicate (p.point.toNat - p.digits.length) '0', [],
        ⟨.inr ⟨List.append_nil _, rfl⟩, ?_, fun c hc => ?_, by simp⟩, ?_⟩
      · intro hnil
        have := congrArg List.length hnil
        rw [List.length_append, List.length_replicate, List.length_nil] at this
        omega
      · rcases List.mem_append.mp hc with hc | hc
        · exact hdigits c hc
        · exact hreplicate hc
      · have hkept : p.point.toNat - p.digits.length + places = zeros + kept := by omega
        rw [List.append_nil, ofDigitChars_append_zeros, List.length_nil, Nat.pow_zero, Nat.mul_one,
          Nat.mul_right_comm, ← Nat.pow_add, hkept, Nat.pow_add]
        ac_rfl
    · rename_i hpositive hlength
      refine ⟨p.digits.take p.point.toNat, p.digits.drop p.point.toNat, ⟨.inl rfl, ?_,
        fun c hc => hdigits c (List.mem_of_mem_take hc),
        fun c hc => hdigits c (List.mem_of_mem_drop hc)⟩, ?_⟩
      · intro hnil
        have := congrArg List.length hnil
        rw [List.length_take, List.length_nil] at this
        omega
      · have hplaces : places = zeros + kept + (p.digits.length - p.point.toNat) := by omega
        rw [List.take_append_drop, List.length_drop, hplaces, Nat.pow_add, Nat.pow_add]
        ac_rfl

end PointedDigits

/-- A magnitude is written as decimal text that says the magnitude. -/
theorem Magnitude.exists_decimalText_spell (m : Magnitude) :
    ∃ whole fraction, DecimalText (m.spell .script) whole fraction ∧
      Magnitude.ofDecimalDigits? whole fraction = some m := by
  unfold Magnitude.spell
  split
  · rename_i hzero
    refine ⟨['0'], [], ⟨.inr ⟨rfl, rfl⟩, List.cons_ne_nil _ _, List.forall_mem_singleton.mpr rfl,
      by simp⟩, ?_⟩
    change Magnitude.ofRank? (BinaryFormat.double.nearest 0 1) = some m
    rw [BinaryFormat.double.nearest_zero Nat.one_pos, ← hzero, Magnitude.ofRank?, dif_pos m.isLt]
  · obtain ⟨kept, places, hexponent, hback⟩ := BinaryFormat.double.exists_of_shortest .up m.val
    simp only [NumberStyle.script, if_true]
    generalize BinaryFormat.double.shortest .up m.val = d at hexponent hback
    obtain ⟨zeros, hdigits⟩ := PointedDigits.exists_digits_ofDecimal d
    have hpoint : (PointedDigits.ofDecimal d).point =
        ((PointedDigits.ofDecimal d).digits.length + zeros : Nat) + ((kept : Int) - places) := by
      have hlength := congrArg List.length hdigits
      rw [List.length_append, List.length_replicate] at hlength
      rw [← hexponent, ← hlength]
      rfl
    obtain ⟨whole, fraction, htext, hvalue⟩ := PointedDigits.exists_decimalText_inPlace
      (fun _ => PointedDigits.isDigit_of_mem_ofDecimal) hpoint
    refine ⟨whole, fraction, htext, ?_⟩
    have hsame : 10 ^ zeros * Nat.ofDigitChars 10 (PointedDigits.ofDecimal d).digits 0 =
        d.digits := by
      rw [← PointedDigits.ofDigitChars_append_zeros, ← hdigits, Nat.ofDigitChars_ten_toDigits]
    rw [hsame] at hvalue
    rw [Magnitude.ofDecimalDigits?, Magnitude.ofRatio?,
      BinaryFormat.double.nearest_congr (Nat.pow_pos (by decide)) (Nat.pow_pos (by decide)) hvalue,
      hback, Magnitude.ofRank?, dif_pos m.isLt]

end ChartScript
