import ChartScript.Proofs.Script.StringLiteral
import ChartScript.Proofs.Text.Quoted

/-!
# Quoted text as a string literal

A script reads quoted and guarded text as the text that was quoted, whatever characters it is made
of: each spelling of a character says the code units of the character, and the backslash of the
guard is read as part of an escaped slash.
-/

namespace ChartScript.StringLiteral

open Text

/-- Code units before those that are read further on. -/
def beforeUnits (said : List Nat) (found : List Nat × List Char) : List Nat × List Char :=
  (said ++ found.1, found.2)

variable {c : Char} {tail rest : List Char}

/-- An escape says what stands before the rest of a literal. -/
theorem read?_escape {said : List Nat} {left : List Char} (h : escape? tail = some (said, left)) :
    read? ('\\' :: tail) = (read? left).map (beforeUnits said) := by
  rw [read?]
  split
  · rename_i hnone
    rw [h] at hnone
    cases hnone
  · rename_i hsome
    obtain ⟨rfl, rfl⟩ := Prod.mk.inj (Option.some.inj (h.symm.trans hsome))
    rfl

/-- A character that is neither a quote nor a backslash nor the end of a line says itself. -/
theorem read?_plain (hquote : c ≠ '"') (hbackslash : c ≠ '\\') (hline : c ≠ '\n' ∧ c ≠ '\r') :
    read? (c :: tail) = (read? tail).map (beforeUnits (unitsOf c.toNat)) := by
  rw [read?, if_neg (not_or.mpr hline)]
  · rfl
  · exact hquote
  · exact hbackslash

/-- The spelling of a control character in hexadecimal digits says the character. -/
theorem escape?_control (hcontrol : c.toNat < 0x20) (tail : List Char) :
    escape? ('u' :: '0' :: '0' :: hexDigit (c.toNat / 16) :: hexDigit (c.toNat % 16) :: tail) =
      some (unitsOf c.toNat, tail) := by
  have hone : unitsOf c.toNat = [c.toNat] := if_pos (by omega)
  rw [escape?, quad?, hexQuad?_control hcontrol, hone]
  · rfl
  · intro _ h
    cases h

/-- A short escape says the character that it stands for. -/
theorem escape?_short {e : Char} (h : JsonToken.shortEscape? e = some c) (tail : List Char) :
    escape? (e :: tail) = some (unitsOf c.toNat, tail) := by
  unfold JsonToken.shortEscape? at h
  split at h <;> cases h <;> rfl

/-- The spelling of a character says the character. -/
theorem read?_escapeChar (c : Char) (tail : List Char) :
    read? (escapeChar c ++ tail) = (read? tail).map (beforeUnits (unitsOf c.toNat)) := by
  rcases escapeChar_cases c with ⟨e, he, hspelled⟩ | ⟨hcontrol, hspelled⟩ |
    ⟨hquote, hbackslash, hcontrol, hspelled⟩
  · rw [hspelled]
    exact read?_escape (escape?_short he tail)
  · rw [hspelled]
    exact read?_escape (escape?_control hcontrol tail)
  · have hline : c ≠ '\n' ∧ c ≠ '\r' := by
      constructor <;> rintro rfl <;> exact hcontrol (by decide)
    rw [hspelled]
    exact read?_plain hquote hbackslash hline

/-- The reader of string literals reads what stands between quotes. -/
theorem readsQuoted_read? : ReadsQuoted read? fun c => beforeUnits (unitsOf c.toNat) where
  escaped := read?_escapeChar
  slash tail := by
    have hescape : escape? ('/' :: tail) = some (unitsOf ('/').toNat, tail) := rfl
    rw [read?_escape hescape, read?_plain (by decide) (by decide) (by decide)]

/-- The code units of characters stand before those that are read further on. -/
theorem foldr_beforeUnits (chars : List Char) (found : List Nat × List Char) :
    chars.foldr (fun c => beforeUnits (unitsOf c.toNat)) found =
      beforeUnits (units chars) found := by
  induction chars with
  | nil => rfl
  | cons c chars ih =>
    rw [List.foldr_cons, ih, units_cons, beforeUnits, beforeUnits, beforeUnits, List.append_assoc]

/-- Quoted and guarded text, after its opening quote, says the text that was quoted. -/
theorem read?_guardChars (chars rest : List Char) :
    read? (guardChars (chars.flatMap escapeChar ++ ['"']) ++ rest) = some (units chars, rest) := by
  have hquote : read? ('"' :: rest) = some ([], rest) := by
    rw [read?]
  rw [readsQuoted_read?.read_guardChars, hquote, Option.map_some, foldr_beforeUnits, beforeUnits,
    List.append_nil]

end ChartScript.StringLiteral
