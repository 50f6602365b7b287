import ChartScript.Error
import ChartScript.Text.UpperCase

/-!
# Identifiers

Names that may stand as script variables: an ASCII letter, `_` or `$`, then letters, digits, `_` or
`$`. A chart's name is an `Identifier`, so every name derived from it may be declared as it stands.
Reserved words are not excluded.
-/

namespace ChartScript

namespace Text

/-- A character that may begin an identifier. -/
def identifierHead (c : Char) : Bool :=
  c.isAlpha || c == '_' || c == '$'

/-- A character that may go on an identifier. -/
def identifierTail (c : Char) : Bool :=
  c.isAlphanum || c == '_' || c == '$'

/-- Whether the characters spell an identifier. -/
def isIdentifier : List Char → Bool
  | [] => false
  | c :: rest => identifierHead c && rest.all identifierTail

end Text

/-- A name that may stand as a script variable. -/
structure Identifier where
  text : String
  valid : Text.isIdentifier text.toList = true
deriving DecidableEq

namespace Identifier

/-- Accept a name, or say why it cannot be one. -/
def ofText (name : String) : Except Error Identifier :=
  if h : Text.isIdentifier name.toList = true then .ok ⟨name, h⟩
  else if name.toList = [] then .error .emptyIdentifier
  else .error (.invalidIdentifier name)

/-- Accepted names keep their text. -/
theorem text_of_ofText {name : String} {i : Identifier} (h : ofText name = .ok i) :
    i.text = name := by
  unfold ofText at h
  split at h
  · simp only [Except.ok.injEq] at h
    rw [← h]
  · split at h <;> simp at h

/-- The text of an identifier is accepted as that identifier. -/
theorem ofText_text (i : Identifier) : ofText i.text = .ok i := by
  rw [ofText, dif_pos i.valid]

/-- Exactly the names made of the right characters are accepted. -/
theorem ofText_isOk_iff (name : String) :
    (∃ i, ofText name = .ok i) ↔ Text.isIdentifier name.toList = true := by
  unfold ofText
  constructor
  · rintro ⟨i, h⟩
    split at h
    · assumption
    · split at h <;> simp at h
  · intro h
    exact ⟨⟨name, h⟩, by simp [h]⟩

end Identifier

end ChartScript
