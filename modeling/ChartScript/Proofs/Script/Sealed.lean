import ChartScript.Proofs.Script.Emptied
import ChartScript.Proofs.Text.Tags

/-!
# Sealed values

The values that a script spells out are sealed text as long as no code is among them: text is
guarded, and numbers, dates, keys and punctuation are inert.
-/

namespace ChartScript

open Text

/-- Inert text is sealed. -/
theorem Text.Inert.sealed {chars : List Char} (h : Inert chars) : Sealed chars :=
  .of_not_mem h.bracket_not_mem

namespace Json

/-- A JSON value does not end in a bracket. -/
theorem bracket_not_mem_getLast?_chars (layout : JsonLayout) (depth : Nat) (json : Json) :
    '<' ∉ (json.chars layout depth).getLast? := by
  cases json with
  | null =>
    rw [chars]
    decide
  | bool value =>
    rw [chars]
    cases value <;> decide
  | number value =>
    rw [chars]
    exact fun hlast => value.inert_spell.bracket_not_mem (List.mem_of_getLast? hlast)
  | text value =>
    rw [chars, getLast?_quote]
    decide
  | array items => cases items <;> simp [chars, List.getLast?_cons, List.getLast?_append]
  | object members => cases members <;> simp [chars, List.getLast?_cons, List.getLast?_append]

/-- JSON for a script is sealed. -/
theorem sealed_scriptText (json : Json) : Sealed json.scriptText.toList := by
  refine sealed_guardTags ?_
  rw [compact, String.toList_ofList]
  exact bracket_not_mem_getLast?_chars _ _ json

end Json

/-- Being sealed is a matter of the parts of a text, whatever is quoted in them. -/
theorem blindToTexts_sealed : BlindToTexts fun chars _ => Sealed chars where
  toPartByPart := partByPart_sealed
  inert h := h.sealed
  literal text _ := sealed_scriptQuote text
  json json := json.sealed_scriptText
  header c := c.header.sealed_scriptText

end ChartScript
