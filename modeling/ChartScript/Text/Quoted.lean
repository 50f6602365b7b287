/-!
# Double-quoted text

The one spelling of text in everything this library writes: between double quotes, with the quote,
the backslash and the control characters below U+0020 escaped and nothing else. Text that goes into
a page is guarded as well, so that no `</` can close the surrounding script element.

Reading the spelling back is the business of the JSON reader, not of this module.
-/

namespace ChartScript.Text

/-- A hexadecimal digit in lower case. -/
def hexDigit (n : Nat) : Char :=
  Nat.digitChar n

/-- The spelling of one character between the quotes. -/
def escapeChar (c : Char) : List Char :=
  if c = '"' then ['\\', '"']
  else if c = '\\' then ['\\', '\\']
  else if c = '\n' then ['\\', 'n']
  else if c = '\r' then ['\\', 'r']
  else if c = '\t' then ['\\', 't']
  else if c = '\x08' then ['\\', 'b']
  else if c = '\x0c' then ['\\', 'f']
  else if c.toNat < 0x20 then
    ['\\', 'u', '0', '0', hexDigit (c.toNat / 16), hexDigit (c.toNat % 16)]
  else [c]

/-- Text between double quotes. -/
def quote (text : String) : String :=
  String.ofList ('"' :: (text.toList.flatMap escapeChar ++ ['"']))

/-- Write every `</` as `<\/`, which the same literals read alike. -/
def guardChars : List Char → List Char
  | '<' :: '/' :: rest => '<' :: '\\' :: '/' :: guardChars rest
  | c :: rest => c :: guardChars rest
  | [] => []

/-- Text in which no `</` is left. -/
def guardTags (text : String) : String :=
  String.ofList (guardChars text.toList)

/-- A string literal that may stand in a script element. -/
def scriptQuote (text : String) : String :=
  guardTags (quote text)

/-- No two neighbours are `<` and `/`. -/
def TagFree : List Char → Prop
  | '<' :: '/' :: _ => False
  | _ :: rest => TagFree rest
  | [] => True

/-- The guard leaves the first character in place. -/
theorem guardChars_cons (c : Char) (rest : List Char) :
    ∃ tail, guardChars (c :: rest) = c :: tail := by
  unfold guardChars
  split
  · simp_all
  · exact ⟨_, by simp_all; rfl⟩
  · simp_all

/-- Guarded text holds no `</`. -/
theorem tagFree_guardChars (text : List Char) : TagFree (guardChars text) := by
  fun_induction guardChars text with
  | case1 rest ih => simpa [TagFree] using ih
  | case2 c rest h ih =>
    unfold TagFree
    split
    · rename_i tail heq
      simp only [List.cons.injEq] at heq
      obtain ⟨rfl, htail⟩ := heq
      cases rest with
      | nil => simp [guardChars] at htail
      | cons d r =>
        obtain ⟨t, ht⟩ := guardChars_cons d r
        rw [ht] at htail
        simp only [List.cons.injEq] at htail
        exact h r rfl (by rw [htail.1])
    · rename_i heq
      simp only [List.cons.injEq] at heq
      rw [← heq.2]
      exact ih
    · trivial
  | case3 => trivial

end ChartScript.Text
