import ChartScript.Proofs.Json.Printing
import ChartScript.Proofs.Script.QuotedLiteral
import ChartScript.Proofs.Text.Tags

/-!
# String literals are exact

A text is written for a script between two quotes so that nothing inside can be taken for the end of
the literal or of the script element around it: every quote inside is escaped, no control character
stands there, and no `</` does. Read as JSON or by the script itself, the literal is the text again,
so two texts are never written alike.
-/

namespace ChartScript

namespace StringLiteral

/-- The code units of a character, with whatever follows them, tell which character it is. -/
theorem unitsOf_append_inj {c d : Char} {found more : List Nat}
    (h : unitsOf c.toNat ++ found = unitsOf d.toNat ++ more) : c = d ∧ found = more := by
  -- no character has the number of half a pair, so a single code unit is never taken for one
  have hc : c.toNat < 0xd800 ∨ 0xdfff < c.toNat ∧ c.toNat < 0x110000 := c.valid
  have hd : d.toNat < 0xd800 ∨ 0xdfff < d.toNat ∧ d.toNat < 0x110000 := d.valid
  have hsame : c.toNat = d.toNat ∧ found = more := by
    unfold unitsOf at h
    split at h <;> split at h <;>
      simp only [List.cons_append, List.nil_append, List.cons.injEq] at h
    · exact h
    · omega
    · omega
    · exact ⟨by omega, h.2.2⟩
  exact ⟨Char.toNat_inj.mp hsame.1, hsame.2⟩

/-- The code units of a text tell which text it is. -/
theorem units_injective : Function.Injective units := by
  intro text other h
  induction text generalizing other with
  | nil =>
    cases other with
    | nil => rfl
    | cons d other =>
      have hlength := length_le_units (d :: other)
      rw [← h] at hlength
      exact absurd hlength (Nat.not_succ_le_zero _)
  | cons c text ih =>
    cases other with
    | nil =>
      have hlength := length_le_units (c :: text)
      rw [h] at hlength
      exact absurd hlength (Nat.not_succ_le_zero _)
    | cons d other =>
      rw [units_cons, units_cons] at h
      obtain ⟨rfl, hrest⟩ := unitsOf_append_inj h
      rw [ih hrest]

end StringLiteral

namespace Text

open StringLiteral

/-- What follows the first quote that is not escaped. -/
def afterQuote? : List Char → Option (List Char)
  | '\\' :: _ :: rest => afterQuote? rest
  | '"' :: rest => some rest
  | _ :: rest => afterQuote? rest
  | [] => none

/-- A character that is neither a quote nor a backslash is passed over. -/
theorem afterQuote?_plain {c : Char} (hquote : c ≠ '"') (hbackslash : c ≠ '\\')
    (tail : List Char) : afterQuote? (c :: tail) = afterQuote? tail := by
  rw [afterQuote?]
  · exact fun _ _ h => absurd h hbackslash
  · exact hquote

/-- The quote that ends a literal is found behind whatever characters are spelled before it. -/
theorem readsQuoted_afterQuote? : ReadsQuoted afterQuote? fun _ rest => rest where
  escaped c tail := by
    rw [Option.map_id']
    rcases escapeChar_cases c with ⟨e, _, hspelled⟩ | ⟨hcontrol, hspelled⟩ |
      ⟨hquote, hbackslash, _, hspelled⟩
    · rw [hspelled]
      rfl
    · have hdigit : ∀ n < 16, hexDigit n ≠ '"' ∧ hexDigit n ≠ '\\' := by decide
      obtain ⟨hquote, hbackslash⟩ := hdigit (c.toNat / 16) (by omega)
      obtain ⟨hquote', hbackslash'⟩ := hdigit (c.toNat % 16) (by omega)
      rw [hspelled]
      calc afterQuote? ('\\' :: 'u' :: '0' :: '0' :: hexDigit (c.toNat / 16) ::
            hexDigit (c.toNat % 16) :: tail)
        _ = afterQuote? (hexDigit (c.toNat / 16) :: hexDigit (c.toNat % 16) :: tail) := rfl
        _ = afterQuote? (hexDigit (c.toNat % 16) :: tail) := afterQuote?_plain hquote hbackslash _
        _ = afterQuote? tail := afterQuote?_plain hquote' hbackslash' _
    · rw [hspelled]
      exact afterQuote?_plain hquote hbackslash _
  slash _ := rfl

/-- The guard puts in nothing but backslashes. -/
theorem mem_of_mem_guardChars {c : Char} {chars : List Char} (h : c ∈ guardChars chars) :
    c = '\\' ∨ c ∈ chars := by
  fun_induction guardChars chars with
  | case1 rest ih =>
    simp only [List.mem_cons] at h ⊢
    tauto
  | case2 d rest _ ih =>
    simp only [List.mem_cons] at h ⊢
    tauto
  | case3 => exact .inr h

/-- The spelling of a character holds no control character. -/
theorem le_toNat_of_mem_escapeChar {c d : Char} (h : d ∈ escapeChar c) : 0x20 ≤ d.toNat := by
  have hdigit : ∀ n < 16, 0x20 ≤ (hexDigit n).toNat := by decide
  have hshort : ∀ e, JsonToken.shortEscape? e = some c → 0x20 ≤ e.toNat := by
    intro e he
    unfold JsonToken.shortEscape? at he
    split at he <;> cases he <;> decide
  rcases escapeChar_cases c with ⟨e, he, hspelled⟩ | ⟨hcontrol, hspelled⟩ |
    ⟨_, _, hcontrol, hspelled⟩
  · rw [hspelled] at h
    simp only [List.mem_cons, List.not_mem_nil, or_false] at h
    rcases h with rfl | rfl
    · decide
    · exact hshort _ he
  · rw [hspelled] at h
    simp only [List.mem_cons, List.not_mem_nil, or_false] at h
    rcases h with rfl | rfl | rfl | rfl | rfl | rfl
    · decide
    · decide
    · decide
    · decide
    · exact hdigit _ (by omega)
    · exact hdigit _ (by omega)
  · rw [hspelled, List.mem_singleton] at h
    subst h
    omega

/-- The guard leaves a quote at the end where it is. -/
theorem guardChars_quote (chars : List Char) :
    guardChars (chars ++ ['"']) = guardChars chars ++ ['"'] := by
  fun_induction guardChars chars with
  | case1 rest ih => rw [List.cons_append, List.cons_append, guardChars, ih]; rfl
  | case2 c rest hopens ih =>
    rw [List.cons_append, guardChars, ih]
    · rfl
    · intro tail hc htail
      cases rest with
      | nil => cases htail
      | cons d rest => exact hopens rest hc (by rw [(List.cons.inj htail).1])
  | case3 => rfl

/-- A literal is what stands for its characters, between two quotes. -/
theorem toList_scriptQuote (text : String) :
    (scriptQuote text).toList =
      '"' :: (guardChars (text.toList.flatMap escapeChar) ++ ['"']) := by
  rw [scriptQuote, guardTags, quote, String.toList_ofList, String.toList_ofList,
    guardChars_cons_of_ne (by decide), guardChars_quote]

/-- Text that is free of tags holds none. -/
theorem TagFree.not_isInfix {chars : List Char} (h : TagFree chars) : ¬ ['<', '/'] <:+: chars := by
  rintro ⟨before, after, rfl⟩
  exact (tagFree_append.mp (tagFree_append.mp h).1).2.1

/-- A literal is one JSON string, which is the text. -/
theorem read?_scriptQuote (text : String) : Json.read? (scriptQuote text) = some (.text text) := by
  have hchars : guardChars (text.toList.flatMap escapeChar) ++ ['"'] =
      guardChars (text.toList.flatMap escapeChar ++ ['"']) ++ [] := by
    rw [guardChars_quote, List.append_nil]
  have hscan : JsonToken.scan ('"' :: (guardChars (text.toList.flatMap escapeChar) ++ ['"'])) =
      some (.string (some text), []) := by
    rw [JsonToken.scan, JsonToken.scanQuoted, hchars, scanString_guardChars]
    simp only [Option.bind_eq_bind, Option.bind_some, piecesText?_map_pieceOf, Option.map_some,
      String.ofList_toList, Option.pure_def]
  have hfeed : RawJson.feed (.value []) (scriptQuote text).toList =
      some (.next (.string (some text)) []) := by
    rw [toList_scriptQuote, RawJson.feed_token rfl hscan rfl, RawJson.feed_nil]
  rw [Json.read?, RawJson.read?_of_feed hfeed]
  rfl

/-- A string literal for a script begins and ends with a quote. Between the two there is no control
character and no quote that is not escaped, and nowhere is there a `</`. Read as JSON it is the
text, and read by a script it has the code units of the text and ends at its last quote. No other
text is written the same. -/
theorem scriptQuote_exact (text : String) :
    (∃ inside, (scriptQuote text).toList = '"' :: (inside ++ ['"']) ∧
      (∀ c ∈ inside, 0x20 ≤ c.toNat) ∧
      (∀ rest, afterQuote? (inside ++ '"' :: rest) = some rest) ∧
      (∀ rest, StringLiteral.read? (inside ++ '"' :: rest) = some (units text.toList, rest))) ∧
      ¬ ['<', '/'] <:+: (scriptQuote text).toList ∧
      Json.read? (scriptQuote text) = some (.text text) ∧
      ∀ other, scriptQuote other = scriptQuote text → other = text := by
  have hinside (rest : List Char) : guardChars (text.toList.flatMap escapeChar) ++ '"' :: rest =
      guardChars (text.toList.flatMap escapeChar ++ ['"']) ++ rest := by
    rw [guardChars_quote, List.append_assoc, List.singleton_append]
  refine ⟨⟨_, toList_scriptQuote text, ?_, ?_, ?_⟩, ?_, read?_scriptQuote text, ?_⟩
  · intro c hc
    rcases mem_of_mem_guardChars hc with rfl | hmem
    · decide
    · obtain ⟨d, _, hd⟩ := List.mem_flatMap.mp hmem
      exact le_toNat_of_mem_escapeChar hd
  · intro rest
    rw [hinside, readsQuoted_afterQuote?.read_guardChars, afterQuote?, Option.map_some,
      List.foldr_fixed]
  · intro rest
    rw [hinside, read?_guardChars]
  · apply TagFree.not_isInfix
    rw [scriptQuote, guardTags, String.toList_ofList]
    exact tagFree_guardChars _
  · intro other h
    have hsame : guardChars (other.toList.flatMap escapeChar ++ ['"']) =
        guardChars (text.toList.flatMap escapeChar ++ ['"']) := by
      have hchars := congrArg String.toList h
      rw [toList_scriptQuote, toList_scriptQuote] at hchars
      rw [guardChars_quote, guardChars_quote]
      exact (List.cons.inj hchars).2
    have hunits : units other.toList = units text.toList := by
      have hother := read?_guardChars other.toList []
      rw [hsame, read?_guardChars] at hother
      exact (Prod.mk.inj (Option.some.inj hother)).1.symm
    exact String.toList_inj.mp (units_injective hunits)

end Text

end ChartScript
