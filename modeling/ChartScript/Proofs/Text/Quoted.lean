import ChartScript.Json.Token
import ChartScript.Text.Quoted

/-!
# Reading quoted text

Text between double quotes is read back by the scanner of JSON strings, whatever characters it is
made of: what is escaped comes back as it was, and the backslash that the guard puts into every `</`
is read as part of an escaped slash.
-/

namespace ChartScript.Text

open JsonToken

/-- What the scanner of strings finds for a character between quotes: the number of a control
character without a short escape, else the character. -/
def pieceOf (c : Char) : Piece :=
  match escapeChar c with
  | '\\' :: 'u' :: _ => .codeUnit c.toNat
  | _ => .char c

/-- A part of a string before what the scanner finds further on. -/
def beforePieces (piece : Piece) (found : List Piece × List Char) : List Piece × List Char :=
  (piece :: found.1, found.2)

/-- The scanner reads hexadecimal digits as they are written. -/
theorem hexValue?_hexDigit : ∀ n < 16, hexValue? (hexDigit n) = some n := by
  decide

/-- The scanner reads the short escape of a character as that character. -/
theorem scanString_short {e c : Char} (he : e ≠ 'u') (hc : shortEscape? e = some c)
    (tail : List Char) :
    scanString ('\\' :: e :: tail) = (scanString tail).map (beforePieces (.char c)) := by
  rw [scanString, hc]
  · cases scanString tail <;> rfl
  · intro _ _ _ _ _ hu
    exact absurd hu he

/-- The scanner reads a character that is not escaped as itself. -/
theorem scanString_plain {c : Char} (hquote : c ≠ '"') (hbackslash : c ≠ '\\')
    (hcontrol : ¬ c.toNat < 0x20) (tail : List Char) :
    scanString (c :: tail) = (scanString tail).map (beforePieces (.char c)) := by
  rw [scanString, if_neg hcontrol]
  · cases scanString tail <;> rfl
  · exact hquote
  · intro _ _ _ _ _ h
    exact absurd h hbackslash
  · intro _ _ h
    exact absurd h hbackslash

/-- The hexadecimal digits of a control character say its number. -/
theorem hexQuad?_control {c : Char} (hcontrol : c.toNat < 0x20) :
    hexQuad? '0' '0' (hexDigit (c.toNat / 16)) (hexDigit (c.toNat % 16)) = some c.toNat := by
  have hzero : hexValue? '0' = some 0 := rfl
  rw [hexQuad?, hexValue?_hexDigit _ (by omega), hexValue?_hexDigit _ (by omega), hzero]
  simp only [Option.bind_eq_bind, Option.bind_some, Option.pure_def, Option.some.injEq]
  omega

/-- The scanner reads four hexadecimal digits as the number of a control character. -/
theorem scanString_control {c : Char} (hcontrol : c.toNat < 0x20) (tail : List Char) :
    scanString ('\\' :: 'u' :: '0' :: '0' :: hexDigit (c.toNat / 16) ::
        hexDigit (c.toNat % 16) :: tail) =
      (scanString tail).map (beforePieces (.codeUnit c.toNat)) := by
  rw [scanString, hexQuad?_control hcontrol]
  cases scanString tail <;> rfl

/-- A character is spelled with a short escape, in hexadecimal digits, or as itself. -/
theorem escapeChar_cases (c : Char) :
    (∃ e, shortEscape? e = some c ∧ escapeChar c = ['\\', e]) ∨
      (c.toNat < 0x20 ∧ escapeChar c =
        ['\\', 'u', '0', '0', hexDigit (c.toNat / 16), hexDigit (c.toNat % 16)]) ∨
      (c ≠ '"' ∧ c ≠ '\\' ∧ ¬ c.toNat < 0x20 ∧ escapeChar c = [c]) := by
  by_cases hshort : c ∈ ['"', '\\', '\n', '\r', '\t', '\x08', '\x0c']
  · simp only [List.mem_cons, List.not_mem_nil, or_false] at hshort
    rcases hshort with rfl | rfl | rfl | rfl | rfl | rfl | rfl <;> exact .inl ⟨_, rfl, rfl⟩
  · simp only [List.mem_cons, List.not_mem_nil, or_false, not_or] at hshort
    obtain ⟨hquote, hbackslash, hnewline, hreturn, htab, hbackspace, hfeed⟩ := hshort
    simp only [escapeChar, hquote, hbackslash, hnewline, hreturn, htab, hbackspace, hfeed, if_false]
    by_cases hcontrol : c.toNat < 0x20
    · exact .inr (.inl ⟨hcontrol, if_pos hcontrol⟩)
    · exact .inr (.inr ⟨hquote, hbackslash, hcontrol, if_neg hcontrol⟩)

/-- The scanner reads the spelling of a character as the piece for it. -/
theorem scanString_escapeChar (c : Char) (tail : List Char) :
    scanString (escapeChar c ++ tail) = (scanString tail).map (beforePieces (pieceOf c)) := by
  unfold pieceOf
  rcases escapeChar_cases c with ⟨e, he, hspelled⟩ | ⟨hcontrol, hspelled⟩ |
    ⟨hquote, hbackslash, hcontrol, hspelled⟩
  · have hne : e ≠ 'u' := by
      rintro rfl
      cases he
    rw [hspelled]
    split
    · rename_i heq
      exact absurd (List.cons.inj (List.cons.inj heq).2).1 hne
    · exact scanString_short hne he tail
  · rw [hspelled]
    exact scanString_control hcontrol tail
  · rw [hspelled]
    split
    · rename_i heq
      exact absurd (List.cons.inj heq).1 hbackslash
    · exact scanString_plain hquote hbackslash hcontrol tail

/-- The guard passes over a character that opens no tag. -/
theorem guardChars_cons_of_ne {c : Char} (h : c ≠ '<') (tail : List Char) :
    guardChars (c :: tail) = c :: guardChars tail := by
  rw [guardChars]
  exact fun _ hopen => absurd hopen h

/-- The guard passes over characters that open no tag. -/
theorem guardChars_append {chars : List Char} (h : '<' ∉ chars) (tail : List Char) :
    guardChars (chars ++ tail) = chars ++ guardChars tail := by
  induction chars with
  | nil => rfl
  | cons c rest ih =>
    obtain ⟨hc, hrest⟩ := not_or.mp (fun hmem => h (List.mem_cons.mpr hmem))
    rw [List.cons_append, guardChars_cons_of_ne (Ne.symm hc), ih hrest, List.cons_append]

/-- Nothing but an opening bracket is spelled with one. -/
theorem bracket_not_mem_escapeChar {c : Char} (h : c ≠ '<') : '<' ∉ escapeChar c := by
  have hdigit : ∀ n < 16, hexDigit n ≠ '<' := by decide
  unfold escapeChar
  repeat' split
  all_goals simp [h.symm]
  exact ⟨(hdigit _ (by omega)).symm, (hdigit _ (by omega)).symm⟩

/-- A reader of what stands between quotes: it reads the spelling of a character as the character,
and an escaped slash as a slash. -/
structure ReadsQuoted {β : Type} (read : List Char → Option β) (say : Char → β → β) : Prop where
  escaped : ∀ c tail, read (escapeChar c ++ tail) = (read tail).map (say c)
  slash : ∀ tail, read ('\\' :: '/' :: tail) = read ('/' :: tail)

namespace ReadsQuoted

variable {β : Type} {read : List Char → Option β} {say : Char → β → β}

/-- The reader reads quoted text as the characters that were quoted, before what follows. -/
theorem read_flatMap (h : ReadsQuoted read say) (chars rest : List Char) :
    read (chars.flatMap escapeChar ++ rest) =
      (read rest).map fun found => chars.foldr say found := by
  induction chars with
  | nil => exact Option.map_id'.symm
  | cons c chars ih =>
    rw [List.flatMap_cons, List.append_assoc, h.escaped, ih, Option.map_map]
    rfl

/-- The reader does not see the guard of an opening bracket. -/
theorem read_guardChars_bracket (h : ReadsQuoted read say) (tail rest : List Char) :
    read (guardChars ('<' :: tail) ++ rest) = (read (guardChars tail ++ rest)).map (say '<') := by
  have hbracket (chars : List Char) : read ('<' :: chars) = (read chars).map (say '<') :=
    h.escaped '<' chars
  by_cases hslash : ∃ after, tail = '/' :: after
  · obtain ⟨after, rfl⟩ := hslash
    rw [guardChars, guardChars_cons_of_ne (by decide)]
    simp only [List.cons_append]
    rw [hbracket, h.slash]
  · have hkeep : guardChars ('<' :: tail) = '<' :: guardChars tail := by
      rw [guardChars]
      intro after _ htail
      exact hslash ⟨after, htail⟩
    rw [hkeep, List.cons_append, hbracket]

/-- The reader reads quoted and guarded text as the characters that were quoted, before what is at
the quote that ends it. -/
theorem read_guardChars (h : ReadsQuoted read say) (chars rest : List Char) :
    read (guardChars (chars.flatMap escapeChar ++ ['"']) ++ rest) =
      (read ('"' :: rest)).map fun found => chars.foldr say found := by
  induction chars with
  | nil =>
    rw [List.flatMap_nil, List.nil_append, guardChars_cons_of_ne (by decide)]
    exact Option.map_id'.symm
  | cons c chars ih =>
    rw [List.flatMap_cons, List.append_assoc]
    by_cases hc : c = '<'
    · subst hc
      have hspelled : escapeChar '<' = ['<'] := by decide
      rw [hspelled, List.singleton_append, h.read_guardChars_bracket, ih, Option.map_map]
      rfl
    · rw [guardChars_append (bracket_not_mem_escapeChar hc), List.append_assoc, h.escaped, ih,
        Option.map_map]
      rfl

end ReadsQuoted

/-- The scanner of strings is such a reader. -/
theorem readsQuoted_scanString : ReadsQuoted scanString fun c => beforePieces (pieceOf c) where
  escaped := scanString_escapeChar
  slash tail := by
    rw [scanString_short (by decide) rfl, scanString_plain (by decide) (by decide) (by decide)]

/-- The pieces of characters stand before what the scanner finds further on. -/
theorem foldr_beforePieces (chars : List Char) (found : List Piece × List Char) :
    chars.foldr (fun c => beforePieces (pieceOf c)) found =
      (chars.map pieceOf ++ found.1, found.2) := by
  induction chars with
  | nil => rfl
  | cons c chars ih =>
    rw [List.foldr_cons, ih]
    rfl

/-- The scanner reads quoted text as the pieces of its characters. -/
theorem scanString_flatMap_escapeChar (chars rest : List Char) :
    scanString (chars.flatMap escapeChar ++ '"' :: rest) = some (chars.map pieceOf, rest) := by
  have hquote : scanString ('"' :: rest) = some ([], rest) := rfl
  rw [readsQuoted_scanString.read_flatMap, hquote, Option.map_some, foldr_beforePieces,
    List.append_nil]

/-- The scanner reads quoted and guarded text as the pieces of its characters. -/
theorem scanString_guardChars (chars rest : List Char) :
    scanString (guardChars (chars.flatMap escapeChar ++ ['"']) ++ rest) =
      some (chars.map pieceOf, rest) := by
  have hquote : scanString ('"' :: rest) = some ([], rest) := rfl
  rw [readsQuoted_scanString.read_guardChars, hquote, Option.map_some, foldr_beforePieces,
    List.append_nil]

/-- A piece is a control character by its number, or the character. -/
theorem pieceOf_eq (c : Char) :
    pieceOf c = .char c ∨ (pieceOf c = .codeUnit c.toNat ∧ c.toNat < 0x20) := by
  unfold pieceOf
  split
  · rename_i hspelled
    unfold escapeChar at hspelled
    repeat' split at hspelled
    all_goals simp_all
  · exact .inl rfl

/-- A piece for a character says the character. -/
theorem piecesText?_pieceOf (c : Char) (pieces : List Piece) :
    piecesText? (pieceOf c :: pieces) = (piecesText? pieces).map (c :: ·) := by
  rcases pieceOf_eq c with h | ⟨h, hcontrol⟩
  · rw [h, piecesText?]
  · have hhigh : isHighHalf c.toNat = false := by
      simp only [isHighHalf, Bool.and_eq_false_iff, decide_eq_false_iff_not]
      omega
    have hlow : isLowHalf c.toNat = false := by
      simp only [isLowHalf, Bool.and_eq_false_iff, decide_eq_false_iff_not]
      omega
    rw [h]
    cases pieces with
    | nil => simp [piecesText?, hhigh, hlow]
    | cons piece pieces => cases piece <;> simp [piecesText?, hhigh, hlow]

/-- The pieces of characters say the characters. -/
theorem piecesText?_map_pieceOf (chars : List Char) :
    piecesText? (chars.map pieceOf) = some chars := by
  induction chars with
  | nil => rfl
  | cons c chars ih =>
    rw [List.map_cons, piecesText?_pieceOf, ih]
    rfl

end ChartScript.Text
