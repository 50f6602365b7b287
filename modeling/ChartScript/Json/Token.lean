import ChartScript.Json.Number

/-!
# JSON tokens

Text is cut into brackets, commas, colons, words, numbers and strings; blanks between them are
dropped. Only the spelling of each token is checked here, not their order.

A string may be spelled correctly and still denote no text, when it escapes half of a surrogate
pair. Such a string is a token without text, since where a value is skipped it does no harm.
-/

namespace ChartScript

/-- A piece of JSON text. -/
inductive JsonToken where
  | openArray
  | closeArray
  | openObject
  | closeObject
  | comma
  | colon
  | null
  | bool (value : Bool)
  | number (lexeme : NumberLexeme)
  /-- A string with the text that it denotes, if it denotes any. -/
  | string (text : Option String)
deriving DecidableEq

namespace JsonToken

/-- A part of a string: a character, or a 16-bit code unit given by its number. -/
inductive Piece where
  | char (c : Char)
  | codeUnit (n : Nat)

/-- The value of a hexadecimal digit. -/
def hexValue? (c : Char) : Option Nat :=
  if '0' ≤ c ∧ c ≤ '9' then some (c.toNat - '0'.toNat)
  else if 'a' ≤ c ∧ c ≤ 'f' then some (c.toNat - 'a'.toNat + 10)
  else if 'A' ≤ c ∧ c ≤ 'F' then some (c.toNat - 'A'.toNat + 10)
  else none

/-- The value of four hexadecimal digits. -/
def hexQuad? (a b c d : Char) : Option Nat := do
  return (((← hexValue? a) * 16 + (← hexValue? b)) * 16 + (← hexValue? c)) * 16 + (← hexValue? d)

/-- The character that a letter after a backslash stands for. -/
def shortEscape? : Char → Option Char
  | '"' => some '"'
  | '\\' => some '\\'
  | '/' => some '/'
  | 'b' => some '\x08'
  | 'f' => some '\x0c'
  | 'n' => some '\n'
  | 'r' => some '\r'
  | 't' => some '\t'
  | _ => none

/-- The parts of a string up to its closing quote, and what follows the quote. -/
def scanString : List Char → Option (List Piece × List Char)
  | [] => none
  | '"' :: rest => some ([], rest)
  | '\\' :: 'u' :: a :: b :: c :: d :: rest => do
    let n ← hexQuad? a b c d
    let (pieces, left) ← scanString rest
    return (.codeUnit n :: pieces, left)
  | '\\' :: e :: rest => do
    let c ← shortEscape? e
    let (pieces, left) ← scanString rest
    return (.char c :: pieces, left)
  | c :: rest =>
    if c.toNat < 0x20 then none
    else do
      let (pieces, left) ← scanString rest
      return (.char c :: pieces, left)

/-- Whether a code unit is the first half of a pair. -/
def isHighHalf (n : Nat) : Bool := 0xd800 ≤ n && n ≤ 0xdbff

/-- Whether a code unit is the second half of a pair. -/
def isLowHalf (n : Nat) : Bool := 0xdc00 ≤ n && n ≤ 0xdfff

/-- The text of the parts of a string, unless half a pair is among them. -/
def piecesText? : List Piece → Option (List Char)
  | [] => some []
  | .char c :: rest => (piecesText? rest).map (c :: ·)
  | .codeUnit n :: .codeUnit m :: rest =>
    if isHighHalf n then
      if isLowHalf m then
        (piecesText? rest).map
          (Char.ofNat (0x10000 + (n - 0xd800) * 0x400 + (m - 0xdc00)) :: ·)
      else none
    else if isLowHalf n then none
    else (piecesText? (.codeUnit m :: rest)).map (Char.ofNat n :: ·)
  | .codeUnit n :: rest =>
    if isHighHalf n || isLowHalf n then none
    else (piecesText? rest).map (Char.ofNat n :: ·)

/-- An optional sign, true for minus. -/
def takeSign : List Char → Bool × List Char
  | '-' :: rest => (true, rest)
  | '+' :: rest => (false, rest)
  | rest => (false, rest)

/-- The sign and digits of an exponent, if its letter comes next. -/
def scanExponent : List Char → Option (Option (Bool × List Char) × List Char)
  | [] => some (none, [])
  | c :: rest =>
    if c = 'e' ∨ c = 'E' then
      let (negative, rest) := takeSign rest
      let digits := rest.takeWhile Char.isDigit
      if digits.isEmpty then none
      else some (some (negative, digits), rest.dropWhile Char.isDigit)
    else some (none, c :: rest)

/-- The digits of a fraction, if a point comes next. -/
def scanFraction : List Char → Option (Option (List Char) × List Char)
  | '.' :: rest =>
    let digits := rest.takeWhile Char.isDigit
    if digits.isEmpty then none else some (some digits, rest.dropWhile Char.isDigit)
  | rest => some (none, rest)

/-- A number without its sign. A leading zero stands alone. -/
def scanUnsigned (negative : Bool) (chars : List Char) : Option (NumberLexeme × List Char) :=
  match chars.takeWhile Char.isDigit with
  | [] => none
  | '0' :: _ :: _ => none
  | whole => do
    let (fraction, rest) ← scanFraction (chars.dropWhile Char.isDigit)
    let (exponent, rest) ← scanExponent rest
    return (⟨negative, whole, fraction, exponent⟩, rest)

/-- The blanks of JSON. -/
def isJsonBlank (c : Char) : Bool :=
  c == ' ' || c == '\t' || c == '\n' || c == '\r'

/-- A string after its opening quote. -/
def scanQuoted (rest : List Char) : Option (JsonToken × List Char) := do
  let (pieces, left) ← scanString rest
  return (.string ((piecesText? pieces).map String.ofList), left)

/-- The first token of text that begins with one. -/
def scan : List Char → Option (JsonToken × List Char)
  | '[' :: rest => some (.openArray, rest)
  | ']' :: rest => some (.closeArray, rest)
  | '\x7b' :: rest => some (.openObject, rest)
  | '\x7d' :: rest => some (.closeObject, rest)
  | ',' :: rest => some (.comma, rest)
  | ':' :: rest => some (.colon, rest)
  | 'n' :: 'u' :: 'l' :: 'l' :: rest => some (.null, rest)
  | 't' :: 'r' :: 'u' :: 'e' :: rest => some (.bool true, rest)
  | 'f' :: 'a' :: 'l' :: 's' :: 'e' :: rest => some (.bool false, rest)
  | '"' :: rest => scanQuoted rest
  | '-' :: rest => (scanUnsigned true rest).map fun (lexeme, left) => (.number lexeme, left)
  | chars => (scanUnsigned false chars).map fun (lexeme, left) => (.number lexeme, left)

/-- What follows a string is shorter than the string with it. -/
theorem length_of_scanString {chars : List Char} {pieces : List Piece} {left : List Char}
    (h : scanString chars = some (pieces, left)) : left.length < chars.length := by
  fun_induction scanString chars generalizing pieces left with
  | case1 => simp at h
  | case2 rest =>
    simp only [Option.some.injEq, Prod.mk.injEq] at h
    rw [← h.2]
    simp
  | case3 a b c d rest ih =>
    simp only [Option.bind_eq_bind, Option.bind_eq_some_iff, Option.pure_def, Option.some.injEq,
      Prod.mk.injEq] at h
    obtain ⟨_, _, ⟨ps, l⟩, hs, _, rfl⟩ := h
    have := ih hs
    simp only [List.length_cons]
    omega
  | case4 e rest _ ih =>
    simp only [Option.bind_eq_bind, Option.bind_eq_some_iff, Option.pure_def, Option.some.injEq,
      Prod.mk.injEq] at h
    obtain ⟨_, _, ⟨ps, l⟩, hs, _, rfl⟩ := h
    have := ih hs
    simp only [List.length_cons]
    omega
  | case5 => simp at h
  | case6 c rest _ _ _ _ ih =>
    simp only [Option.bind_eq_bind, Option.bind_eq_some_iff, Option.pure_def, Option.some.injEq,
      Prod.mk.injEq] at h
    obtain ⟨⟨ps, l⟩, hs, _, rfl⟩ := h
    have := ih hs
    simp only [List.length_cons]
    omega

/-- What is left after a run of digits is no longer than before. -/
theorem length_dropWhile_le (p : Char → Bool) (chars : List Char) :
    (chars.dropWhile p).length ≤ chars.length := by
  induction chars with
  | nil => simp
  | cons c rest ih =>
    simp only [List.dropWhile_cons]
    split
    · exact Nat.le_succ_of_le ih
    · exact Nat.le_refl _

/-- A fraction takes nothing away but itself. -/
theorem length_of_scanFraction {chars left : List Char} {fraction : Option (List Char)}
    (h : scanFraction chars = some (fraction, left)) : left.length ≤ chars.length := by
  unfold scanFraction at h
  split at h
  · rename_i rest
    simp only at h
    split at h
    · simp at h
    · simp only [Option.some.injEq, Prod.mk.injEq] at h
      rw [← h.2]
      exact Nat.le_succ_of_le (length_dropWhile_le _ _)
  · simp only [Option.some.injEq, Prod.mk.injEq] at h
    exact Nat.le_of_eq (congrArg List.length h.2.symm)

/-- A sign is at most one character. -/
theorem length_takeSign_le (chars : List Char) : (takeSign chars).2.length ≤ chars.length := by
  unfold takeSign
  split <;> simp

/-- An exponent takes nothing away but itself. -/
theorem length_of_scanExponent {chars left : List Char} {exponent : Option (Bool × List Char)}
    (h : scanExponent chars = some (exponent, left)) : left.length ≤ chars.length := by
  unfold scanExponent at h
  split at h
  · simp only [Option.some.injEq, Prod.mk.injEq] at h
    exact Nat.le_of_eq (congrArg List.length h.2.symm)
  · rename_i c rest
    split at h
    · simp only at h
      split at h
      · simp at h
      · simp only [Option.some.injEq, Prod.mk.injEq] at h
        rw [← h.2]
        have hdigits := length_dropWhile_le Char.isDigit (takeSign rest).2
        have hsign := length_takeSign_le rest
        simp only [List.length_cons]
        omega
    · simp only [Option.some.injEq, Prod.mk.injEq] at h
      exact Nat.le_of_eq (congrArg List.length h.2.symm)

/-- A run of digits that is not empty makes what is left shorter. -/
theorem length_dropWhile_lt {p : Char → Bool} {chars : List Char} (h : chars.takeWhile p ≠ []) :
    (chars.dropWhile p).length < chars.length := by
  cases chars with
  | nil => simp at h
  | cons c rest =>
    by_cases hc : p c = true
    · simp only [List.dropWhile_cons, hc, if_true, List.length_cons]
      exact Nat.lt_succ_of_le (length_dropWhile_le p rest)
    · simp [hc] at h

/-- A number has at least one character. -/
theorem length_of_scanUnsigned {negative : Bool} {chars left : List Char} {lexeme : NumberLexeme}
    (h : scanUnsigned negative chars = some (lexeme, left)) : left.length < chars.length := by
  unfold scanUnsigned at h
  split at h
  · simp at h
  · simp at h
  · rename_i hne _
    simp only [Option.bind_eq_bind, Option.bind_eq_some_iff, Option.pure_def, Option.some.injEq,
      Prod.mk.injEq] at h
    obtain ⟨⟨fraction, rest⟩, hfraction, ⟨exponent, rest'⟩, hexponent, _, rfl⟩ := h
    dsimp only at hexponent ⊢
    have := length_of_scanFraction hfraction
    have := length_of_scanExponent hexponent
    have : (chars.dropWhile Char.isDigit).length < chars.length := length_dropWhile_lt hne
    omega

/-- A token has at least one character. -/
theorem length_of_scan {chars left : List Char} {token : JsonToken}
    (h : scan chars = some (token, left)) : left.length < chars.length := by
  unfold scan at h
  split at h
  case h_10 rest =>
    simp only [scanQuoted, Option.bind_eq_bind, Option.bind_eq_some_iff, Option.pure_def,
      Option.some.injEq, Prod.mk.injEq] at h
    obtain ⟨⟨pieces, l⟩, hs, _, rfl⟩ := h
    exact Nat.lt_succ_of_lt (length_of_scanString hs)
  case h_11 rest =>
    simp only [Option.map_eq_some_iff, Prod.mk.injEq] at h
    obtain ⟨⟨lexeme, l⟩, hs, _, rfl⟩ := h
    exact Nat.lt_succ_of_lt (length_of_scanUnsigned hs)
  case h_12 =>
    simp only [Option.map_eq_some_iff, Prod.mk.injEq] at h
    obtain ⟨⟨lexeme, l⟩, hs, _, rfl⟩ := h
    exact length_of_scanUnsigned hs
  all_goals
    simp only [Option.some.injEq, Prod.mk.injEq] at h
    rw [← h.2]
    simp only [List.length_cons]
    omega

/-- The tokens of a text, which must be nothing but tokens and blanks. -/
def tokens (chars : List Char) : Option (List JsonToken) :=
  match chars with
  | [] => some []
  | c :: rest =>
    if isJsonBlank c then tokens rest
    else
      match _h : scan (c :: rest) with
      | none => none
      | some (token, left) => (tokens left).map (token :: ·)
termination_by chars.length
decreasing_by
  · exact Nat.lt_succ_self _
  · exact length_of_scan _h

end JsonToken

end ChartScript
