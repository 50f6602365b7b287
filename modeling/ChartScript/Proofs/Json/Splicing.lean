import ChartScript.Proofs.Json.Printing

/-!
# JSON inside other JSON

A text that is one JSON value is read alike where it stands inside another text: its tokens come out
as they do when it stands alone, as long as no number at its end goes on in what follows, and the
machine that puts them together does not look at the frames that were open before. So wherever a
value is due, the text is read as its tree.
-/

namespace ChartScript

namespace JsonToken

open LiteralReader (StopsFor)

variable {chars rest left : List Char}

/-- A run of characters of a class is the same where text follows that stops for the class. -/
theorem span_append_of_stopsFor {p : Char → Bool} (hrest : StopsFor p rest) (chars : List Char) :
    (chars ++ rest).takeWhile p = chars.takeWhile p ∧
      (chars ++ rest).dropWhile p = chars.dropWhile p ++ rest := by
  induction chars with
  | nil =>
    obtain ⟨htake, hdrop⟩ := LiteralReader.span_append (List.forall_mem_nil _) hrest
    exact ⟨htake, hdrop⟩
  | cons c chars ih =>
    by_cases hc : p c = true
    · simp only [List.cons_append, List.takeWhile_cons_of_pos hc, List.dropWhile_cons_of_pos hc, ih]
      exact ⟨trivial, trivial⟩
    · simp only [List.cons_append, List.takeWhile_cons_of_neg hc, List.dropWhile_cons_of_neg hc]
      exact ⟨trivial, trivial⟩

/-- A string ends at its quote, whatever follows. -/
theorem scanString_append {pieces : List Piece} (h : scanString chars = some (pieces, left))
    (rest : List Char) : scanString (chars ++ rest) = some (pieces, left ++ rest) := by
  fun_induction scanString chars generalizing pieces left with
  | case1 => cases h
  | case2 tail =>
    cases h
    rfl
  | case3 a b c d tail ih =>
    obtain ⟨n, hn, h⟩ := Option.bind_eq_some_iff.mp h
    obtain ⟨⟨more, after⟩, hmore, h⟩ := Option.bind_eq_some_iff.mp h
    cases h
    simp only [List.cons_append]
    rw [scanString, hn, Option.bind_eq_bind, Option.bind_some, ih hmore]
    rfl
  | case4 e tail hescape ih =>
    obtain ⟨c, hc, h⟩ := Option.bind_eq_some_iff.mp h
    obtain ⟨⟨more, after⟩, hmore, h⟩ := Option.bind_eq_some_iff.mp h
    cases h
    have hne : e ≠ 'u' := by
      rintro rfl
      cases hc
    rw [List.cons_append, List.cons_append, Text.scanString_short hne hc, ih hmore]
    rfl
  | case5 => cases h
  | case6 c tail hquote hbackslash hescape hcontrol ih =>
    obtain ⟨⟨more, after⟩, hmore, h⟩ := Option.bind_eq_some_iff.mp h
    cases h
    have hne : c ≠ '\\' := by
      intro hc
      cases tail with
      | nil => cases hmore
      | cons d tail => exact hescape d tail hc rfl
    rw [List.cons_append, Text.scanString_plain hquote hne hcontrol, ih hmore]
    rfl

/-- A fraction ends where it does alone, if no number goes on in what follows. -/
theorem scanFraction_append {fraction : Option (List Char)} (hrest : StopsFor numberTail rest)
    (h : scanFraction chars = some (fraction, left)) :
    scanFraction (chars ++ rest) = some (fraction, left ++ rest) := by
  cases chars with
  | nil =>
    cases h
    exact scanFraction_of_stopsFor hrest
  | cons c tail =>
    by_cases hc : c = '.'
    · subst hc
      obtain ⟨htake, hdrop⟩ := span_append_of_stopsFor (stopsFor_isDigit hrest) tail
      rw [List.cons_append, scanFraction, htake, hdrop]
      rw [scanFraction] at h
      split at h
      · cases h
      · rename_i hdigits
        cases h
        exact if_neg hdigits
    · have hnone (after : List Char) : scanFraction (c :: after) = some (none, c :: after) := by
        rw [scanFraction]
        intro _ hcons
        exact hc (List.cons.inj hcons).1
      rw [hnone] at h
      cases h
      exact hnone _

/-- A sign is the same before other text. -/
theorem takeSign_append (hchars : chars ≠ []) (rest : List Char) :
    takeSign (chars ++ rest) = ((takeSign chars).1, (takeSign chars).2 ++ rest) := by
  cases chars with
  | nil => exact absurd rfl hchars
  | cons c tail =>
    by_cases hminus : c = '-'
    · subst hminus
      rfl
    · by_cases hplus : c = '+'
      · subst hplus
        rfl
      · have hnone (after : List Char) : takeSign (c :: after) = (false, c :: after) := by
          unfold takeSign
          split <;> simp_all
        rw [List.cons_append, hnone, hnone, List.cons_append]

/-- An exponent ends where it does alone, if no number goes on in what follows. -/
theorem scanExponent_append {exponent : Option (Bool × List Char)}
    (hrest : StopsFor numberTail rest) (h : scanExponent chars = some (exponent, left)) :
    scanExponent (chars ++ rest) = some (exponent, left ++ rest) := by
  cases chars with
  | nil =>
    cases h
    exact scanExponent_of_stopsFor hrest
  | cons c tail =>
    rw [scanExponent] at h
    rw [List.cons_append, scanExponent]
    by_cases hletter : c = 'e' ∨ c = 'E'
    · rw [if_pos hletter] at h ⊢
      have hne : tail ≠ [] := by
        rintro rfl
        cases h
      obtain ⟨htake, hdrop⟩ := span_append_of_stopsFor (stopsFor_isDigit hrest) (takeSign tail).2
      rw [takeSign_append hne]
      simp only [htake, hdrop] at h ⊢
      split at h
      · cases h
      · rename_i hdigits
        cases h
        exact if_neg hdigits
    · rw [if_neg hletter] at h ⊢
      cases h
      rfl

/-- A number ends where it does alone, if it does not go on in what follows. -/
theorem scanUnsigned_append {negative : Bool} {lexeme : NumberLexeme}
    (hrest : StopsFor numberTail rest) (h : scanUnsigned negative chars = some (lexeme, left)) :
    scanUnsigned negative (chars ++ rest) = some (lexeme, left ++ rest) := by
  obtain ⟨htake, hdrop⟩ := span_append_of_stopsFor (stopsFor_isDigit hrest) chars
  rw [scanUnsigned] at h ⊢
  rw [htake, hdrop]
  split at h
  · cases h
  · cases h
  · rename_i hnil hzero
    obtain ⟨⟨fraction, after⟩, hfraction, h⟩ := Option.bind_eq_some_iff.mp h
    obtain ⟨⟨exponent, last⟩, hexponent, h⟩ := Option.bind_eq_some_iff.mp h
    cases h
    rw [scanFraction_append hrest hfraction, Option.bind_eq_bind, Option.bind_some]
    simp only [scanExponent_append hrest hexponent]
    rfl

/-- A number without its sign begins with a digit. -/
theorem exists_digit_of_scanUnsigned {negative : Bool} {lexeme : NumberLexeme}
    (h : scanUnsigned negative chars = some (lexeme, left)) :
    ∃ c tail, chars = c :: tail ∧ c.isDigit = true := by
  cases chars with
  | nil => cases h
  | cons c tail =>
    refine ⟨c, tail, rfl, ?_⟩
    by_contra hc
    rw [scanUnsigned, List.takeWhile_cons_of_neg hc] at h
    cases h

/-- A token ends where it does alone, unless it is a number that goes on in what follows. -/
theorem scan_append {token : JsonToken} (hrest : StopsFor numberTail rest)
    (h : scan chars = some (token, left)) : scan (chars ++ rest) = some (token, left ++ rest) := by
  unfold scan at h
  split at h
  case h_10 tail =>
    obtain ⟨⟨pieces, after⟩, hpieces, h⟩ := Option.bind_eq_some_iff.mp h
    cases h
    rw [List.cons_append, scan, scanQuoted, scanString_append hpieces]
    rfl
  case h_11 tail =>
    obtain ⟨⟨lexeme, after⟩, hlexeme, h⟩ := Option.map_eq_some_iff.mp h
    cases h
    rw [List.cons_append, scan, scanUnsigned_append hrest hlexeme]
    rfl
  case h_12 =>
    obtain ⟨⟨lexeme, after⟩, hlexeme, h⟩ := Option.map_eq_some_iff.mp h
    cases h
    obtain ⟨c, tail, rfl, hc⟩ := exists_digit_of_scanUnsigned hlexeme
    rw [List.cons_append, scan_digit hc, ← List.cons_append, scanUnsigned_append hrest hlexeme]
    rfl
  all_goals
    cases h
    rfl

/-- The tokens of a text come first where other text follows, unless a number at its end goes on. -/
theorem tokens_append (hrest : StopsFor numberTail rest) {found : List JsonToken}
    (h : tokens chars = some found) :
    tokens (chars ++ rest) = (tokens rest).map (found ++ ·) := by
  fun_induction tokens chars generalizing found with
  | case1 =>
    cases h
    exact Option.map_id'.symm
  | case2 c tail hblank ih => rw [List.cons_append, tokens_blank hblank, ih h]
  | case3 c tail hblank hscan => cases h
  | case4 c tail hblank token left hscan ih =>
    obtain ⟨more, hmore, rfl⟩ := Option.map_eq_some_iff.mp h
    have happend : scan (c :: (tail ++ rest)) = some (token, left ++ rest) :=
      scan_append hrest hscan
    rw [List.cons_append, tokens_of_scan (Bool.eq_false_of_not_eq_true hblank) happend, ih hmore,
      Option.map_map]
    rfl

end JsonToken

namespace RawJson

open JsonToken
open LiteralReader (StopsFor)

/-- A state with further frames open below. -/
def State.over (bottom : List Frame) : State → State
  | .value stack => .value (stack ++ bottom)
  | .itemOrEnd stack => .itemOrEnd (stack ++ bottom)
  | .keyOrEnd stack => .keyOrEnd (stack ++ bottom)
  | .key done stack => .key done (stack ++ bottom)
  | .colon done name stack => .colon done name (stack ++ bottom)
  | .next found stack => .next found (stack ++ bottom)

/-- Where a value is due, a token is taken alike over further frames. -/
theorem begin_over {stack : List Frame} {token : JsonToken} {next : State}
    (h : begin stack token = some next) (bottom : List Frame) :
    begin (stack ++ bottom) token = some (next.over bottom) := by
  cases token <;> cases h <;> rfl

/-- A token is taken alike over further frames. -/
theorem step_over {state next : State} {token : JsonToken} (h : step state token = some next)
    (bottom : List Frame) : step (state.over bottom) token = some (next.over bottom) := by
  unfold step at h
  split at h
  case h_1 => exact begin_over h bottom
  case h_3 stack token hclose => exact ((Due.item _).step_eq hclose).trans (begin_over h bottom)
  case h_12 => cases h
  all_goals
    cases h
    rfl

/-- A run goes alike over further frames. -/
theorem run_over {state last : State} {tokens : List JsonToken} (h : run state tokens = some last)
    (bottom : List Frame) : run (state.over bottom) tokens = some (last.over bottom) := by
  induction tokens generalizing state with
  | nil =>
    cases h
    rfl
  | cons token rest ih =>
    obtain ⟨next, hstep, hrun⟩ := Option.bind_eq_some_iff.mp h
    rw [run, step_over hstep, Option.bind_some, ih hrun]

/-- Wherever a value is due, a text that is one value is read as its tree. -/
theorem feed_read? {text : String} {raw : RawJson} (h : read? text = some raw) (stack : List Frame)
    {rest : List Char} (hrest : StopsFor numberTail rest) :
    feed (.value stack) (text.toList ++ rest) = feed (.next raw stack) rest := by
  obtain ⟨found, hfound, h⟩ := Option.bind_eq_some_iff.mp h
  obtain ⟨last, hlast, h⟩ := Option.bind_eq_some_iff.mp h
  split at h
  · cases h
    have hover : run (.value stack) found = some (.next raw stack) := run_over hlast stack
    rw [feed, tokens_append hrest hfound, feed]
    cases tokens rest with
    | none => rfl
    | some more =>
      change run (.value stack) (found ++ more) = run (.next raw stack) more
      rw [run_append, hover, Option.bind_some]
  · cases h

end RawJson

end ChartScript
