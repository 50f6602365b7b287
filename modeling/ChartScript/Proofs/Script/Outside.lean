import ChartScript.Proofs.Script.Inert
import ChartScript.Proofs.Script.QuotedLiteral

/-!
# Outside of string literals

What a script shows of a text outside of its string literals: the text with nothing left between the
quotes of a literal. Inert text shows itself, and quoted text shows a pair of quotes, whatever was
quoted. What parts show does not depend on what follows them, so it is put together as the parts
are, and two texts that differ in what is quoted alone show the same.
-/

namespace ChartScript

open Text

namespace StringLiteral

/-- What is shown outside of string literals: each literal is left with its quotes only. A quote
that no other quote closes is shown with all that follows. -/
def outside (chars : List Char) : List Char :=
  match chars with
  | [] => []
  | '"' :: rest =>
    match _hread : read? rest with
    | some (_, left) => '"' :: '"' :: outside left
    | none => '"' :: rest
  | c :: rest => c :: outside rest
termination_by chars.length
decreasing_by
  · obtain ⟨source, rfl, _⟩ := exists_source_of_read? _hread
    simp only [List.length_cons, List.length_append]
    omega
  · simp

/-- A literal shows its quotes. -/
theorem outside_literal {rest left : List Char} {said : List Nat}
    (h : read? rest = some (said, left)) : outside ('"' :: rest) = '"' :: '"' :: outside left := by
  rw [outside]
  split
  · rename_i hread
    obtain ⟨_, rfl⟩ := Prod.mk.inj (Option.some.inj (h.symm.trans hread))
    rfl
  · rename_i hread
    rw [h] at hread
    cases hread

/-- Any character but a quote is shown. -/
theorem outside_cons {c : Char} (h : c ≠ '"') (rest : List Char) :
    outside (c :: rest) = c :: outside rest := by
  rw [outside]
  exact h

end StringLiteral

open StringLiteral

/-- What a text shows outside of its string literals, whatever follows it. -/
def Shows (chars shown : List Char) : Prop :=
  ∀ rest, outside (chars ++ rest) = shown ++ outside rest

namespace Shows

variable {chars shown chars' shown' : List Char}

/-- By itself, the text shows just that. -/
theorem outside_eq (h : Shows chars shown) : outside chars = shown := by
  have hnil := h []
  rwa [outside, List.append_nil, List.append_nil] at hnil

/-- Two parts show what each does. -/
theorem append (h : Shows chars shown) (h' : Shows chars' shown') :
    Shows (chars ++ chars') (shown ++ shown') := by
  intro rest
  rw [List.append_assoc, h, h', List.append_assoc]

/-- What a text shows after another is shown outside of the literals of both. -/
theorem infix_outside (h : Shows chars shown) (h' : Shows chars' shown') (rest : List Char) :
    shown' <:+: outside (chars ++ chars' ++ rest) := by
  rw [h.append h']
  exact ⟨shown, outside rest, rfl⟩

/-- Text without quotes shows itself. -/
theorem of_not_mem (h : '"' ∉ chars) : Shows chars chars := by
  intro rest
  induction chars with
  | nil => rfl
  | cons c chars ih =>
    obtain ⟨hc, hchars⟩ := not_or.mp (List.mem_cons.not.mp h)
    rw [List.cons_append, outside_cons (Ne.symm hc), ih hchars, List.cons_append]

/-- Bare text between quotes shows the quotes. -/
theorem bare {text : List Char} (h : Bare text) : Shows ('"' :: (text ++ ['"'])) ['"', '"'] := by
  intro rest
  rw [List.cons_append, List.append_assoc]
  exact outside_literal (read?_bare h rest)

/-- Quoted and guarded text shows its quotes. -/
theorem guarded_quote (text : String) : Shows (guardChars (quote text).toList) ['"', '"'] := by
  intro rest
  have hquote : guardChars (quote text).toList =
      '"' :: guardChars (text.toList.flatMap escapeChar ++ ['"']) := by
    rw [quote, String.toList_ofList, guardChars_cons_of_ne (by decide)]
  rw [hquote, List.cons_append, outside_literal (read?_guardChars text.toList rest)]
  rfl

end Shows

/-- Text in which nothing but a quote opens anything. -/
def QuotesOnly (chars : List Char) : Prop :=
  ∀ c ∈ chars, opens c = true → c = '"'

/-- A pair of quotes is no more than that. -/
theorem quotesOnly_pair : QuotesOnly ['"', '"'] := by
  intro c hc _
  rcases List.mem_pair.mp hc with rfl | rfl <;> rfl

/-- Two texts that show the same outside of their string literals, where nothing else is opened. -/
def Alike (chars chars' : List Char) : Prop :=
  ∃ shown, Shows chars shown ∧ Shows chars' shown ∧ QuotesOnly shown

namespace Alike

variable {chars chars' rest rest' : List Char}

/-- Texts are alike in both directions. -/
theorem symm (h : Alike chars chars') : Alike chars' chars := by
  obtain ⟨shown, h, h', honly⟩ := h
  exact ⟨shown, h', h, honly⟩

/-- Two texts are alike when both are like a third. -/
theorem trans (h : Alike chars rest) (h' : Alike rest chars') : Alike chars chars' := by
  obtain ⟨shown, hchars, hrest, honly⟩ := h
  obtain ⟨shown', hrest', hchars', _⟩ := h'
  obtain rfl := hrest.outside_eq.symm.trans hrest'.outside_eq
  exact ⟨shown, hchars, hchars', honly⟩

/-- Texts are alike when their parts are. -/
theorem append (h : Alike chars chars') (hrest : Alike rest rest') :
    Alike (chars ++ rest) (chars' ++ rest') := by
  obtain ⟨_, h, h', honly⟩ := h
  obtain ⟨_, hrest, hrest', honlyRest⟩ := hrest
  exact ⟨_, h.append hrest, h'.append hrest', List.forall_mem_append.mpr ⟨honly, honlyRest⟩⟩

/-- Inert text is like itself. -/
theorem of_inert (h : Inert chars) : Alike chars chars := by
  have hquote : '"' ∉ chars := fun hmem => absurd (h _ hmem) (by decide)
  refine ⟨chars, .of_not_mem hquote, .of_not_mem hquote, fun c hc hopens => ?_⟩
  rw [h c hc] at hopens
  cases hopens

/-- Quoted and guarded texts are alike, whatever they say. -/
theorem guarded_quote (text text' : String) :
    Alike (guardChars (quote text).toList) (guardChars (quote text').toList) :=
  ⟨_, .guarded_quote text, .guarded_quote text', quotesOnly_pair⟩

/-- So are string literals. -/
theorem scriptQuote (text text' : String) :
    Alike (scriptQuote text).toList (scriptQuote text').toList := by
  rw [Text.scriptQuote, Text.scriptQuote, guardTags, guardTags, String.toList_ofList,
    String.toList_ofList]
  exact guarded_quote text text'

end Alike

/-- Texts are alike part by part. -/
theorem partByPart_alike : PartByPart Alike where
  nil := .of_inert (List.forall_mem_nil _)
  append h hrest := h.append hrest

end ChartScript
