import ChartScript.Proofs.Number.Spelling
import ChartScript.Proofs.Script.ReadBack
import ChartScript.Proofs.Text.Parts

/-!
# Inert parts of a script

A few characters change how a script reads what follows them: quotes of all kinds, the slash that
begins a comment, the backslash, and the bracket that opens a tag. Text without them is inert. The
numbers, dates, keys and names that a script is made of are such text.
-/

namespace ChartScript

namespace Text

/-- Whether a character opens a literal, a comment, an escape or a tag. -/
def opens (c : Char) : Bool :=
  c == '"' || c == '\'' || c == '\x60' || c == '/' || c == '\\' || c == '<'

/-- Text in which nothing is opened. -/
def Inert (chars : List Char) : Prop :=
  ∀ c ∈ chars, opens c = false

instance (chars : List Char) : Decidable (Inert chars) :=
  List.decidableBAll _ chars

variable {chars rest : List Char}

/-- Two parts are inert when each is. -/
theorem inert_append : Inert (chars ++ rest) ↔ Inert chars ∧ Inert rest :=
  List.forall_mem_append

/-- A first character and the rest are inert when each is. -/
theorem inert_cons {c : Char} : Inert (c :: rest) ↔ opens c = false ∧ Inert rest :=
  List.forall_mem_cons

/-- Inert text has no bracket. -/
theorem Inert.bracket_not_mem (h : Inert chars) : '<' ∉ chars :=
  fun hmem => absurd (h '<' hmem) (by decide)

/-- What an identifier is made of is inert. -/
theorem inert_of_identifierTail (h : ∀ c ∈ chars, identifierTail c = true) : Inert chars := by
  intro c hc
  by_contra hopens
  have htail := h c hc
  simp only [opens, Bool.not_eq_false, Bool.or_eq_true, beq_iff_eq] at hopens
  rcases hopens with ((((rfl | rfl) | rfl) | rfl) | rfl) | rfl <;> exact absurd htail (by decide)

/-- Digits are inert. -/
theorem inert_of_isDigit (h : ∀ c ∈ chars, c.isDigit = true) : Inert chars :=
  inert_of_identifierTail fun c hc => by simp [identifierTail, Char.isAlphanum, h c hc]

/-- Text is inert part by part. -/
theorem partByPart_inert : PartByPart fun chars _ => Inert chars where
  nil := List.forall_mem_nil _
  append h hrest := inert_append.mpr ⟨h, hrest⟩

end Text

open Text

/-- Decimal digits are inert. -/
theorem inert_toDigits (n : Nat) : Inert (Nat.toDigits 10 n) :=
  inert_of_isDigit fun _ => Nat.isDigit_of_mem_toDigits (by decide) (by decide)

namespace PointedDigits

variable {p : PointedDigits}

/-- Digits with their point in place are inert. -/
theorem inert_inPlace (h : Inert p.digits) {mark : List Char} (hmark : Inert mark) :
    Inert (p.inPlace mark) := by
  have hzeros (n : Nat) : Inert (List.replicate n '0') :=
    fun c hc => by rw [(List.mem_replicate.mp hc).2]; decide
  unfold inPlace
  split
  · simp only [inert_cons, inert_append]
    exact ⟨by decide, by decide, hzeros _, h⟩
  · split
    · simp only [inert_append]
      exact ⟨⟨h, hzeros _⟩, hmark⟩
    · rw [inert_append, inert_cons]
      exact ⟨fun c hc => h c (List.mem_of_mem_take hc), by decide,
        fun c hc => h c (List.mem_of_mem_drop hc)⟩

/-- Digits with an exponent are inert. -/
theorem inert_scientific (h : Inert p.digits) : Inert p.scientific := by
  have hpower : Inert ('e' :: (if p.point - 1 < 0 then '-' else '+') ::
      Nat.toDigits 10 (p.point - 1).natAbs) := by
    refine inert_cons.mpr ⟨by decide, inert_cons.mpr ⟨?_, inert_toDigits _⟩⟩
    split <;> decide
  unfold scientific
  split
  · exact inert_cons.mpr ⟨by decide, hpower⟩
  · rename_i d hdigits
    rw [hdigits] at h
    exact inert_append.mpr ⟨h, hpower⟩
  · rename_i d rest _ hdigits
    rw [hdigits] at h
    obtain ⟨hd, hrest⟩ := inert_cons.mp h
    exact inert_cons.mpr ⟨hd, inert_cons.mpr ⟨by decide, inert_append.mpr ⟨hrest, hpower⟩⟩⟩

end PointedDigits

/-- A spelled magnitude is inert if the mark of whole numbers is. -/
theorem Magnitude.inert_spell {style : NumberStyle} (hmark : Inert style.wholeMark)
    (m : Magnitude) : Inert (m.spell style) := by
  have hdigits (d : Decimal) : Inert (PointedDigits.ofDecimal d).digits :=
    inert_of_isDigit fun _ => PointedDigits.isDigit_of_mem_ofDecimal
  unfold Magnitude.spell
  split
  · exact inert_cons.mpr ⟨by decide, hmark⟩
  · simp only
    split
    · exact PointedDigits.inert_inPlace (hdigits _) hmark
    · exact PointedDigits.inert_scientific (hdigits _)

/-- A spelled number is inert if the mark of whole numbers is. -/
theorem Binary64.inert_spell {style : NumberStyle} (hmark : Inert style.wholeMark)
    (x : Binary64) : Inert (x.spell style).toList := by
  cases x with
  | nan =>
    rw [Binary64.spell]
    decide
  | infinite negative =>
    rw [Binary64.spell]
    cases negative <;> decide
  | finite negative m =>
    have hspell := m.inert_spell hmark
    rw [Binary64.spell, String.toList_ofList]
    cases negative
    · exact hspell
    · exact inert_cons.mpr ⟨by decide, hspell⟩

/-- A whole number is inert. -/
theorem inert_repr (n : Int) : Inert n.repr.toList := by
  have hdigits (k : Nat) : Inert k.repr.toList := by
    rw [Nat.toList_repr]
    exact inert_toDigits k
  cases n with
  | ofNat k => exact hdigits k
  | negSucc k =>
    change Inert ("-" ++ Nat.repr (k + 1)).toList
    rw [String.toList_append]
    exact inert_append.mpr ⟨by decide, hdigits (k + 1)⟩

/-- Arguments are inert. -/
theorem inert_argumentList (numbers : List Int) : Inert (argumentList numbers).toList := by
  refine partByPart_inert.intercalate (by decide) (List.forall₂_same.mpr fun part hpart => ?_)
  obtain ⟨n, _, rfl⟩ := List.mem_map.mp hpart
  exact inert_repr n

/-- The call that makes a date is inert. -/
theorem inert_dateCall (arguments : List Int) : Inert (dateCall arguments).toList := by
  rw [dateCall, String.toList_append, String.toList_append]
  exact inert_append.mpr ⟨inert_append.mpr ⟨by decide, inert_argumentList arguments⟩, by decide⟩

/-- A key that can be read back is inert. -/
theorem Key.Readable.inert {key : Key} (h : key.Readable) : Inert key.chars := by
  cases key with
  | field name =>
    obtain ⟨_, _, _, _, _, hall⟩ := identifierTail_of_isIdentifier h
    exact inert_of_identifierTail hall
  | label number => exact inert_toDigits _

/-- A JSON number is inert. -/
theorem JsonNumber.inert_spell (value : JsonNumber) : Inert value.spell.toList := by
  cases value with
  | integer n => exact inert_repr n
  | float negative m => exact Binary64.inert_spell (by decide) _

end ChartScript
