import ChartScript.Proofs.Script.Reader
import ChartScript.Proofs.Text.Identifier
import ChartScript.Proofs.Text.Parts
import ChartScript.Proofs.Text.Quoted

/-!
# Reading literals back

What the writer of literals writes, the reader reads back, whatever text and numbers are in it. Only
what a moment has beyond whole milliseconds is lost, since it is not written. The reader needs to
know where a literal ends: a number ends before a comma or a closing bracket, and everything else
says itself where it ends.
-/

namespace ChartScript

namespace TimeOfDay

/-- A time to the whole millisecond. -/
def rounded (t : TimeOfDay) : TimeOfDay where
  hour := t.hour
  minute := t.minute
  second := t.second
  nanos := t.millis * 1000000
  valid := by
    have h := t.valid
    have hle : t.millis * 1000000 ≤ t.nanos := Nat.div_mul_le_self t.nanos 1000000
    simp only [Calendar.isTime, Bool.and_eq_true, Bool.or_eq_true, decide_eq_true_eq,
      beq_iff_eq] at h ⊢
    omega

/-- A time to the whole millisecond is that of what is written of it. -/
theorem of?_rounded (t : TimeOfDay) :
    of? t.hour t.minute t.second (t.millis * 1000000) = some t.rounded :=
  dif_pos t.rounded.valid

end TimeOfDay

/-- A day is that of its arguments, whose months count from zero. -/
theorem Date.of?_arguments (d : Date) :
    Date.of? d.year ((d.month : Int) - 1 + 1).toNat d.day = some d := by
  have hmonth : ((d.month : Int) - 1 + 1).toNat = d.month := by omega
  rw [hmonth]
  exact dif_pos d.valid

/-- A moment to the whole millisecond. -/
def Moment.rounded (m : Moment) : Moment := ⟨m.date, m.time.rounded⟩

namespace Literal

mutual

/-- A literal with its moments to the whole millisecond. -/
def rounded : Literal → Literal
  | .moment value => .moment value.rounded
  | .array items => .array (roundedItems items)
  | .object members => .object (roundedMembers members)
  | l => l

/-- Items with their moments to the whole millisecond. -/
def roundedItems : List Literal → List Literal
  | [] => []
  | item :: rest => item.rounded :: roundedItems rest

/-- Members with their moments to the whole millisecond. -/
def roundedMembers : List (Key × Literal) → List (Key × Literal)
  | [] => []
  | (key, value) :: rest => (key, value.rounded) :: roundedMembers rest

end

end Literal

/-- A key that can be told from what follows it: a number, or a name that is an identifier. -/
def Key.Readable : Key → Prop
  | .field name => Text.isIdentifier name.toList = true
  | .label _ => True

/-- A literal in the grammar of the reader. -/
inductive Literal.Readable : Literal → Prop
  | null : Readable .null
  | bool (value : Bool) : Readable (.bool value)
  | number (negative : Bool) (m : Magnitude) : Readable (.number (.finite negative m))
  | text (value : String) : Readable (.text value)
  | moment (value : Moment) : Readable (.moment value)
  | array {items : List Literal} (h : ∀ item ∈ items, Readable item) : Readable (.array items)
  | object {members : List (Key × Literal)} (hkeys : ∀ member ∈ members, member.1.Readable)
    (hvalues : ∀ member ∈ members, Readable member.2) : Readable (.object members)

namespace LiteralReader

/-- Text that does not go on with what a character class takes. -/
def StopsFor (p : Char → Bool) (rest : List Char) : Prop :=
  ∀ c ∈ rest.head?, p c = false

/-- Text stops for a class where its first character is not in it. -/
theorem stopsFor_cons {p : Char → Bool} {c : Char} (h : p c = false) (rest : List Char) :
    StopsFor p (c :: rest) := by
  intro d hd
  cases hd
  exact h

/-- A run of characters of a class ends where the class does. -/
theorem span_append {p : Char → Bool} {chars rest : List Char} (hchars : ∀ c ∈ chars, p c = true)
    (hrest : StopsFor p rest) :
    (chars ++ rest).takeWhile p = chars ∧ (chars ++ rest).dropWhile p = rest := by
  have hstop : rest.takeWhile p = [] ∧ rest.dropWhile p = rest := by
    cases rest with
    | nil => exact ⟨rfl, rfl⟩
    | cons c rest =>
      have hc : p c = false := hrest c rfl
      exact ⟨List.takeWhile_cons_of_neg (by simp [hc]), List.dropWhile_cons_of_neg (by simp [hc])⟩
  rw [List.takeWhile_append_of_pos hchars, List.dropWhile_append_of_pos hchars, hstop.1, hstop.2,
    List.append_nil]
  exact ⟨rfl, rfl⟩

/-- The end of a text, or a comma or closing bracket after a literal. -/
def Ends (rest : List Char) : Prop :=
  ∀ c ∈ rest.head?, c = ',' ∨ c = ']' ∨ c = '\x7d'

/-- A comma or a closing bracket ends a literal. -/
theorem ends_cons {c : Char} (h : c = ',' ∨ c = ']' ∨ c = '\x7d') (rest : List Char) :
    Ends (c :: rest) := by
  intro d hd
  cases hd
  exact h

/-- No digit follows where a literal ends. -/
theorem Ends.stopsFor_isDigit {rest : List Char} (h : Ends rest) : StopsFor Char.isDigit rest := by
  intro c hc
  rcases h c hc with rfl | rfl | rfl <;> rfl

/-- No point follows where a literal ends. -/
theorem Ends.fraction_eq {rest : List Char} (h : Ends rest) : fraction rest = ([], rest) := by
  unfold fraction
  split
  · rcases h '.' rfl with hpoint | hpoint | hpoint <;> exact absurd hpoint (by decide)
  · rfl

/-- Decimal text is read as what it says. -/
theorem number?_append {text whole fraction rest : List Char} {m : Magnitude} (negative : Bool)
    (htext : DecimalText text whole fraction)
    (hvalue : Magnitude.ofDecimalDigits? whole fraction = some m) (hrest : Ends rest) :
    number? negative (text ++ rest) = some (.number (.finite negative m), rest) := by
  have hempty : whole.isEmpty = false := by
    simpa using htext.whole_ne_nil
  unfold number?
  rcases htext.layout with rfl | ⟨rfl, rfl⟩
  · have hpoint : StopsFor Char.isDigit ('.' :: (fraction ++ rest)) := stopsFor_cons rfl _
    obtain ⟨htake, hdrop⟩ := span_append htext.whole_digits hpoint
    obtain ⟨htake', hdrop'⟩ := span_append htext.fraction_digits hrest.stopsFor_isDigit
    simp only [List.append_assoc, List.cons_append, htake, hdrop, LiteralReader.fraction, htake',
      hdrop', hempty, hvalue]
    rfl
  · obtain ⟨htake, hdrop⟩ := span_append htext.whole_digits hrest.stopsFor_isDigit
    simp only [htake, hdrop, hrest.fraction_eq, hempty, hvalue]
    rfl

/-- Quoted text is read as the text. -/
theorem text?_append (value : String) (rest : List Char) :
    ∃ inside, (Text.scriptQuote value).toList = '"' :: inside ∧
      text? (inside ++ rest) = some (.text value, rest) := by
  refine ⟨Text.guardChars (value.toList.flatMap Text.escapeChar ++ ['"']), ?_, ?_⟩
  · have hquote : Text.guardChars (['"'] ++ (value.toList.flatMap Text.escapeChar ++ ['"'])) =
        ['"'] ++ Text.guardChars (value.toList.flatMap Text.escapeChar ++ ['"']) :=
      Text.guardChars_append (by decide) _
    rw [Text.scriptQuote, Text.guardTags, Text.quote, String.toList_ofList, String.toList_ofList]
    exact hquote
  · rw [text?, Text.scanString_guardChars]
    simp only [Option.bind_eq_bind, Option.bind_some, Text.piecesText?_map_pieceOf,
      String.ofList_toList]
    rfl

/-- A number is written in digits. -/
theorem isDigit_of_mem_toDigits (n : Nat) : ∀ c ∈ Nat.toDigits 10 n, c.isDigit = true :=
  fun _ hc => Nat.isDigit_of_mem_toDigits (by decide) (by decide) hc

/-- The digits of a number are read as the number. -/
theorem span_toDigits (n : Nat) {rest : List Char} (hrest : StopsFor Char.isDigit rest) :
    Nat.ofDigitChars 10 ((Nat.toDigits 10 n ++ rest).takeWhile Char.isDigit) 0 = n ∧
      (Nat.toDigits 10 n ++ rest).dropWhile Char.isDigit = rest := by
  obtain ⟨htake, hdrop⟩ := span_append (isDigit_of_mem_toDigits n) hrest
  exact ⟨by rw [htake, Nat.ofDigitChars_ten_toDigits], hdrop⟩

/-- A number begins with a digit. -/
theorem exists_toDigits_cons (n : Nat) :
    ∃ c digits, Nat.toDigits 10 n = c :: digits ∧ c.isDigit = true := by
  cases hchars : Nat.toDigits 10 n with
  | nil => exact absurd hchars Nat.toDigits_ne_nil
  | cons c digits =>
    have hc : c ∈ Nat.toDigits 10 n := by
      rw [hchars]
      exact List.mem_cons_self
    exact ⟨c, digits, rfl, isDigit_of_mem_toDigits n c hc⟩

/-- A whole number is read as it is. -/
theorem integer?_append (n : Int) {rest : List Char} (hrest : StopsFor Char.isDigit rest) :
    integer? (n.repr.toList ++ rest) = some (n, rest) := by
  cases n with
  | ofNat k =>
    obtain ⟨hvalue, hleft⟩ := span_toDigits k hrest
    have hchars : (Int.ofNat k).repr.toList = Nat.toDigits 10 k := Nat.toList_repr
    rw [hchars, integer?, hvalue, hleft]
    · rfl
    · intro chars hminus
      obtain ⟨c, digits, hcons, hc⟩ := exists_toDigits_cons k
      rw [hcons, List.cons_append, List.cons.injEq] at hminus
      rw [hminus.1] at hc
      cases hc
  | negSucc k =>
    obtain ⟨hvalue, hleft⟩ := span_toDigits (k + 1) hrest
    have hchars : (Int.negSucc k).repr.toList = '-' :: Nat.toDigits 10 (k + 1) := by
      change ("-" ++ Nat.repr (k + 1)).toList = _
      rw [String.toList_append, Nat.toList_repr]
      rfl
    rw [hchars, List.cons_append, integer?, hvalue, hleft]
    rfl

/-- A further argument is read as it is. -/
theorem argument?_append (n : Int) {rest : List Char} (hrest : StopsFor Char.isDigit rest) :
    argument? (',' :: ' ' :: (n.repr.toList ++ rest)) = some (n, rest) := by
  rw [argument?, integer?_append n hrest]

/-- Arguments are written one by one, each but the first after a comma and a blank. -/
theorem toList_argumentList (n : Int) (numbers : List Int) :
    (argumentList (n :: numbers)).toList =
      n.repr.toList ++ numbers.flatMap fun k => ',' :: ' ' :: k.repr.toList := by
  rw [argumentList, List.map_cons, Text.toList_intercalate_cons, List.flatMap_map]
  rfl

/-- A date is written as its call, with the arguments in brackets. -/
theorem toList_dateCall_append (numbers : List Int) (rest : List Char) :
    (dateCall numbers).toList ++ rest =
      "new Date(".toList ++ ((argumentList numbers).toList ++ ')' :: rest) := by
  rw [dateCall, String.toList_append, String.toList_append, List.append_assoc, List.append_assoc]
  rfl

/-- The end of a date is read with the milliseconds, which are zero where they are left out. -/
theorem millis?_append (millis : Nat) (rest : List Char) :
    millis? ((if millis = 0 then [] else [(millis : Int)]).flatMap
      (fun k => ',' :: ' ' :: k.repr.toList) ++ ')' :: rest) = some ((millis : Int), rest) := by
  by_cases hmillis : millis = 0
  · rw [hmillis, if_pos rfl]
    rfl
  · have hclose : StopsFor Char.isDigit (')' :: rest) := stopsFor_cons rfl rest
    rw [if_neg hmillis, List.flatMap_cons, List.flatMap_nil, List.append_nil, List.cons_append,
      List.cons_append, millis?, argument?_append _ hclose]
    · rfl
    · exact nofun

/-- A date is read to the whole millisecond. -/
theorem moment?_append (m : Moment) (rest : List Char) :
    ∃ inside, (dateCall m.arguments).toList = "new Date(".toList ++ inside ∧
      moment? (inside ++ rest) = some (.moment m.rounded, rest) := by
  refine ⟨(argumentList m.arguments).toList ++ [')'], ?_, ?_⟩
  · rw [← List.append_nil (dateCall m.arguments).toList, toList_dateCall_append]
  · have hcomma (chars : List Char) : StopsFor Char.isDigit (',' :: chars) :=
      stopsFor_cons rfl chars
    have hmillis : StopsFor Char.isDigit
        ((if m.time.millis = 0 then [] else [(m.time.millis : Int)]).flatMap
          (fun k => ',' :: ' ' :: k.repr.toList) ++ ')' :: rest) := by
      split <;> exact stopsFor_cons rfl _
    rw [Moment.arguments, Date.arguments, List.cons_append, List.cons_append, toList_argumentList]
    simp only [List.cons_append, List.nil_append, List.flatMap_cons, List.append_assoc]
    rw [moment?, integer?_append _ (hcomma _)]
    simp only [Option.bind_eq_bind, Option.bind_some, argument?_append _ (hcomma _)]
    rw [argument?_append _ hmillis]
    simp only [Option.bind_some, millis?_append, Int.toNat_natCast,
      m.date.of?_arguments, m.time.of?_rounded]
    rfl

/-- A key is read up to its colon. -/
theorem key?_append {key : Key} (h : key.Readable) (rest : List Char) :
    key? (key.chars ++ ':' :: rest) = some (key, ':' :: rest) := by
  cases key with
  | label number =>
    obtain ⟨c, digits, hcons, hc⟩ := exists_toDigits_cons number.toNat
    have hstop : StopsFor Char.isDigit (':' :: rest) := stopsFor_cons rfl rest
    have hdigits := isDigit_of_mem_toDigits number.toNat
    obtain ⟨htake, hdrop⟩ := span_append hdigits hstop
    have hlabel : Label.ofDigits? (Nat.toDigits 10 number.toNat) = some number := by
      have hall : (Nat.toDigits 10 number.toNat).all Char.isDigit = true :=
        List.all_eq_true.mpr hdigits
      have hempty : (Nat.toDigits 10 number.toNat).isEmpty = false := by
        rw [hcons]
        rfl
      rw [Label.ofDigits?, hall, hempty, Nat.ofDigitChars_ten_toDigits]
      simp [number.toNat_lt]
    rw [Key.chars]
    rw [hcons] at htake hdrop hlabel ⊢
    rw [List.cons_append] at htake hdrop ⊢
    rw [key?, if_pos hc, htake, hdrop, hlabel]
    rfl
  | field name =>
    obtain ⟨c, tail, hcons, hdigit, hhead, hall⟩ := Text.identifierTail_of_isIdentifier h
    have hstop : StopsFor Text.identifierTail (':' :: rest) := stopsFor_cons rfl rest
    obtain ⟨htake, hdrop⟩ := span_append hall hstop
    have hname : String.ofList (c :: tail) = name := by
      rw [← hcons, String.ofList_toList]
    rw [Key.chars]
    rw [hcons] at htake hdrop ⊢
    rw [List.cons_append] at htake hdrop ⊢
    rw [key?, hdigit, if_neg Bool.false_ne_true, if_pos hhead, htake, hdrop, hname]

/-- A finite number is written as its sign and its magnitude. -/
theorem toList_text_finite (negative : Bool) (m : Magnitude) :
    (Binary64.finite negative m).text.toList =
      if negative then '-' :: m.spell .script else m.spell .script := by
  rw [Binary64.text, Binary64.spell, String.toList_ofList]

/-- What begins with a digit is read as a number. -/
theorem literal?_digit {c : Char} (hc : c.isDigit = true) (bound : Nat) (chars : List Char) :
    literal? (bound + 1) (c :: chars) = number? false (c :: chars) := by
  have hne {d : Char} (hd : d.isDigit = false) {rest : List Char} : c :: chars ≠ d :: rest := by
    intro heq
    rw [(List.cons.inj heq).1, hd] at hc
    cases hc
  rw [literal?, word?]
  all_goals exact fun _ => hne rfl

/-- A magnitude begins with a digit. -/
theorem exists_spell_cons (m : Magnitude) :
    ∃ c chars, m.spell .script = c :: chars ∧ c.isDigit = true := by
  obtain ⟨whole, fraction, htext, _⟩ := m.exists_decimalText_spell
  obtain ⟨c, digits, hwhole⟩ := List.exists_cons_of_ne_nil htext.whole_ne_nil
  have hc : c.isDigit = true := htext.whole_digits c (by rw [hwhole]; exact List.mem_cons_self)
  rcases htext.layout with h | ⟨h, _⟩
  · exact ⟨c, digits ++ '.' :: fraction, by rw [h, hwhole]; rfl, hc⟩
  · exact ⟨c, digits, by rw [h, hwhole], hc⟩

/-- A number is read as it was written. -/
theorem literal?_number (negative : Bool) (m : Magnitude) (bound : Nat) {rest : List Char}
    (hrest : Ends rest) :
    literal? (bound + 1) ((Literal.number (.finite negative m)).chars ++ rest) =
      some (.number (.finite negative m), rest) := by
  obtain ⟨whole, fraction, htext, hvalue⟩ := m.exists_decimalText_spell
  obtain ⟨c, chars, hcons, hc⟩ := exists_spell_cons m
  rw [Literal.chars, toList_text_finite]
  cases negative with
  | true =>
    rw [if_pos rfl, List.cons_append, literal?]
    exact number?_append true htext hvalue hrest
  | false =>
    rw [if_neg Bool.false_ne_true, hcons, List.cons_append, literal?_digit hc, ← List.cons_append,
      ← hcons]
    exact number?_append false htext hvalue hrest

/-- Something stands before the end of an array or of an object. -/
def Opens (chars : List Char) : Prop :=
  ∃ c rest, chars = c :: rest ∧ c ≠ ']' ∧ c ≠ '\x7d'

/-- What begins with something begins with it also when more follows. -/
theorem Opens.append {chars : List Char} (h : Opens chars) (rest : List Char) :
    Opens (chars ++ rest) := by
  obtain ⟨c, tail, rfl, hc⟩ := h
  exact ⟨c, tail ++ rest, rfl, hc⟩

/-- A readable literal is not the end of what it stands in. -/
theorem opens_chars {l : Literal} (h : l.Readable) : Opens l.chars := by
  cases h with
  | null => exact ⟨'n', _, rfl, by decide, by decide⟩
  | bool value => cases value <;> exact ⟨_, _, rfl, by decide, by decide⟩
  | number negative m =>
    obtain ⟨c, chars, hcons, hc⟩ := exists_spell_cons m
    rw [Literal.chars, toList_text_finite]
    cases negative with
    | true => exact ⟨'-', _, rfl, by decide, by decide⟩
    | false =>
      refine ⟨c, chars, hcons, ?_, ?_⟩ <;> rintro rfl <;> cases hc
  | text value =>
    obtain ⟨inside, hinside, _⟩ := text?_append value []
    rw [Literal.chars, hinside]
    exact ⟨'"', _, rfl, by decide, by decide⟩
  | moment value =>
    obtain ⟨inside, hinside, _⟩ := moment?_append value []
    rw [Literal.chars, hinside]
    exact ⟨'n', _, rfl, by decide, by decide⟩
  | @array items _ =>
    cases items <;> rw [Literal.chars] <;> exact ⟨'[', _, rfl, by decide, by decide⟩
  | @object members _ _ =>
    rcases members with _ | ⟨⟨key, value⟩, members⟩ <;> rw [Literal.chars] <;>
      exact ⟨'\x7b', _, rfl, by decide, by decide⟩

/-- A key is not the end of what it stands in. -/
theorem opens_keyChars {key : Key} (h : key.Readable) : Opens key.chars := by
  cases key with
  | label number =>
    obtain ⟨c, digits, hcons, hc⟩ := exists_toDigits_cons number.toNat
    refine ⟨c, digits, hcons, ?_, ?_⟩ <;> rintro rfl <;> cases hc
  | field name =>
    obtain ⟨c, tail, hcons, _, hhead, _⟩ := Text.identifierTail_of_isIdentifier h
    refine ⟨c, tail, hcons, ?_, ?_⟩ <;> rintro rfl <;> cases hhead

/-- One more item is read before the others. -/
theorem items?_cons (first : Bool) {bound : Nat} {chars chars' rest rest' : List Char}
    {item : Literal} {items : List Literal} (hopens : Opens chars)
    (hseparated : separated? first chars = some chars')
    (hitem : literal? bound chars' = some (item, rest))
    (hitems : items? false bound rest = some (items, rest')) :
    items? first (bound + 1) chars = some (item :: items, rest') := by
  obtain ⟨c, tail, rfl, hbracket, _⟩ := hopens
  rw [items?]
  · simp only [hseparated, hitem, hitems, Option.bind_eq_bind, Option.bind_some]
    rfl
  · intro _ heq
    exact absurd (List.cons.inj heq).1 hbracket

/-- One more member is read before the others. -/
theorem members?_cons (first : Bool) {bound : Nat} {chars chars' after rest rest' : List Char}
    {key : Key} {value : Literal} {members : List (Key × Literal)} (hopens : Opens chars)
    (hseparated : separated? first chars = some chars')
    (hkey : key? chars' = some (key, ':' :: after))
    (hvalue : literal? bound after = some (value, rest))
    (hmembers : members? false bound rest = some (members, rest')) :
    members? first (bound + 1) chars = some ((key, value) :: members, rest') := by
  obtain ⟨c, tail, rfl, _, hbrace⟩ := hopens
  rw [members?]
  · simp only [hseparated, hkey, colon?, hvalue, hmembers, Option.bind_eq_bind, Option.bind_some]
    rfl
  · intro _ heq
    exact absurd (List.cons.inj heq).1 hbrace

/-- What follows an item of an array ends it. -/
theorem ends_restChars (items : List Literal) (rest : List Char) :
    Ends (Literal.restChars items ++ ']' :: rest) := by
  cases items with
  | nil => exact ends_cons (.inr (.inl rfl)) rest
  | cons item items => exact ends_cons (.inl rfl) _

/-- What follows a member of an object ends it. -/
theorem ends_restMemberChars (members : List (Key × Literal)) (rest : List Char) :
    Ends (Literal.restMemberChars members ++ '\x7d' :: rest) := by
  rcases members with _ | ⟨⟨key, value⟩, members⟩
  · exact ends_cons (.inr (.inr rfl)) rest
  · exact ends_cons (.inl rfl) _

/-- A literal that holds no others is read as it was written. -/
theorem literal?_leaf {l : Literal} (h : l.Readable) (hitems : ∀ items, l ≠ .array items)
    (hmembers : ∀ members, l ≠ .object members) (bound : Nat) {rest : List Char}
    (hrest : Ends rest) : literal? (bound + 1) (l.chars ++ rest) = some (l.rounded, rest) := by
  cases h with
  | null => rfl
  | bool value => cases value <;> rfl
  | number negative m => exact literal?_number negative m bound hrest
  | text value =>
    obtain ⟨inside, hinside, hread⟩ := text?_append value rest
    rw [Literal.chars, hinside, List.cons_append, literal?]
    exact hread
  | moment value =>
    obtain ⟨inside, hinside, hread⟩ := moment?_append value rest
    rw [Literal.chars, hinside, List.append_assoc]
    exact hread
  | array h => exact absurd rfl (hitems _)
  | object hkeys hvalues => exact absurd rfl (hmembers _)

/-- A literal is read as it was written, wherever it may end. -/
def ReadsBack (l : Literal) : Prop :=
  ∀ bound rest, l.chars.length ≤ bound → Ends rest →
    literal? (bound + 1) (l.chars ++ rest) = some (l.rounded, rest)

/-- Further items are read as they were written, if each is. -/
theorem items?_restChars {items : List Literal} (h : ∀ item ∈ items, ReadsBack item) (bound : Nat)
    (hbound : (Literal.restChars items).length ≤ bound) (rest : List Char) :
    items? false (bound + 1) (Literal.restChars items ++ ']' :: rest) =
      some (Literal.roundedItems items, rest) := by
  induction items generalizing bound with
  | nil => rfl
  | cons item items ih =>
    obtain ⟨hitem, hitems⟩ := List.forall_mem_cons.mp h
    rw [Literal.restChars, List.length_cons, List.length_append] at hbound
    obtain ⟨bound, rfl⟩ : ∃ k, bound = k + 1 := Nat.exists_eq_add_one.mpr (by omega)
    rw [Literal.restChars, Literal.roundedItems, List.cons_append, List.append_assoc]
    exact items?_cons false ⟨',', _, rfl, by decide, by decide⟩ rfl
      (hitem bound _ (by omega) (ends_restChars items rest)) (ih hitems bound (by omega))

/-- Further members are read as they were written, if the value of each is. -/
theorem members?_restMemberChars {members : List (Key × Literal)}
    (hkeys : ∀ member ∈ members, member.1.Readable)
    (hvalues : ∀ member ∈ members, ReadsBack member.2) (bound : Nat)
    (hbound : (Literal.restMemberChars members).length ≤ bound) (rest : List Char) :
    members? false (bound + 1) (Literal.restMemberChars members ++ '\x7d' :: rest) =
      some (Literal.roundedMembers members, rest) := by
  induction members generalizing bound with
  | nil => rfl
  | cons member members ih =>
    obtain ⟨key, value⟩ := member
    obtain ⟨hkey, hkeys⟩ := List.forall_mem_cons.mp hkeys
    obtain ⟨(hvalue : ReadsBack value), hvalues⟩ := List.forall_mem_cons.mp hvalues
    rw [Literal.restMemberChars, List.length_cons, List.length_append, List.length_cons,
      List.length_append] at hbound
    obtain ⟨bound, rfl⟩ : ∃ k, bound = k + 1 := Nat.exists_eq_add_one.mpr (by omega)
    rw [Literal.restMemberChars, Literal.roundedMembers, List.cons_append, List.append_assoc,
      List.cons_append, List.append_assoc]
    exact members?_cons false ⟨',', _, rfl, by decide, by decide⟩ rfl (key?_append hkey _)
      (hvalue bound _ (by omega) (ends_restMemberChars members rest))
      (ih hkeys hvalues bound (by omega))

/-- An array is read as it was written, if each of its items is. -/
theorem readsBack_array {items : List Literal} (hreadable : ∀ item ∈ items, item.Readable)
    (h : ∀ item ∈ items, ReadsBack item) : ReadsBack (.array items) := by
  intro bound rest hbound _
  cases items with
  | nil =>
    rw [Literal.chars] at hbound
    obtain ⟨bound, rfl⟩ : ∃ k, bound = k + 1 :=
      Nat.exists_eq_add_one.mpr (Nat.lt_of_lt_of_le (by decide) hbound)
    rfl
  | cons item items =>
    obtain ⟨hitem, hitems⟩ := List.forall_mem_cons.mp h
    rw [Literal.chars, List.length_cons, List.length_append, List.length_append,
      List.length_singleton] at hbound
    obtain ⟨bound, rfl⟩ : ∃ k, bound = k + 2 := Nat.exists_eq_add_of_le' (by omega)
    have hopens : Opens item.chars := opens_chars (hreadable item List.mem_cons_self)
    have hread := items?_cons true (hopens.append (Literal.restChars items ++ ']' :: rest)) rfl
      (hitem bound _ (by omega) (ends_restChars items rest))
      (items?_restChars hitems bound (by omega) rest)
    rw [Literal.chars, List.cons_append, List.append_assoc, List.append_assoc,
      List.singleton_append, literal?, hread]
    rfl

/-- An object is read as it was written, if each of its values is. -/
theorem readsBack_object {members : List (Key × Literal)}
    (hkeys : ∀ member ∈ members, member.1.Readable)
    (hvalues : ∀ member ∈ members, ReadsBack member.2) : ReadsBack (.object members) := by
  intro bound rest hbound _
  rcases members with _ | ⟨⟨key, value⟩, members⟩
  · rw [Literal.chars] at hbound
    obtain ⟨bound, rfl⟩ : ∃ k, bound = k + 1 :=
      Nat.exists_eq_add_one.mpr (Nat.lt_of_lt_of_le (by decide) hbound)
    rfl
  · obtain ⟨hkey, hkeys⟩ := List.forall_mem_cons.mp hkeys
    obtain ⟨(hvalue : ReadsBack value), hvalues⟩ := List.forall_mem_cons.mp hvalues
    rw [Literal.chars, List.length_cons, List.length_append, List.length_cons, List.length_append,
      List.length_append, List.length_singleton] at hbound
    obtain ⟨bound, rfl⟩ : ∃ k, bound = k + 2 := Nat.exists_eq_add_of_le' (by omega)
    have hopens : Opens key.chars := opens_keyChars hkey
    have hread := members?_cons true (hopens.append _) rfl (key?_append hkey _)
      (hvalue bound _ (by omega) (ends_restMemberChars members rest))
      (members?_restMemberChars hkeys hvalues bound (by omega) rest)
    rw [Literal.chars, List.cons_append, List.append_assoc, List.cons_append, List.append_assoc,
      List.append_assoc, List.singleton_append, literal?, hread]
    rfl

/-- A readable literal is read as it was written. -/
theorem readsBack {l : Literal} (h : l.Readable) : ReadsBack l := by
  induction h with
  | array hitems ih => exact readsBack_array hitems ih
  | object hkeys _ ih => exact readsBack_object hkeys ih
  | null => exact fun bound _ _ => literal?_leaf .null nofun nofun bound
  | bool value => exact fun bound _ _ => literal?_leaf (.bool value) nofun nofun bound
  | number negative m => exact fun bound _ _ => literal?_leaf (.number negative m) nofun nofun bound
  | text value => exact fun bound _ _ => literal?_leaf (.text value) nofun nofun bound
  | moment value => exact fun bound _ _ => literal?_leaf (.moment value) nofun nofun bound

end LiteralReader

/-- A readable literal is read back from its text. -/
theorem Literal.Readable.read?_spell {l : Literal} (h : l.Readable) :
    Literal.read? l.spell = some l.rounded := by
  have hend : LiteralReader.Ends [] := nofun
  have hread := LiteralReader.readsBack h l.chars.length [] Nat.le.refl hend
  rw [List.append_nil] at hread
  rw [Literal.read?, Literal.spell, String.toList_ofList, hread]

end ChartScript
