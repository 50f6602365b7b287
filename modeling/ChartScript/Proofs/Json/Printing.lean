import ChartScript.Json.Printer
import ChartScript.Json.Raw
import ChartScript.Proofs.Script.ReadBack

/-!
# Reading printed JSON

The reader takes printed JSON apart into the tree that was printed, in both layouts. Tokens and the
machine that puts them together are looked at as one machine that takes characters: a blank does not
move it, the first token moves it by one step, and a printed value moves it from where the value is
due to where the value has been read. The last is proved by induction on the value, with what
follows as a variable, for a number ends only where no digit follows.

Numbers are integers here. How others are spelled is not the business of this module.
-/

namespace ChartScript

namespace JsonNumber

/-- The number is an integer of 64 bits, signed or unsigned. -/
def Is64Bit : JsonNumber → Prop
  | integer value => -2 ^ 63 ≤ value ∧ value < 2 ^ 64
  | float _ _ => False

/-- How an integer is written. A number that is none is not written this way. -/
def lexeme : JsonNumber → NumberLexeme
  | integer value => ⟨decide (value < 0), Nat.toDigits 10 value.natAbs, none, none⟩
  | float negative _ => ⟨negative, [], none, none⟩

end JsonNumber

/-- All numbers of a value are integers of 64 bits. -/
inductive Json.Integral : Json → Prop
  | null : Integral .null
  | bool (value : Bool) : Integral (.bool value)
  | number {value : JsonNumber} (h : value.Is64Bit) : Integral (.number value)
  | text (value : String) : Integral (.text value)
  | array {items : List Json} (h : ∀ item ∈ items, Integral item) : Integral (.array items)
  | object {members : List (String × Json)} (h : ∀ member ∈ members, Integral member.2) :
    Integral (.object members)

namespace Json

/-- Text holds no numbers. -/
@[simp]
theorem integral_text (value : String) : (text value).Integral := .text value

/-- True and false are no numbers. -/
@[simp]
theorem integral_bool (value : Bool) : (bool value).Integral := .bool value

/-- Null is no number. -/
@[simp]
theorem integral_null : null.Integral := .null

/-- A number is of 64 bits as it is. -/
@[simp]
theorem integral_number {value : JsonNumber} : (number value).Integral ↔ value.Is64Bit :=
  ⟨fun h => by cases h; assumption, .number⟩

/-- The numbers of an array are those of its items. -/
@[simp]
theorem integral_array {items : List Json} :
    (array items).Integral ↔ ∀ item ∈ items, item.Integral :=
  ⟨fun h => by cases h; assumption, .array⟩

/-- The numbers of an object are those of its members. -/
@[simp]
theorem integral_object {members : List (String × Json)} :
    (object members).Integral ↔ ∀ member ∈ members, member.2.Integral :=
  ⟨fun h => by cases h; assumption, .object⟩

mutual

/-- The tree of a value. -/
def raw : Json → RawJson
  | .null => .null
  | .bool value => .bool value
  | .number value => .number value.lexeme
  | .text value => .string (some value)
  | .array items => .array (rawItems items)
  | .object members => .object (rawMembers members)

/-- The trees of items. -/
def rawItems : List Json → List RawJson
  | [] => []
  | item :: rest => item.raw :: rawItems rest

/-- The trees of members. -/
def rawMembers : List (String × Json) → List (Option String × RawJson)
  | [] => []
  | (key, value) :: rest => (some key, value.raw) :: rawMembers rest

end

end Json

namespace JsonToken

open LiteralReader (StopsFor span_append stopsFor_cons isDigit_of_mem_toDigits exists_toDigits_cons)

/-- A blank is dropped. -/
theorem tokens_blank {c : Char} (h : isJsonBlank c = true) (rest : List Char) :
    tokens (c :: rest) = tokens rest := by
  rw [tokens, if_pos h]

/-- A token is taken off the front. -/
theorem tokens_of_scan {c : Char} {rest left : List Char} {token : JsonToken}
    (hblank : isJsonBlank c = false) (hscan : scan (c :: rest) = some (token, left)) :
    tokens (c :: rest) = (tokens left).map (token :: ·) := by
  rw [tokens, if_neg (by rw [hblank]; exact Bool.false_ne_true)]
  split
  · rename_i hnone
    rw [hscan] at hnone
    cases hnone
  · rename_i hsome
    obtain ⟨rfl, rfl⟩ := Prod.mk.inj (Option.some.inj (hscan.symm.trans hsome))
    rfl

/-- A quoted text is one token. -/
theorem scan_quote (text : String) (rest : List Char) :
    scan ((Text.quote text).toList ++ rest) = some (.string (some text), rest) := by
  have hquote : (Text.quote text).toList ++ rest =
      '"' :: (text.toList.flatMap Text.escapeChar ++ '"' :: rest) := by
    rw [Text.quote, String.toList_ofList, List.cons_append, List.append_assoc]
    rfl
  rw [hquote, scan, scanQuoted, Text.scanString_flatMap_escapeChar]
  simp only [Option.bind_eq_bind, Option.bind_some, Text.piecesText?_map_pieceOf, Option.map_some,
    String.ofList_toList, Option.pure_def]

/-- What goes on after the digits of an integer would belong to the number. -/
def numberTail (c : Char) : Bool :=
  c.isDigit || c == '.' || c == 'e' || c == 'E'

/-- No number begins with a zero and another digit. -/
theorem toDigits_ne_zero_cons (n : Nat) (d : Char) (rest : List Char) :
    Nat.toDigits 10 n ≠ '0' :: d :: rest := by
  have hhead : ∀ n, 0 < n → (Nat.toDigits 10 n).head? ≠ some '0' := by
    intro n
    induction n using Nat.strongRecOn with
    | ind n ih =>
      intro hpos
      rw [Nat.toDigits_eq_if (by decide)]
      split
      · rename_i hlt
        have hdigit : ∀ k < 10, 0 < k → [k.digitChar].head? ≠ some '0' := by decide
        exact hdigit n hlt hpos
      · have hrest := ih (n / 10) (by omega) (by omega)
        cases hdigits : Nat.toDigits 10 (n / 10) with
        | nil => exact absurd hdigits Nat.toDigits_ne_nil
        | cons c digits =>
          rw [hdigits] at hrest
          exact hrest
  intro hzero
  rcases Nat.eq_zero_or_pos n with rfl | hpos
  · rw [Nat.toDigits_zero] at hzero
    cases hzero
  · refine hhead n hpos ?_
    rw [hzero]
    rfl

/-- No digit follows where a number ends. -/
theorem stopsFor_isDigit {rest : List Char} (h : StopsFor numberTail rest) :
    StopsFor Char.isDigit rest := by
  intro c hc
  have htail := h c hc
  simp only [numberTail, Bool.or_eq_false_iff] at htail
  exact htail.1.1.1

/-- No fraction follows where a number ends. -/
theorem scanFraction_of_stopsFor {rest : List Char} (h : StopsFor numberTail rest) :
    scanFraction rest = some (none, rest) := by
  unfold scanFraction
  split
  · cases h '.' rfl
  · rfl

/-- No exponent follows where a number ends. -/
theorem scanExponent_of_stopsFor {rest : List Char} (h : StopsFor numberTail rest) :
    scanExponent rest = some (none, rest) := by
  cases rest with
  | nil => rfl
  | cons c tail =>
    rw [scanExponent, if_neg]
    rintro (rfl | rfl)
    · cases h 'e' rfl
    · cases h 'E' rfl

/-- The digits of a number are read as its lexeme. -/
theorem scanUnsigned_toDigits (negative : Bool) (n : Nat) {rest : List Char}
    (hrest : StopsFor numberTail rest) :
    scanUnsigned negative (Nat.toDigits 10 n ++ rest) =
      some (⟨negative, Nat.toDigits 10 n, none, none⟩, rest) := by
  obtain ⟨htake, hdrop⟩ := span_append (isDigit_of_mem_toDigits n) (stopsFor_isDigit hrest)
  rw [scanUnsigned, htake, hdrop]
  split
  · rename_i hnil
    exact absurd hnil Nat.toDigits_ne_nil
  · rename_i hzero
    exact absurd hzero (toDigits_ne_zero_cons n _ _)
  · rw [scanFraction_of_stopsFor hrest]
    simp only [Option.bind_eq_bind, Option.bind_some, scanExponent_of_stopsFor hrest]
    rfl

/-- No digit is blank. -/
theorem isJsonBlank_of_isDigit {c : Char} (h : c.isDigit = true) : isJsonBlank c = false := by
  rw [Bool.eq_false_iff]
  intro hblank
  simp only [isJsonBlank, Bool.or_eq_true, beq_iff_eq] at hblank
  rcases hblank with ((rfl | rfl) | rfl) | rfl <;> cases h

/-- What begins with a digit is a number. -/
theorem scan_digit {c : Char} (hc : c.isDigit = true) (chars : List Char) :
    scan (c :: chars) = (scanUnsigned false (c :: chars)).map
      fun (lexeme, left) => (.number lexeme, left) := by
  have hne {d : Char} (hd : d.isDigit = false) {rest : List Char} : c :: chars ≠ d :: rest := by
    intro heq
    rw [(List.cons.inj heq).1, hd] at hc
    cases hc
  rw [scan]
  all_goals exact fun _ => hne rfl

/-- An integer is one token. -/
theorem scan_integer (n : Int) {rest : List Char} (hrest : StopsFor numberTail rest) :
    ∃ c tail, (JsonNumber.integer n).spell.toList = c :: tail ∧ isJsonBlank c = false ∧
      scan (c :: tail ++ rest) = some (.number (JsonNumber.integer n).lexeme, rest) := by
  cases n with
  | ofNat k =>
    obtain ⟨c, digits, hcons, hc⟩ := exists_toDigits_cons k
    have hchars : (JsonNumber.integer (Int.ofNat k)).spell.toList = Nat.toDigits 10 k :=
      Nat.toList_repr
    refine ⟨c, digits, hchars.trans hcons, ?_, ?_⟩
    · exact isJsonBlank_of_isDigit hc
    · rw [List.cons_append, scan_digit hc, ← List.cons_append, ← hcons,
        scanUnsigned_toDigits false k hrest]
      rfl
  | negSucc k =>
    have hchars : (JsonNumber.integer (Int.negSucc k)).spell.toList =
        '-' :: Nat.toDigits 10 (k + 1) := by
      change ("-" ++ Nat.repr (k + 1)).toList = _
      rw [String.toList_append, Nat.toList_repr]
      rfl
    refine ⟨'-', _, hchars, rfl, ?_⟩
    have hnegative : decide (Int.negSucc k < 0) = true := decide_eq_true (Int.negSucc_lt_zero k)
    rw [List.cons_append, scan, scanUnsigned_toDigits true (k + 1) hrest, JsonNumber.lexeme,
      hnegative]
    rfl

end JsonToken

namespace RawJson

open JsonToken
open LiteralReader (StopsFor stopsFor_cons)

/-- The machine takes the tokens of a text. -/
def feed (state : State) (chars : List Char) : Option State :=
  (tokens chars).bind (run state)

/-- The end of a text leaves the machine where it is. -/
theorem feed_nil (state : State) : feed state [] = some state := by
  rw [feed, tokens]
  rfl

/-- A text that takes the machine from its start to a value is read as that value. -/
theorem read?_of_feed {text : String} {raw : RawJson}
    (h : feed (.value []) text.toList = some (.next raw [])) : read? text = some raw := by
  obtain ⟨found, htokens, hrun⟩ := Option.bind_eq_some_iff.mp h
  rw [read?, htokens]
  simp only [Option.bind_eq_bind, Option.bind_some, hrun]

/-- Blanks leave the machine where it is. -/
theorem feed_blanks {blanks : List Char} (h : ∀ c ∈ blanks, isJsonBlank c = true) (state : State)
    (rest : List Char) : feed state (blanks ++ rest) = feed state rest := by
  induction blanks with
  | nil => rfl
  | cons c blanks ih =>
    obtain ⟨hc, hblanks⟩ := List.forall_mem_cons.mp h
    rw [List.cons_append, feed, tokens_blank hc]
    exact ih hblanks

/-- The first token moves the machine by one step. -/
theorem feed_token {state next : State} {c : Char} {rest left : List Char} {token : JsonToken}
    (hblank : isJsonBlank c = false) (hscan : scan (c :: rest) = some (token, left))
    (hstep : step state token = some next) : feed state (c :: rest) = feed next left := by
  rw [feed, tokens_of_scan hblank hscan, feed]
  cases tokens left with
  | none => rfl
  | some found =>
    change (step state token).bind _ = _
    rw [hstep]
    rfl

/-- A value is due: anywhere, or as the first item of an array. -/
inductive Due : State → List Frame → Prop
  | value (stack : List Frame) : Due (.value stack) stack
  | item (stack : List Frame) : Due (.itemOrEnd stack) (.items [] :: stack)

/-- Where a value is due a token begins one, unless it ends the array. -/
theorem Due.step_eq {state : State} {stack : List Frame} (h : Due state stack) {token : JsonToken}
    (htoken : token ≠ .closeArray) : step state token = begin stack token := by
  cases h with
  | value => rfl
  | item =>
    cases token with
    | closeArray => exact absurd rfl htoken
    | _ => rfl

end RawJson

/-- A layout puts nothing but blanks between tokens. -/
structure JsonLayout.Spaced (layout : JsonLayout) : Prop where
  lineStart : ∀ depth, ∀ c ∈ layout.lineStart depth, JsonToken.isJsonBlank c = true
  colon : ∃ blanks, layout.colon = ':' :: blanks ∧ ∀ c ∈ blanks, JsonToken.isJsonBlank c = true

/-- Indented lines are such a layout. -/
theorem JsonLayout.spaced_indented : JsonLayout.indented.Spaced where
  lineStart depth c hc := by
    rcases List.mem_cons.mp hc with rfl | hc
    · rfl
    · rw [(List.mem_replicate.mp hc).2]
      rfl
  colon := ⟨[' '], rfl, List.forall_mem_singleton.mpr rfl⟩

/-- Without blanks, a layout is such. -/
theorem JsonLayout.spaced_compact : JsonLayout.compact.Spaced where
  lineStart _ _ hc := absurd hc List.not_mem_nil
  colon := ⟨[], rfl, List.forall_mem_nil _⟩

namespace RawJson

open JsonToken
open LiteralReader (StopsFor stopsFor_cons)

variable {layout : JsonLayout}

/-- Wherever a value is due, the machine reads the printed value as its tree. -/
def Feeds (layout : JsonLayout) (value : Json) : Prop :=
  ∀ (depth : Nat) (state : State) (stack : List Frame) (rest : List Char), Due state stack →
    StopsFor numberTail rest →
      feed state (value.chars layout depth ++ rest) = feed (.next value.raw stack) rest

/-- No number goes on with a blank, a comma or a bracket. -/
theorem numberTail_of_blank {c : Char} (h : isJsonBlank c = true) : numberTail c = false := by
  simp only [isJsonBlank, Bool.or_eq_true, beq_iff_eq] at h
  rcases h with ((rfl | rfl) | rfl) | rfl <;> rfl

/-- A number ends before a line start. -/
theorem stopsFor_lineStart (hlayout : layout.Spaced) (depth : Nat) {rest : List Char}
    (hrest : StopsFor numberTail rest) : StopsFor numberTail (layout.lineStart depth ++ rest) := by
  cases hline : layout.lineStart depth with
  | nil => exact hrest
  | cons c blanks =>
    refine stopsFor_cons (numberTail_of_blank (hlayout.lineStart depth c ?_)) _
    rw [hline]
    exact List.mem_cons_self

/-- A number ends before further items. -/
theorem stopsFor_restChars (layout : JsonLayout) (items : List Json) (depth : Nat)
    {rest : List Char} (hrest : StopsFor numberTail rest) :
    StopsFor numberTail (Json.restChars layout depth items ++ rest) := by
  cases items with
  | nil => exact hrest
  | cons item items => exact stopsFor_cons rfl _

/-- A number ends before further members. -/
theorem stopsFor_restMemberChars (layout : JsonLayout) (members : List (String × Json))
    (depth : Nat) {rest : List Char} (hrest : StopsFor numberTail rest) :
    StopsFor numberTail (Json.restMemberChars layout depth members ++ rest) := by
  cases members with
  | nil => exact hrest
  | cons member members => exact stopsFor_cons rfl _

/-- A key and its colon are read where a key is due. -/
theorem feed_key (hlayout : layout.Spaced) {state : State} {done : List (Option String × RawJson)}
    {stack : List Frame} (key : String)
    (hkey : step state (.string (some key)) = some (.colon done (some key) stack))
    (rest : List Char) :
    feed state ((Text.quote key).toList ++ (layout.colon ++ rest)) =
      feed (.value (.members done (some key) :: stack)) rest := by
  obtain ⟨blanks, hcolon, hblanks⟩ := hlayout.colon
  have hquote : (Text.quote key).toList =
      '"' :: (key.toList.flatMap Text.escapeChar ++ ['"']) := String.toList_ofList
  have hscan := scan_quote key (layout.colon ++ rest)
  rw [hquote, List.cons_append] at hscan ⊢
  rw [feed_token rfl hscan hkey, hcolon, List.cons_append]
  refine (feed_token rfl rfl rfl).trans ?_
  exact feed_blanks hblanks _ rest

/-- The items of an array after the first, and its end. -/
theorem feed_restChars (hlayout : layout.Spaced) (depth close : Nat) {items : List Json}
    (hitems : ∀ item ∈ items, Feeds layout item) (first : RawJson) (done : List RawJson)
    (stack : List Frame) (rest : List Char) :
    feed (.next first (.items done :: stack)) (Json.restChars layout depth items ++
        (layout.lineStart close ++ ']' :: rest)) =
      feed (.next (.array ((first :: done).reverse ++ Json.rawItems items)) stack) rest := by
  induction items generalizing first done with
  | nil =>
    rw [Json.restChars, List.nil_append, feed_blanks (hlayout.lineStart close), Json.rawItems,
      List.append_nil]
    exact feed_token rfl rfl rfl
  | cons item items ih =>
    obtain ⟨hitem, hrest⟩ := List.forall_mem_cons.mp hitems
    have hstop := stopsFor_restChars layout items depth
      (stopsFor_lineStart hlayout close (stopsFor_cons (p := numberTail) (c := ']') rfl rest))
    have hcomma (left : List Char) : feed (.next first (.items done :: stack)) (',' :: left) =
        feed (.value (.items (first :: done) :: stack)) left := feed_token rfl rfl rfl
    rw [Json.restChars, List.cons_append, hcomma, List.append_assoc,
      feed_blanks (hlayout.lineStart depth), List.append_assoc,
      hitem depth _ _ _ (.value _) hstop, ih hrest, Json.rawItems]
    simp

/-- The members of an object after the first, and its end. -/
theorem feed_restMemberChars (hlayout : layout.Spaced) (depth close : Nat)
    {members : List (String × Json)} (hmembers : ∀ member ∈ members, Feeds layout member.2)
    (first : RawJson) (key : Option String) (done : List (Option String × RawJson))
    (stack : List Frame) (rest : List Char) :
    feed (.next first (.members done key :: stack)) (Json.restMemberChars layout depth members ++
        (layout.lineStart close ++ '\x7d' :: rest)) =
      feed (.next (.object (((key, first) :: done).reverse ++ Json.rawMembers members)) stack)
        rest := by
  induction members generalizing first key done with
  | nil =>
    rw [Json.restMemberChars, List.nil_append, feed_blanks (hlayout.lineStart close),
      Json.rawMembers, List.append_nil]
    exact feed_token rfl rfl rfl
  | cons member members ih =>
    obtain ⟨hmember, hrest⟩ := List.forall_mem_cons.mp hmembers
    obtain ⟨name, value⟩ := member
    have hstop := stopsFor_restMemberChars layout members depth
      (stopsFor_lineStart hlayout close (stopsFor_cons (p := numberTail) (c := '\x7d') rfl rest))
    have hcomma (left : List Char) : feed (.next first (.members done key :: stack)) (',' :: left) =
        feed (.key ((key, first) :: done) stack) left := feed_token rfl rfl rfl
    rw [Json.restMemberChars, List.cons_append, hcomma, List.append_assoc,
      feed_blanks (hlayout.lineStart depth), List.append_assoc, List.append_assoc,
      feed_key hlayout name rfl, List.append_assoc, hmember depth _ _ _ (.value _) hstop, ih hrest,
      Json.rawMembers]
    simp

/-- A printed array is read, if its items are. -/
theorem feeds_array (hlayout : layout.Spaced) {items : List Json}
    (hitems : ∀ item ∈ items, Feeds layout item) : Feeds layout (.array items) := by
  intro depth state stack rest hdue hrest
  have hopen (left : List Char) : feed state ('[' :: left) = feed (.itemOrEnd stack) left :=
    feed_token rfl rfl (hdue.step_eq (by decide))
  cases items with
  | nil =>
    rw [Json.chars, List.cons_append, hopen]
    exact feed_token rfl rfl rfl
  | cons item items =>
    obtain ⟨hitem, hothers⟩ := List.forall_mem_cons.mp hitems
    have hstop := stopsFor_restChars layout items (depth + 1)
      (stopsFor_lineStart hlayout depth (stopsFor_cons (p := numberTail) (c := ']') rfl rest))
    rw [Json.chars, List.cons_append, hopen, List.append_assoc,
      feed_blanks (hlayout.lineStart (depth + 1)), List.append_assoc, List.append_assoc,
      List.append_assoc, List.singleton_append, hitem (depth + 1) _ _ _ (.item stack) hstop,
      feed_restChars hlayout (depth + 1) depth hothers]
    rfl

/-- A printed object is read, if its values are. -/
theorem feeds_object (hlayout : layout.Spaced) {members : List (String × Json)}
    (hmembers : ∀ member ∈ members, Feeds layout member.2) : Feeds layout (.object members) := by
  intro depth state stack rest hdue hrest
  have hopen (left : List Char) : feed state ('\x7b' :: left) = feed (.keyOrEnd stack) left :=
    feed_token rfl rfl (hdue.step_eq (by decide))
  cases members with
  | nil =>
    rw [Json.chars, List.cons_append, hopen]
    exact feed_token rfl rfl rfl
  | cons member members =>
    obtain ⟨hmember, hothers⟩ := List.forall_mem_cons.mp hmembers
    obtain ⟨key, value⟩ := member
    have hstop := stopsFor_restMemberChars layout members (depth + 1)
      (stopsFor_lineStart hlayout depth (stopsFor_cons (p := numberTail) (c := '\x7d') rfl rest))
    rw [Json.chars, List.cons_append, hopen, List.append_assoc,
      feed_blanks (hlayout.lineStart (depth + 1)), List.append_assoc, List.append_assoc,
      List.append_assoc, List.append_assoc, List.append_assoc, List.singleton_append,
      feed_key hlayout key rfl, hmember (depth + 1) _ _ _ (.value _) hstop,
      feed_restMemberChars hlayout (depth + 1) depth hothers]
    rfl

/-- A printed value is read as its tree. -/
theorem feeds (hlayout : layout.Spaced) {value : Json} (h : value.Integral) :
    Feeds layout value := by
  induction h with
  | null => exact fun depth state stack rest hdue _ => feed_token rfl rfl (hdue.step_eq (by decide))
  | bool value =>
    intro depth state stack rest hdue _
    cases value with
    | false => exact feed_token rfl rfl (hdue.step_eq (by decide))
    | true => exact feed_token rfl rfl (hdue.step_eq (by decide))
  | number h =>
    rename_i number
    intro depth state stack rest hdue hrest
    cases number with
    | float negative magnitude => exact absurd h id
    | integer n =>
      obtain ⟨c, tail, hchars, hblank, hscan⟩ := scan_integer n hrest
      rw [Json.chars, hchars]
      exact feed_token hblank hscan (hdue.step_eq nofun)
  | text value =>
    intro depth state stack rest hdue _
    have hquote : (Text.quote value).toList =
        '"' :: (value.toList.flatMap Text.escapeChar ++ ['"']) := String.toList_ofList
    have hscan := scan_quote value rest
    rw [Json.chars]
    rw [hquote, List.cons_append] at hscan ⊢
    exact feed_token rfl hscan (hdue.step_eq nofun)
  | array _ ih => exact feeds_array hlayout ih
  | object _ ih => exact feeds_object hlayout ih

/-- A value printed on indented lines is read as its tree. -/
theorem read?_indented {value : Json} (h : value.Integral) :
    read? value.indented = some value.raw := by
  have hfeed := feeds JsonLayout.spaced_indented h 0 (.value []) [] [] (.value [])
    (by simp [StopsFor])
  rw [List.append_nil, feed_nil] at hfeed
  refine read?_of_feed ?_
  rw [Json.indented, String.toList_ofList, hfeed]

end RawJson

end ChartScript
