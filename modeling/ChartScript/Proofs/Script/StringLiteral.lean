import ChartScript.Json.Token

/-!
# A reader of string literals

What a script reads between double quotes: the 16-bit code units that a literal denotes, up to its
first quote that is not escaped. All escapes of the script language are read, also the short octal
ones and the backslash that continues a line, so a literal can be shorter than its source but never
longer. It says its source character by character exactly when nothing in the source is an escape,
and a line break cannot stand in it otherwise.

The reader starts after the opening quote and answers with what follows the closing one.
-/

namespace ChartScript.StringLiteral

/-- The code units of a code point. -/
def unitsOf (point : Nat) : List Nat :=
  if point < 0x10000 then [point]
  else [0xd800 + (point - 0x10000) / 0x400, 0xdc00 + (point - 0x10000) % 0x400]

/-- The code units of text. -/
def units (text : List Char) : List Nat :=
  text.flatMap fun c => unitsOf c.toNat

/-- The characters that end a line of a script. -/
def endsLine (c : Char) : Bool :=
  c == '\n' || c == '\r' || c == '\u2028' || c == '\u2029'

/-- The digits of octal numbers. -/
def isOctal (c : Char) : Bool := '0' ≤ c && c ≤ '7'

/-- What a character after a backslash stands for when it begins no longer escape. -/
def single : Char → Nat
  | 'b' => 0x08
  | 't' => 0x09
  | 'n' => 0x0a
  | 'v' => 0x0b
  | 'f' => 0x0c
  | 'r' => 0x0d
  | c => c.toNat

/-- An escape in two hexadecimal digits, after its letter. -/
def pair? : List Char → Option (List Nat × List Char)
  | a :: b :: rest => do return ([(← JsonToken.hexValue? a) * 16 + (← JsonToken.hexValue? b)], rest)
  | _ => none

/-- An escape in four hexadecimal digits, after its letter. -/
def quad? : List Char → Option (List Nat × List Char)
  | a :: b :: c :: d :: rest => (JsonToken.hexQuad? a b c d).map fun unit => ([unit], rest)
  | _ => none

/-- The number that hexadecimal digits spell. -/
def hexNumber (digits : List Char) : Nat :=
  digits.foldl (fun n c => n * 16 + (JsonToken.hexValue? c).getD 0) 0

/-- An escape that spells a code point between braces, after the opening one. -/
def braced? (chars : List Char) : Option (List Nat × List Char) :=
  let digits := chars.takeWhile fun c => (JsonToken.hexValue? c).isSome
  match chars.dropWhile fun c => (JsonToken.hexValue? c).isSome with
  | '\x7d' :: rest =>
    if digits.isEmpty || 0x10ffff < hexNumber digits then none
    else some (unitsOf (hexNumber digits), rest)
  | _ => none

/-- An escape in octal digits: up to three of them, or two when the first is more than three. -/
def octal (first : Char) (rest : List Char) : List Nat × List Char :=
  let more := (rest.takeWhile isOctal).take (if first ≤ '3' then 2 else 1)
  ([Nat.ofDigitChars 8 (first :: more) 0], rest.drop more.length)

/-- What an escape says, after its backslash, and what follows it. -/
def escape? : List Char → Option (List Nat × List Char)
  | [] => none
  | 'x' :: rest => pair? rest
  | 'u' :: '\x7b' :: rest => braced? rest
  | 'u' :: rest => quad? rest
  | '\r' :: '\n' :: rest => some ([], rest)
  | c :: rest =>
    if endsLine c then some ([], rest)
    else if isOctal c then some (octal c rest)
    else some (unitsOf (single c), rest)

/-- A reader takes characters off the front, and finds at most as many code units as they have. -/
def Spends (read? : List Char → Option (List Nat × List Char)) : Prop :=
  ∀ chars found rest, read? chars = some (found, rest) →
    ∃ taken, taken ≠ [] ∧ chars = taken ++ rest ∧ found.length ≤ (units taken).length

/-- A code point has one code unit or two. -/
theorem length_unitsOf (point : Nat) :
    1 ≤ (unitsOf point).length ∧ (unitsOf point).length ≤ 2 := by
  unfold unitsOf
  split <;> simp

/-- The code units of two texts are those of one after those of the other. -/
theorem units_append (first second : List Char) :
    units (first ++ second) = units first ++ units second :=
  List.flatMap_append

/-- The code units of a text begin with those of its first character. -/
theorem units_cons (c : Char) (rest : List Char) :
    units (c :: rest) = unitsOf c.toNat ++ units rest :=
  List.flatMap_cons

/-- Text has at least one code unit for each character. -/
theorem length_le_units (text : List Char) : text.length ≤ (units text).length := by
  induction text with
  | nil => exact Nat.le_refl 0
  | cons c rest ih =>
    have hunits := (length_unitsOf c.toNat).1
    rw [units_cons, List.length_append, List.length_cons]
    omega

/-- What is found is not more than the characters taken. -/
theorem spends_of_length_le {read? : List Char → Option (List Nat × List Char)}
    (h : ∀ chars found rest, read? chars = some (found, rest) →
      ∃ taken, taken ≠ [] ∧ chars = taken ++ rest ∧ found.length ≤ taken.length) :
    Spends read? := fun chars found rest hread => by
  obtain ⟨taken, hne, hsplit, hlength⟩ := h chars found rest hread
  exact ⟨taken, hne, hsplit, Nat.le_trans hlength (length_le_units taken)⟩

/-- Two hexadecimal digits are one code unit. -/
theorem spends_pair? : Spends pair? := spends_of_length_le fun chars found rest h => by
  match chars, h with
  | a :: b :: tail, h =>
    simp only [pair?, Option.bind_eq_bind, Option.bind_eq_some_iff, Option.pure_def,
      Option.some.injEq] at h
    obtain ⟨_, _, _, _, hsame⟩ := h
    cases hsame
    exact ⟨[a, b], List.cons_ne_nil _ _, rfl, by simp⟩

/-- Four hexadecimal digits are one code unit. -/
theorem spends_quad? : Spends quad? := spends_of_length_le fun chars found rest h => by
  match chars, h with
  | a :: b :: c :: d :: tail, h =>
    obtain ⟨_, _, hsame⟩ := Option.map_eq_some_iff.mp h
    cases hsame
    exact ⟨[a, b, c, d], List.cons_ne_nil _ _, rfl, by simp⟩

/-- Digits between braces are one code unit or two, and there is a closing brace. -/
theorem spends_braced? : Spends braced? := spends_of_length_le fun chars found rest h => by
  unfold braced? at h
  simp only at h
  split at h
  · rename_i after hafter
    split at h
    · cases h
    · rename_i hdigits
      cases h
      have hsplit := List.takeWhile_append_dropWhile
        (p := fun c => (JsonToken.hexValue? c).isSome) (l := chars)
      rw [hafter] at hsplit
      refine ⟨_ ++ ['\x7d'], by simp, by rw [List.append_assoc]; exact hsplit.symm, ?_⟩
      simp only [Bool.or_eq_true, not_or, List.isEmpty_iff] at hdigits
      have hsome := List.length_pos_iff.mpr hdigits.1
      have htwo := (length_unitsOf (hexNumber (chars.takeWhile fun c =>
        (JsonToken.hexValue? c).isSome))).2
      rw [List.length_append, List.length_singleton]
      omega
  · cases h

/-- An escape takes characters off the front, and says at most as much as they do. -/
theorem spends_escape? : Spends escape? := fun chars found rest h => by
  have hcons {c : Char} {tail taken : List Char} (hsplit : tail = taken ++ rest)
      (hlength : found.length ≤ (units taken).length) :
      ∃ taken, taken ≠ [] ∧ c :: tail = taken ++ rest ∧ found.length ≤ (units taken).length := by
    refine ⟨c :: taken, List.cons_ne_nil _ _, by rw [hsplit]; rfl, ?_⟩
    rw [units_cons, List.length_append]
    omega
  unfold escape? at h
  split at h
  · cases h
  · obtain ⟨taken, _, hsplit, hlength⟩ := spends_pair? _ _ _ h
    exact hcons hsplit hlength
  · obtain ⟨taken, _, hsplit, hlength⟩ := spends_braced? _ _ _ h
    have hbrace : _ :: _ = ('\x7b' :: taken) ++ rest := congrArg (List.cons '\x7b') hsplit
    refine hcons hbrace ?_
    rw [units_cons, List.length_append]
    omega
  · obtain ⟨taken, _, hsplit, hlength⟩ := spends_quad? _ _ _ h
    exact hcons hsplit hlength
  · cases h
    exact ⟨['\r', '\n'], List.cons_ne_nil _ _, rfl, Nat.zero_le _⟩
  · rename_i c tail _ _ _ _
    split at h
    · cases h
      exact ⟨[c], List.cons_ne_nil _ _, rfl, Nat.zero_le _⟩
    · split at h
      · cases h
        have hprefix : (tail.takeWhile isOctal).take (if c ≤ '3' then 2 else 1) <+: tail :=
          (List.take_prefix _ _).trans (List.takeWhile_prefix _)
        refine ⟨_ :: _, List.cons_ne_nil _ _,
          congrArg (c :: ·) (List.prefix_iff_eq_append.mp hprefix).symm, ?_⟩
        have hdigits := (length_unitsOf c.toNat).1
        rw [units_cons, List.length_append]
        exact Nat.le_trans hdigits (Nat.le_add_right _ _)
      · cases h
        refine ⟨[c], List.cons_ne_nil _ _, rfl, ?_⟩
        rw [units_cons, List.length_append]
        unfold single
        split <;> simp [unitsOf]

/-- What follows an escape is shorter. -/
theorem length_of_escape? {chars found rest} (h : escape? chars = some (found, rest)) :
    rest.length < chars.length := by
  obtain ⟨taken, hne, rfl, _⟩ := spends_escape? _ _ _ h
  have := List.length_pos_iff.mpr hne
  rw [List.length_append]
  omega

/-- The code units of a literal after its opening quote, and what follows its closing quote. -/
def read? (chars : List Char) : Option (List Nat × List Char) :=
  match chars with
  | [] => none
  | '"' :: rest => some ([], rest)
  | '\\' :: rest =>
    match _hescape : escape? rest with
    | none => none
    | some (found, left) => (read? left).map fun (more, after) => (found ++ more, after)
  | c :: rest =>
    if c = '\n' ∨ c = '\r' then none
    else (read? rest).map fun (more, after) => (unitsOf c.toNat ++ more, after)
termination_by chars.length
decreasing_by
  · have := length_of_escape? _hescape
    simp only [List.length_cons]
    omega
  · simp

/-- Text that may stand between double quotes as it is: without quotes, backslashes and line
breaks. -/
def Bare (text : List Char) : Prop :=
  ∀ c ∈ text, c ≠ '"' ∧ c ≠ '\\' ∧ c ≠ '\n' ∧ c ≠ '\r'

instance (text : List Char) : Decidable (Bare text) :=
  List.decidableBAll _ text

/-- Bare text is read as it is. -/
theorem read?_bare {text : List Char} (h : Bare text) (rest : List Char) :
    read? (text ++ '"' :: rest) = some (units text, rest) := by
  induction text with
  | nil => rw [List.nil_append, read?]; rfl
  | cons c text ih =>
    obtain ⟨⟨hquote, hbackslash, hfeed, hreturn⟩, htext⟩ := List.forall_mem_cons.mp h
    rw [List.cons_append, read?, ih htext, if_neg (not_or.mpr ⟨hfeed, hreturn⟩), units_cons]
    · rfl
    · exact hquote
    · exact hbackslash

/-- A literal that is read ends in a quote; it says at most as much as stands before the quote, and
as much only if that is bare. -/
theorem exists_source_of_read? {chars : List Char} {found : List Nat} {rest : List Char}
    (h : read? chars = some (found, rest)) :
    ∃ source, chars = source ++ '"' :: rest ∧ found.length ≤ (units source).length ∧
      ((units source).length ≤ found.length → Bare source) := by
  fun_induction read? chars generalizing found with
  | case1 => cases h
  | case2 tail =>
    cases h
    exact ⟨[], rfl, Nat.le_refl _, fun _ c hc => absurd hc List.not_mem_nil⟩
  | case3 tail hescape => cases h
  | case4 tail said left hescape ih =>
    obtain ⟨⟨more, after⟩, hmore, hsame⟩ := Option.map_eq_some_iff.mp h
    cases hsame
    obtain ⟨source, rfl, hlength, _⟩ := ih hmore
    obtain ⟨taken, _, rfl, hsaid⟩ := spends_escape? _ _ _ hescape
    -- the backslash itself is a code unit of the source to which nothing that is said corresponds
    have hbackslash := (length_unitsOf ('\\').toNat).1
    have hshorter : (said ++ more).length < (units ('\\' :: (taken ++ source))).length := by
      rw [units_cons, units_append, List.length_append, List.length_append, List.length_append]
      omega
    exact ⟨_, by simp, Nat.le_of_lt hshorter, fun hle => absurd hshorter (Nat.not_lt_of_le hle)⟩
  | case5 c tail hquote hbackslash hline => cases h
  | case6 c tail hquote hbackslash hline ih =>
    obtain ⟨⟨more, after⟩, hmore, hsame⟩ := Option.map_eq_some_iff.mp h
    cases hsame
    obtain ⟨source, rfl, hlength, hbare⟩ := ih hmore
    obtain ⟨hfeed, hreturn⟩ := not_or.mp hline
    refine ⟨c :: source, rfl, ?_, fun hle => ?_⟩
    · rw [units_cons, List.length_append, List.length_append]
      omega
    · rw [units_cons, List.length_append, List.length_append] at hle
      exact List.forall_mem_cons.mpr
        ⟨⟨fun hc => hquote hc, fun hc => hbackslash hc, hfeed, hreturn⟩, hbare (by omega)⟩

/-- A text between double quotes says itself, before the quote that was meant to end it, exactly
when it is bare. What may follow that quote has no quotes of its own. -/
theorem read?_quoted_iff {text after : List Char} (hafter : '"' ∉ after) :
    (∃ rest, read? (text ++ '"' :: after) = some (units text, rest)) ↔ Bare text := by
  constructor
  · rintro ⟨rest, h⟩
    obtain ⟨source, hsplit, hlength, hbare⟩ := exists_source_of_read? h
    rcases List.append_eq_append_iff.mp hsplit.symm with ⟨left, rfl, _⟩ | ⟨left, rfl, hleft⟩
    · -- a quote inside the text ends the literal too early to say all of the text
      have hnone := length_le_units left
      rw [units_append, List.length_append] at hlength
      obtain rfl : left = [] := List.length_eq_zero_iff.mp (by omega)
      rw [List.append_nil] at *
      exact hbare (Nat.le_refl _)
    · cases left with
      | nil =>
        rw [List.append_nil] at hbare
        exact hbare (Nat.le_refl _)
      | cons c left =>
        -- a later closing quote would be one of what follows
        have hmem : '"' ∈ after := by
          rw [(List.cons.inj hleft).2]
          exact List.mem_append_right _ List.mem_cons_self
        exact absurd hmem hafter
  · exact fun h => ⟨after, read?_bare h after⟩

end ChartScript.StringLiteral
