import ChartScript.Proofs.Document.ReadBack
import ChartScript.Proofs.Script.Emptied
import ChartScript.Proofs.Table.Building
import ChartScript.Proofs.Table.Reader
import ChartScript.Proofs.Text.Tags

/-!
# Tables are read back

The array that a table is written as is read back to the table: its header to the columns, and every
row to its cells, whatever texts, numbers and nested values they hold. Of a moment the milliseconds
are written and of a time of day only hour, minute and second, so what is below them is lost, and
with it the difference between a leap second and the second before it.
-/

namespace ChartScript

/-- What stands over a column means the column. -/
theorem Column.column_heading (c : Column) : c.heading.column = c := by
  obtain ⟨label, type, role, id⟩ := c
  cases type <;> cases role <;> cases id <;> rfl

/-- A time of day to the whole second. -/
def TimeOfDay.toSecond (t : TimeOfDay) : TimeOfDay where
  hour := t.hour
  minute := t.minute
  second := t.second
  nanos := 0
  valid := by
    have h := t.valid
    simp only [Calendar.isTime, Bool.and_eq_true, decide_eq_true_eq] at h ⊢
    simp [h.1.1.1, h.1.1.2, h.1.2]

namespace Cell

/-- A cell as it is written. -/
def chars (cell : Cell) : List Char := cell.literal.chars

/-- A cell as its array says it: moments to the whole millisecond, times of day to the second. -/
def rounded : Cell → Cell
  | .moment value => .moment value.rounded
  | .time value => .time value.toSecond
  | .formatted value shown => .formatted value.rounded shown
  | cell => cell

/-- A cell in which moments are of whole milliseconds, and times of day have a property. -/
def Whole (P : TimeOfDay → Prop) : Cell → Prop
  | .moment value => value.time.nanos % 1000000 = 0
  | .time value => P value
  | .formatted value _ => value.Whole P
  | _ => True

/-- Exactly the cells of whole milliseconds and seconds are said as they are. -/
theorem rounded_eq_self_iff {cell : Cell} :
    cell.rounded = cell ↔ cell.Whole fun t => t.nanos = 0 := by
  induction cell with
  | moment value =>
    obtain ⟨date, hour, minute, second, nanos, _⟩ := value
    simp only [rounded, Whole, Moment.rounded, TimeOfDay.rounded, TimeOfDay.millis,
      Cell.moment.injEq, Moment.mk.injEq, TimeOfDay.mk.injEq, true_and]
    omega
  | time value =>
    obtain ⟨hour, minute, second, nanos, _⟩ := value
    simp only [rounded, Whole, TimeOfDay.toSecond, Cell.time.injEq, TimeOfDay.mk.injEq, true_and]
    exact eq_comm
  | formatted value shown ih =>
    rw [rounded, Whole, ← ih, Cell.formatted.injEq]
    exact and_iff_left rfl
  | _ => exact iff_of_true rfl trivial

/-- A cell is a layer itself. -/
theorem length_layers_pos (cell : Cell) : 0 < cell.layers.length := by
  cases cell <;> exact Nat.succ_pos _

/-- A cell has one layer more than characters at most. -/
theorem length_layers_le (cell : Cell) : cell.layers.length ≤ cell.chars.length + 1 := by
  induction cell with
  | formatted value shown ih =>
    unfold chars at ih ⊢
    rw [layers, literal, Literal.chars, List.length_cons, List.length_cons, List.length_append,
      List.length_cons, List.length_append]
    omega
  | _ => exact Nat.le_add_left 1 _

end Cell

namespace TableReader

open LiteralReader Text

/-- Quoted text is read as the text. -/
theorem string?_append (text : String) (rest : List Char) :
    string? ((scriptQuote text).toList ++ rest) = some (text, rest) := by
  obtain ⟨inside, hinside, hread⟩ := text?_append text rest
  rw [hinside, List.cons_append, string?, hread]
  rfl

/-- A member with text as it is written. -/
def memberChars (member : String × String) : List Char :=
  (scriptQuote member.1).toList ++ ':' :: (scriptQuote member.2).toList

/-- A member with text as it is in JSON. -/
def textMember (member : String × String) : String × Json :=
  (member.1, .text member.2)

/-- A member is read as it was written. -/
theorem member?_append (member : String × String) (rest : List Char) :
    member? (memberChars member ++ rest) = some (textMember member, rest) := by
  rw [memberChars, List.append_assoc, List.cons_append, member?, string?_append]
  simp only [Option.bind_eq_bind, Option.bind_some, after?_cons, string?_append]
  rfl

/-- After a quoted text, the guard begins anew. -/
theorem guardChars_quote_append (text : String) (chars : List Char) :
    guardChars ((quote text).toList ++ chars) = (scriptQuote text).toList ++ guardChars chars := by
  have hlast : '<' ∉ (quote text).toList.getLast? := by
    simp [getLast?_quote]
  rw [guardChars_append_of_getLast? hlast, scriptQuote, guardTags, String.toList_ofList]

/-- The guard goes member by member. -/
theorem guardChars_member (member : String × String) (chars : List Char) :
    guardChars ((quote member.1).toList ++ ':' :: ((quote member.2).toList ++ chars)) =
      memberChars member ++ guardChars chars := by
  rw [guardChars_quote_append, guardChars_cons_of_ne (by decide), guardChars_quote_append,
    memberChars, List.append_assoc, List.cons_append]

/-- Further members with text as they are written for a script. -/
theorem guardChars_restMemberChars (members : List (String × String)) :
    guardChars (Json.restMemberChars .compact 1 (members.map textMember) ++ ['\x7d']) =
      furtherChars [','] '\x7d' memberChars members [] := by
  induction members with
  | nil => rfl
  | cons member members ih =>
    have hchars : Json.restMemberChars .compact 1 ((member :: members).map textMember) ++ ['\x7d'] =
        ',' :: ((quote member.1).toList ++ ':' :: ((quote member.2).toList ++
          (Json.restMemberChars .compact 1 (members.map textMember) ++ ['\x7d']))) := by
      rw [List.map_cons, textMember, Json.restMemberChars, Json.chars]
      simp only [JsonLayout.lineStart_compact, JsonLayout.colon_compact, List.nil_append,
        List.cons_append, List.append_assoc]
    rw [hchars, guardChars_cons_of_ne (by decide), guardChars_member, ih, furtherChars,
      furtherChars, List.flatMap_cons]
    simp only [List.append_assoc, List.cons_append, List.nil_append]

/-- An object with texts as it is written for a script. -/
theorem toList_scriptText_object (member : String × String) (members : List (String × String)) :
    (Json.object ((member :: members).map textMember)).scriptText.toList =
      '\x7b' :: (memberChars member ++ furtherChars [','] '\x7d' memberChars members []) := by
  have hchars : (Json.object ((member :: members).map textMember)).chars .compact 0 =
      '\x7b' :: ((quote member.1).toList ++ ':' :: ((quote member.2).toList ++
        (Json.restMemberChars .compact 1 (members.map textMember) ++ ['\x7d']))) := by
    rw [List.map_cons, textMember, Json.chars, Json.chars]
    simp only [JsonLayout.lineStart_compact, JsonLayout.colon_compact, List.nil_append,
      List.cons_append]
  rw [Json.scriptText, guardTags, String.toList_ofList, Json.compact, String.toList_ofList, hchars,
    guardChars_cons_of_ne (by decide), guardChars_member, guardChars_restMemberChars]

/-- The members of an object with at most four texts are read as they were written. -/
theorem members?_append (member : String × String) {members : List (String × String)}
    (h : members.length < 4) (rest : List Char) :
    sequence? [','] '\x7d' member? 4
      (memberChars member ++ furtherChars [','] '\x7d' memberChars members rest) =
        some ((member :: members).map textMember, rest) :=
  sequence?_append (fun _ => rfl) (fun other _ _ _ => member?_append other _) h rest

/-- The texts of a descriptor after the label. -/
def furtherTexts (c : Column) : List (String × String) :=
  (c.type.map fun t => ("type", t.word)).toList ++
    ((c.role.map fun r => ("role", r.word)).toList ++ (c.id.map fun id => ("id", id)).toList)

/-- A descriptor consists of texts. -/
theorem descriptor_eq_texts (c : Column) :
    c.descriptor = .object ((("label", c.label) :: furtherTexts c).map textMember) := by
  obtain ⟨label, type, role, id⟩ := c
  cases type <;> cases role <;> cases id <;> rfl

/-- There are three texts after the label at most. -/
theorem length_furtherTexts (c : Column) : (furtherTexts c).length < 4 := by
  have hone {α : Type} (text? : Option α) : text?.toList.length ≤ 1 := by
    cases text? <;> simp
  have htype := hone (c.type.map fun t => ("type", t.word))
  have hrole := hone (c.role.map fun r => ("role", r.word))
  have hid := hone (c.id.map fun id => ("id", id))
  rw [furtherTexts, List.length_append, List.length_append]
  omega

/-- A column is read as what stands over it. -/
theorem heading?_append (c : Column) (rest : List Char) :
    heading? (c.header.scriptText.toList ++ rest) = some (c.heading, rest) := by
  rw [Column.header, Column.heading]
  split
  · obtain ⟨inside, hinside, _⟩ := text?_append c.label []
    have hchars : (Json.text c.label).scriptText = scriptQuote c.label := by
      rw [Json.scriptText, Json.compact, Json.chars, String.ofList_toList, scriptQuote]
    have hread := string?_append c.label rest
    rw [hchars]
    rw [hinside, List.cons_append] at hread ⊢
    rw [heading?, hread]
    · rfl
    · exact fun _ heq => absurd (List.cons.inj heq).1 (by decide)
  · have hread := members?_append ("label", c.label) (length_furtherTexts c) rest
    have hcolumn := c.ofJson?_descriptor .null
    rw [descriptor_eq_texts] at hcolumn ⊢
    rw [toList_scriptText_object, List.cons_append, heading?, List.append_assoc, furtherChars,
      List.append_assoc, List.singleton_append, ← furtherChars, hread]
    simp only [Option.bind_eq_bind, Option.bind_some, hcolumn]
    rfl

/-- The arguments of a date are those of the date. -/
theorem ofArguments?_date (d : Date) : ofArguments? d.arguments = some (.date d) := by
  rw [Date.arguments, ofArguments?, Int.toNat_natCast, d.of?_arguments]
  rfl

/-- The arguments of a moment are those of the moment to the whole millisecond. -/
theorem ofArguments?_moment (m : Moment) :
    ofArguments? m.arguments = some (.moment m.rounded) := by
  have hmillis : ((if m.time.millis = 0 then [] else [(m.time.millis : Int)]).headD 0).toNat =
      m.time.millis := by
    split <;> simp_all
  rw [Moment.arguments, Date.arguments]
  simp only [List.cons_append, List.nil_append, ofArguments?, hmillis, Int.toNat_natCast,
    m.date.of?_arguments, m.time.of?_rounded, Option.bind_eq_bind, Option.bind_some]
  rfl

/-- A call with a date or a moment is read as such. -/
theorem cell?_dateCall {n : Int} {numbers : List Int} (h : numbers.length < 7) {cell : Cell}
    (hcell : ofArguments? (n :: numbers) = some cell) (bound : Nat) (rest : List Char) :
    cell? (bound + 1) ((dateCall (n :: numbers)).toList ++ rest) = some (cell, rest) := by
  have hnumbers : numbers? ')' 7 ((argumentList (n :: numbers)).toList ++ ')' :: rest) =
      some (n :: numbers, rest) :=
    numbers?_append rfl (by decide) h rest
  rw [toList_dateCall_append]
  change cell? (bound + 1) ('n' :: 'e' :: 'w' :: ' ' :: 'D' :: 'a' :: 't' :: 'e' :: '(' ::
    ((argumentList (n :: numbers)).toList ++ ')' :: rest)) = _
  rw [cell?, hnumbers]
  simp only [Option.bind_eq_bind, Option.bind_some, hcell]
  rfl

/-- True, false, a number and a text begin neither with a bracket nor as null and dates do. -/
theorem exists_chars_cons {l : Literal} (h : l.Readable) (hnull : l ≠ .null) {cell : Cell}
    (hcell : ofLiteral? l = some cell) :
    ∃ c tail, l.chars = c :: tail ∧ c ≠ '\x7b' ∧ c ≠ '[' ∧ c ≠ 'n' := by
  cases h with
  | null => exact absurd rfl hnull
  | bool value => cases value <;> exact ⟨_, _, rfl, by decide, by decide, by decide⟩
  | number negative m =>
    obtain ⟨c, chars, hcons, hc⟩ := exists_spell_cons m
    rw [Literal.chars, toList_text_finite]
    cases negative with
    | true => exact ⟨'-', _, rfl, by decide, by decide, by decide⟩
    | false =>
      refine ⟨c, chars, hcons, ?_, ?_, ?_⟩ <;> rintro rfl <;> cases hc
  | text value =>
    obtain ⟨inside, hinside, _⟩ := text?_append value []
    rw [Literal.chars, hinside]
    exact ⟨'"', _, rfl, by decide, by decide, by decide⟩
  | _ => cases hcell

/-- A constant, a number or a text is read as it was written. -/
theorem cell?_leaf {l : Literal} (h : l.Readable) {cell : Cell} (hcell : ofLiteral? l = some cell)
    (bound : Nat) {rest : List Char} (hrest : Ends rest) :
    cell? (bound + 1) (l.chars ++ rest) = some (cell, rest) := by
  by_cases hnull : l = .null
  · subst hnull
    cases hcell
    rfl
  · have hitems : ∀ items, l ≠ .array items := by
      rintro items rfl
      cases hcell
    have hmembers : ∀ members, l ≠ .object members := by
      rintro members rfl
      cases hcell
    have hsame : l.rounded = l := by
      cases l with
      | moment value => cases hcell
      | array items => cases hcell
      | object members => cases hcell
      | _ => rfl
    have hread := literal?_leaf h hitems hmembers 0 hrest
    obtain ⟨c, tail, hcons, hbrace, hbracket, hcall⟩ := exists_chars_cons h hnull hcell
    rw [hsame] at hread
    rw [hcons, List.cons_append] at hread ⊢
    rw [cell?]
    · simp only [hread, hcell, Option.bind_eq_bind, Option.bind_some]
      rfl
    all_goals
      intro _ heq
      exact absurd (List.cons.inj heq).1 (by assumption)

/-- A time of day is read to the second. -/
theorem cell?_time (t : TimeOfDay) (bound : Nat) (rest : List Char) :
    cell? (bound + 1) ((Cell.time t).chars ++ rest) = some (.time t.toSecond, rest) := by
  have hnumbers : numbers? ']' 3 ((argumentList [(t.hour : Int), t.minute, t.second]).toList ++
      ']' :: rest) = some ([(t.hour : Int), t.minute, t.second], rest) :=
    numbers?_append rfl (by decide) (Nat.lt_succ_self 2) rest
  have htime : TimeOfDay.of? t.hour t.minute t.second 0 = some t.toSecond :=
    dif_pos t.toSecond.valid
  have hchars : (Cell.time t).chars ++ rest =
      '[' :: ((argumentList [(t.hour : Int), t.minute, t.second]).toList ++ ']' :: rest) := by
    rw [Cell.chars, Cell.literal, Literal.chars, String.toList_append, String.toList_append,
      List.append_assoc, List.append_assoc]
    rfl
  rw [hchars, cell?, hnumbers]
  simp only [Option.bind_eq_bind, Option.bind_some, ofTriple?, Int.toNat_natCast, htime]
  rfl

/-- A value that is shown otherwise is read with the text that is shown for it. -/
theorem cell?_formatted {value read : Cell} {shown : String} {bound : Nat} {rest : List Char}
    (hvalue : ∀ rest, Ends rest → cell? bound (value.chars ++ rest) = some (read, rest)) :
    cell? (bound + 1) ((Cell.formatted value shown).chars ++ rest) =
      some (.formatted read shown, rest) := by
  have hchars : (Cell.formatted value shown).chars ++ rest =
      '\x7b' :: 'v' :: ':' :: (value.chars ++
        ',' :: 'f' :: ':' :: ((scriptQuote shown).toList ++ '\x7d' :: rest)) := by
    simp only [Cell.chars, Cell.literal, Literal.chars, Literal.restMemberChars, Key.chars,
      List.append_assoc, List.cons_append, List.nil_append]
    rfl
  have hshown : shown? (',' :: 'f' :: ':' :: ((scriptQuote shown).toList ++ '\x7d' :: rest)) =
      some (shown, rest) := by
    rw [shown?, string?_append]
    simp only [Option.bind_eq_bind, Option.bind_some, after?_cons]
    rfl
  rw [hchars, cell?, hvalue _ (ends_cons (.inl rfl) _)]
  simp only [Option.bind_eq_bind, Option.bind_some, hshown]
  rfl

/-- A cell of finite numbers and without code is read as its array says it. -/
theorem cell?_append {cell : Cell} (hcode : cell.CodeFree) (hfinite : cell.isFinite = true)
    {bound : Nat} (hbound : cell.layers.length ≤ bound) {rest : List Char} (hrest : Ends rest) :
    cell? bound (cell.chars ++ rest) = some (cell.rounded, rest) := by
  obtain ⟨bound, rfl⟩ : ∃ k, bound = k + 1 :=
    Nat.exists_eq_add_one.mpr (Nat.lt_of_lt_of_le cell.length_layers_pos hbound)
  induction cell generalizing bound rest with
  | null => exact cell?_leaf .null rfl bound hrest
  | flag value => exact cell?_leaf (.bool value) rfl bound hrest
  | number value =>
    cases value with
    | finite negative m => exact cell?_leaf (.number negative m) rfl bound hrest
    | _ => cases hfinite
  | text value => exact cell?_leaf (.text value) rfl bound hrest
  | date value =>
    have hlength : [(value.month : Int) - 1, value.day].length < 7 := by simp
    rw [Cell.chars, Cell.literal, Literal.chars]
    exact cell?_dateCall hlength (ofArguments?_date value) bound rest
  | moment value =>
    have hlength : ([(value.date.month : Int) - 1, value.date.day] ++
        [(value.time.hour : Int), value.time.minute, value.time.second] ++
        if value.time.millis = 0 then [] else [(value.time.millis : Int)]).length < 7 := by
      split <;> simp
    rw [Cell.chars, Cell.literal, Literal.chars]
    exact cell?_dateCall hlength (ofArguments?_moment value) bound rest
  | time value => exact cell?_time value bound rest
  | formatted value shown ih =>
    have hinner : value.layers.length ≤ bound := Nat.le_of_succ_le_succ hbound
    obtain ⟨bound, rfl⟩ : ∃ k, bound = k + 1 :=
      Nat.exists_eq_add_one.mpr (Nat.lt_of_lt_of_le value.length_layers_pos hinner)
    exact cell?_formatted fun rest hrest => ih hcode hfinite hrest bound hinner
  | code source => exact absurd hcode id

/-- An array of cells as it is written. -/
def rowChars (row : List Cell) : List Char :=
  (Literal.array (row.map Cell.literal)).spell.toList

/-- A row is written cell by cell. -/
theorem rowChars_cons_append (cell : Cell) (row : List Cell) (rest : List Char) :
    rowChars (cell :: row) ++ rest = '[' :: (cell.chars ++
      furtherChars [','] ']' Cell.chars row rest) := by
  have hrest (row : List Cell) : Literal.restChars (row.map Cell.literal) =
      row.flatMap fun cell => ',' :: cell.chars := by
    induction row with
    | nil => rfl
    | cons cell row ih => rw [List.map_cons, Literal.restChars, ih, List.flatMap_cons]; rfl
  rw [rowChars, Literal.spell, String.toList_ofList, List.map_cons, Literal.chars, hrest,
    furtherChars, Cell.chars]
  simp only [List.cons_append, List.append_assoc, List.nil_append]

/-- An array of cells is at least as long as each of them, its brackets apart, and as all the cells
after the first. -/
theorem length_lt_rowChars (cell : Cell) (row : List Cell) :
    row.length < (rowChars (cell :: row)).length ∧
      ∀ other ∈ cell :: row, other.chars.length < (rowChars (cell :: row)).length := by
  have hlength := congrArg List.length (rowChars_cons_append cell row [])
  rw [List.append_nil, List.length_cons, List.length_append] at hlength
  obtain ⟨hcount, hcells⟩ := length_le_furtherChars (List.cons_ne_nil ',' []) ']'
    Cell.chars row []
  rw [hlength, List.forall_mem_cons]
  exact ⟨by omega, by omega, fun other hother => by have := hcells other hother; omega⟩

/-- A row of finite numbers and without code is read as its array says it. -/
theorem row?_append {row : List Cell} (hne : row ≠ []) (hcode : ∀ cell ∈ row, cell.CodeFree)
    (hfinite : ∀ cell ∈ row, cell.isFinite = true) {bound : Nat}
    (hbound : (rowChars row).length ≤ bound) (rest : List Char) :
    array? (cell? bound) bound (rowChars row ++ rest) = some (row.map Cell.rounded, rest) := by
  obtain ⟨cell, row, rfl⟩ := List.exists_cons_of_ne_nil hne
  obtain ⟨hcount, hlength⟩ := length_lt_rowChars cell row
  have hends (others : List Cell) (rest : List Char) : Ends
      (furtherChars [','] ']' Cell.chars others rest) :=
    of_furtherChars (fun _ => ends_cons (.inl rfl) _) (fun _ => ends_cons (.inr (.inl rfl)) _)
      others rest
  have hcells : ∀ other ∈ cell :: row, ∀ rest, Ends rest →
      cell? bound (other.chars ++ rest) = some (other.rounded, rest) := by
    intro other hother rest hrest
    have hlayers := other.length_layers_le
    have hchars := hlength other hother
    exact cell?_append (hcode other hother) (hfinite other hother) (by omega) hrest
  have hread : sequence? [','] ']' (cell? bound) bound (cell.chars ++
      furtherChars [','] ']' Cell.chars row rest) =
        some ((cell :: row).map Cell.rounded, rest) :=
    sequence?_append (fun _ => rfl) (fun other hother others rest =>
      hcells other hother _ (hends others rest)) (Nat.lt_of_lt_of_le hcount hbound) rest
  rw [rowChars_cons_append, array?, hread]

end TableReader

namespace DataTable

open TableReader LiteralReader

/-- The header of a table is written heading by heading. -/
theorem toList_headerText_append {column : Column} {columns : List Column} {t : DataTable}
    (h : t.columns = column :: columns) (rest : List Char) :
    t.headerText.toList ++ rest = '[' :: (column.header.scriptText.toList ++
      furtherChars [','] ']' (fun c => c.header.scriptText.toList) columns rest) := by
  have hopen : "[".toList = ['['] := rfl
  have hcomma : ",".toList = [','] := rfl
  have hclose : "]".toList = [']'] := rfl
  rw [headerText, h, List.map_cons, String.toList_append, String.toList_append,
    Text.toList_intercalate_cons, List.flatMap_map]
  simp only [hopen, hcomma, hclose, furtherChars, List.append_assoc, List.cons_append,
    List.nil_append]

/-- The array of a table is written row by row, after the header. -/
theorem toList_arrayText (t : DataTable) :
    t.arrayText.toList =
      '[' :: (t.headerText.toList ++ furtherChars [','] ']' rowChars t.rows []) := by
  rw [arrayText, String.toList_append, String.toList_append, Text.toList_intercalate_cons,
    List.flatMap_map, List.append_assoc, List.append_assoc]
  rfl

/-- The columns of a table are read from its header as what stands over them. -/
theorem header?_append (t : DataTable) {bound : Nat} (hbound : t.headerText.toList.length ≤ bound)
    (rest : List Char) :
    array? heading? bound (t.headerText.toList ++ rest) =
      some (t.columns.map Column.heading, rest) := by
  obtain ⟨column, columns, hcolumns⟩ := List.exists_cons_of_ne_nil t.columns_ne_nil
  have hlength := congrArg List.length (toList_headerText_append hcolumns [])
  rw [List.append_nil, List.length_cons, List.length_append] at hlength
  obtain ⟨hcount, _⟩ := length_le_furtherChars (List.cons_ne_nil ',' []) ']'
    (fun c : Column => c.header.scriptText.toList) columns []
  have hread : sequence? [','] ']' heading? bound (column.header.scriptText.toList ++
      furtherChars [','] ']' (fun c : Column => c.header.scriptText.toList) columns rest) =
        some ((column :: columns).map Column.heading, rest) :=
    sequence?_append (fun _ => rfl) (fun c _ _ _ => heading?_append c _) (by omega) rest
  rw [toList_headerText_append hcolumns, array?, hcolumns, hread]

/-- A table without code is read as its array says it. -/
theorem read?_arrayText_eq {t : DataTable} (h : t.CodeFree) :
    read? t.arrayText =
      some (t.columns.map Column.heading, t.rows.map fun row => row.map Cell.rounded) := by
  have hlength := congrArg List.length t.toList_arrayText
  rw [List.length_cons, List.length_append] at hlength
  obtain ⟨hcount, hrows⟩ :=
    length_le_furtherChars (List.cons_ne_nil ',' []) ']' rowChars t.rows []
  obtain ⟨bound, hbound⟩ : ∃ bound, bound = t.arrayText.toList.length + 1 := ⟨_, rfl⟩
  have hheader : array? heading? bound
      (t.headerText.toList ++ furtherChars [','] ']' rowChars t.rows []) =
        some (t.columns.map Column.heading, furtherChars [','] ']' rowChars t.rows []) :=
    t.header?_append (by omega) _
  have hread : further? [','] ']' (array? (cell? bound) bound) bound
      (furtherChars [','] ']' rowChars t.rows []) =
        some (t.rows.map fun row => row.map Cell.rounded, []) := by
    refine further?_append (fun _ => rfl) (fun row hrow others rest => ?_) (by omega) []
    obtain ⟨hwidth, hfinite⟩ := t.rows_fit row hrow
    have hne : row ≠ [] := by
      rintro rfl
      exact t.columns_ne_nil (List.length_eq_zero_iff.mp hwidth.symm)
    have hlong := hrows row hrow
    exact row?_append hne (h row hrow) hfinite (by omega) _
  rw [read?, ← hbound, t.toList_arrayText, table?]
  simp only [hheader, hread, Option.bind_eq_bind, Option.bind_some]
  rfl

/-- The array that a table without code is declared as is read back to the table: first the header,
with the label of each column that has nothing else and the descriptor of every other, and then the
rows, each with a cell for each column. The cells are read back as they were exactly when moments
are of whole milliseconds and times of day of whole seconds outside a leap second. -/
theorem arrayText_read_back (t : DataTable) (h : t.CodeFree) :
    (∀ name, (Statement.declare name (.table (.rows t))).text =
      "var " ++ name ++ " = new google.visualization.arrayToDataTable(" ++ t.arrayText ++
        ", false);") ∧
      read? t.arrayText =
        some (t.columns.map Column.heading, t.rows.map fun row => row.map Cell.rounded) ∧
      (t.columns.map Column.heading).map Heading.column = t.columns ∧
      (∀ row ∈ t.rows, row.length = t.columns.length) ∧
      (read? t.arrayText = some (t.columns.map Column.heading, t.rows) ↔
        ∀ row ∈ t.rows, ∀ cell ∈ row, cell.Whole fun time => time.nanos = 0) := by
  have hread := read?_arrayText_eq h
  refine ⟨fun name => ?_, hread, ?_, fun row hrow => (t.rows_fit row hrow).1, ?_⟩
  · change "var " ++ name ++ " = " ++ ("new google.visualization.arrayToDataTable(" ++ t.arrayText ++
      ", false)") ++ ";" = _
    simp only [String.append_assoc]
    rfl
  · rw [List.map_map]
    exact (List.map_congr_left fun c _ => c.column_heading).trans (List.map_id _)
  · have hself {α : Type} (f : α → α) (items : List α) :
        items.map f = items ↔ ∀ item ∈ items, f item = item := by
      rw [← List.map_inj_left, List.map_id']
    rw [hread, Option.some_inj, Prod.mk.injEq, and_iff_right rfl, hself]
    refine forall₂_congr fun row _ => ?_
    rw [hself]
    exact forall₂_congr fun cell _ => Cell.rounded_eq_self_iff

/-- A table whose texts would end their literals and the rows around them if they were written as
they stand, with a leap second in a moment and a value that is shown as something else twice. -/
def sampleTable : DataTable where
  columns := [.ofLabel "\"],[", ⟨"</day>", some .datetime, none, some "d"⟩,
    ⟨"note", none, some .tooltip, none⟩]
  rows := [[.text "</script>", .date ⟨50, 1, 1, rfl⟩,
      .formatted (.formatted (.number (.ofInt (-3))) "\"\x7d") "]]"],
    [.null, .moment ⟨⟨2016, 12, 31, rfl⟩, ⟨23, 59, 59, 1500000000, rfl⟩⟩,
      .time ⟨23, 59, 59, 0, rfl⟩]]
  columns_ne_nil := List.cons_ne_nil _ _
  rows_fit := (@rowsFault_eq_none _ 0 _).mp (by decide +kernel)

/-- The sample is read back as it was. -/
theorem arrayText_read_back_sampleTable :
    sampleTable.CodeFree ∧ read? sampleTable.arrayText =
      some (sampleTable.columns.map Column.heading, sampleTable.rows) := by
  have hfree : sampleTable.CodeFree := by
    simp [sampleTable, CodeFree, Cell.CodeFree]
  obtain ⟨_, _, _, _, hexact⟩ := arrayText_read_back sampleTable hfree
  refine ⟨hfree, hexact.mpr ?_⟩
  simp [sampleTable, Cell.Whole]

/-- A table with one time of day. -/
def timeTable (time : TimeOfDay) : DataTable where
  columns := [⟨"at", some .timeofday, none, none⟩]
  rows := [[.time time]]
  columns_ne_nil := List.cons_ne_nil _ _
  rows_fit := List.forall_mem_singleton.mpr ⟨rfl, List.forall_mem_singleton.mpr rfl⟩

/-- Not all tables of whole seconds can be read back, by whatever reader: a leap second is written
as the second before it. -/
theorem not_read_back_leap_second :
    (timeTable ⟨23, 59, 59, 1000000000, rfl⟩).arrayText =
        (timeTable ⟨23, 59, 59, 0, rfl⟩).arrayText ∧
      ¬∃ read : String → Option (List Column × List (List Cell)), ∀ t : DataTable, t.CodeFree →
        (∀ row ∈ t.rows, ∀ cell ∈ row, cell.Whole fun time => time.nanos % 1000000000 = 0) →
          read t.arrayText = some (t.columns, t.rows) := by
  have hsame : (timeTable ⟨23, 59, 59, 1000000000, rfl⟩).arrayText =
      (timeTable ⟨23, 59, 59, 0, rfl⟩).arrayText := rfl
  have hone {time : TimeOfDay} {P : Cell → Prop} (hP : P (.time time)) :
      ∀ row ∈ (timeTable time).rows, ∀ cell ∈ row, P cell :=
    List.forall_mem_singleton.mpr (List.forall_mem_singleton.mpr hP)
  refine ⟨hsame, ?_⟩
  rintro ⟨read, hread⟩
  have hleap := hread (timeTable ⟨23, 59, 59, 1000000000, rfl⟩) (hone trivial)
    (hone (by simp [Cell.Whole]))
  have hlast := hread (timeTable ⟨23, 59, 59, 0, rfl⟩) (hone trivial)
    (hone (by simp [Cell.Whole]))
  rw [hsame, hlast] at hleap
  have htimes : (⟨23, 59, 59, 0, rfl⟩ : TimeOfDay) = ⟨23, 59, 59, 1000000000, rfl⟩ := by
    simpa [timeTable] using hleap
  exact absurd htimes (by decide)

end DataTable

end ChartScript
