import ChartScript.Proofs.Keyed
import ChartScript.Proofs.Script.Inert
import ChartScript.Script.Statement

/-!
# Values without code, and emptied texts

Literals, tables and statements in which no code is written, and the same with every text in them
replaced by the empty text: the strings of options and cells, what cells show, the labels and ids of
columns. Numbers, dates and times stay, and so do names, keys and code.

What a script spells out for a value without code is put together of inert text and of quoted texts.
A relation between texts that goes part by part and does not see what is quoted therefore holds
between what is spelled out for a value and for the emptied value.
-/

namespace ChartScript

open Text

namespace Literal

/-- A literal in which no code is written and every key is inert. -/
inductive CodeFree : Literal → Prop
  | null : CodeFree .null
  | bool (value : Bool) : CodeFree (.bool value)
  | number (value : Binary64) : CodeFree (.number value)
  | text (value : String) : CodeFree (.text value)
  | date (value : Date) : CodeFree (.date value)
  | moment (value : Moment) : CodeFree (.moment value)
  | time (value : TimeOfDay) : CodeFree (.time value)
  | array {items : List Literal} (h : ∀ item ∈ items, CodeFree item) : CodeFree (.array items)
  | object {members : List (Key × Literal)} (hkeys : ∀ member ∈ members, Inert member.1.chars)
    (hvalues : ∀ member ∈ members, CodeFree member.2) : CodeFree (.object members)

/-- A literal that can be read back has no code in it. -/
theorem Readable.codeFree {l : Literal} (h : l.Readable) : l.CodeFree := by
  induction h with
  | null => exact .null
  | bool value => exact .bool value
  | number negative m => exact .number _
  | text value => exact .text value
  | moment value => exact .moment value
  | array _ ih => exact .array ih
  | object hkeys _ ih =>
    exact .object (fun member hmember => (hkeys member hmember).inert) ih

end Literal

namespace Cell

/-- A cell in which no code is written. -/
def CodeFree : Cell → Prop
  | .formatted value _ => value.CodeFree
  | .code _ => False
  | _ => True

/-- The literal of a cell without code has no code in it. -/
theorem CodeFree.literal {cell : Cell} (h : cell.CodeFree) : cell.literal.CodeFree := by
  induction cell with
  | null => exact .null
  | flag value => exact .bool value
  | number value => exact .number value
  | text value => exact .text value
  | date value => exact .date value
  | moment value => exact .moment value
  | time value => exact .time value
  | formatted value shown ih =>
    refine .object (fun member hmember => ?_) fun member hmember => ?_ <;>
      rcases List.mem_pair.mp hmember with rfl | rfl
    · exact show Inert (Key.field "v").chars by decide
    · exact show Inert (Key.field "f").chars by decide
    · exact ih h
    · exact .text shown
  | code source => exact h.elim

end Cell

/-- A table in whose cells no code is written. -/
def DataTable.CodeFree (t : DataTable) : Prop :=
  ∀ row ∈ t.rows, ∀ cell ∈ row, cell.CodeFree

/-- A table without code: there is none in the runtime's JSON form, and a source of the caller's own
is nothing else. -/
def TableSource.CodeFree : TableSource → Prop
  | .rows table => table.CodeFree
  | .json _ => True
  | .own _ => False

namespace Json

mutual

/-- JSON in which every text is empty. -/
def emptied : Json → Json
  | .text _ => .text ""
  | .array items => .array (emptiedItems items)
  | .object members => .object (emptiedMembers members)
  | json => json

/-- Items in which every text is empty. -/
def emptiedItems : List Json → List Json
  | [] => []
  | item :: rest => item.emptied :: emptiedItems rest

/-- Members in whose values every text is empty. -/
def emptiedMembers : List (String × Json) → List (String × Json)
  | [] => []
  | (key, value) :: rest => (key, value.emptied) :: emptiedMembers rest

end

/-- Members are emptied one by one. -/
theorem emptiedMembers_eq_map (members : List (String × Json)) :
    emptiedMembers members = members.map fun member => (member.1, member.2.emptied) := by
  induction members with
  | nil => rfl
  | cons member members ih => rw [emptiedMembers, ih, List.map_cons]

/-- Emptied JSON still lists its columns. -/
theorem listsColumns_emptied {json : Json} (h : json.listsColumns = true) :
    json.emptied.listsColumns = true := by
  unfold listsColumns at h
  split at h
  · rename_i members
    split at h
    · rename_i items hmember
      rw [member?] at hmember
      rw [emptied, listsColumns, member?, emptiedMembers_eq_map, Keyed.find?_map, hmember]
      rfl
    · cases h
  · cases h

end Json

namespace Literal

mutual

/-- A literal in which every text is empty. -/
def emptied : Literal → Literal
  | .text _ => .text ""
  | .array items => .array (emptiedItems items)
  | .object members => .object (emptiedMembers members)
  | l => l

/-- Items in which every text is empty. -/
def emptiedItems : List Literal → List Literal
  | [] => []
  | item :: rest => item.emptied :: emptiedItems rest

/-- Members in whose values every text is empty. -/
def emptiedMembers : List (Key × Literal) → List (Key × Literal)
  | [] => []
  | (key, value) :: rest => (key, value.emptied) :: emptiedMembers rest

end

/-- Items are emptied one by one. -/
theorem emptiedItems_eq_map (items : List Literal) :
    emptiedItems items = items.map emptied := by
  induction items with
  | nil => rfl
  | cons item items ih => rw [emptiedItems, ih, List.map_cons]

end Literal

/-- A cell in which every text is empty. -/
def Cell.emptied : Cell → Cell
  | .text _ => .text ""
  | .formatted value _ => .formatted value.emptied ""
  | cell => cell

/-- A column without a text of its own. -/
def Column.emptied (c : Column) : Column :=
  { c with label := "", id := c.id.map fun _ => "" }

/-- An emptied cell is written as its emptied literal. -/
theorem Cell.literal_emptied (cell : Cell) : cell.emptied.literal = cell.literal.emptied := by
  induction cell with
  | formatted value shown ih =>
    simp only [emptied, literal, ih, Literal.emptied, Literal.emptiedMembers]
  | _ => simp [emptied, literal, Literal.emptied]

/-- Emptying a cell leaves its numbers. -/
theorem Cell.isFinite_emptied (cell : Cell) : cell.emptied.isFinite = cell.isFinite := by
  induction cell with
  | formatted value shown ih => exact ih
  | _ => rfl

namespace DataTable

/-- A table in which every text is empty. -/
def emptied (t : DataTable) : DataTable where
  columns := t.columns.map Column.emptied
  rows := t.rows.map fun row => row.map Cell.emptied
  columns_ne_nil := List.map_eq_nil_iff.not.mpr t.columns_ne_nil
  rows_fit := List.forall_mem_map.mpr fun row hrow => by
    obtain ⟨hlength, hfinite⟩ := t.rows_fit row hrow
    refine ⟨by rw [List.length_map, List.length_map, hlength], ?_⟩
    exact List.forall_mem_map.mpr fun cell hcell => by
      rw [cell.isFinite_emptied, hfinite cell hcell]

end DataTable

/-- A table in which every text is empty. -/
def JsonTable.emptied (t : JsonTable) : JsonTable :=
  ⟨t.json.emptied, Json.listsColumns_emptied t.lists_columns⟩

/-- A table in which every text is empty, in the form that it has. -/
def TableSource.emptied : TableSource → TableSource
  | .rows table => .rows table.emptied
  | .json table => .json table.emptied
  | .own expression => .own expression

/-- An expression in whose tables and options every text is empty. -/
def Expression.emptied : Expression → Expression
  | .table source => .table source.emptied
  | .options literal => .options literal.emptied
  | e => e

/-- A statement in whose tables and options every text is empty. -/
def Statement.emptied : Statement → Statement
  | .declare name value => .declare name value.emptied
  | s => s

/-- A relation between texts that goes part by part and does not see the texts of a script: what is
inert is related to itself, and what is quoted to all else that is quoted. -/
structure BlindToTexts (R : List Char → List Char → Prop) : Prop extends PartByPart R where
  inert {chars : List Char} : Inert chars → R chars chars
  literal (text text' : String) : R (scriptQuote text).toList (scriptQuote text').toList
  json (json : Json) : R json.scriptText.toList json.emptied.scriptText.toList
  header (c : Column) : R c.header.scriptText.toList c.emptied.header.scriptText.toList

namespace BlindToTexts

open Literal

variable {R : List Char → List Char → Prop}

/-- After a character that opens nothing, texts stay related. -/
theorem cons (hR : BlindToTexts R) {c : Char} (hc : opens c = false) {chars chars' : List Char}
    (h : R chars chars') : R (c :: chars) (c :: chars') :=
  hR.append (hR.inert (List.forall_mem_singleton.mpr hc)) h

/-- Further items are related to emptied ones when each is. -/
theorem restChars (hR : BlindToTexts R) {items : List Literal}
    (h : ∀ item ∈ items, R item.chars item.emptied.chars) :
    R (restChars items) (restChars (emptiedItems items)) := by
  induction items with
  | nil => exact hR.nil
  | cons item items ih =>
    obtain ⟨hitem, hitems⟩ := List.forall_mem_cons.mp h
    rw [emptiedItems, Literal.restChars, Literal.restChars]
    exact hR.cons (by decide) (hR.append hitem (ih hitems))

/-- Further members with inert keys are related to emptied ones when the value of each is. -/
theorem restMemberChars (hR : BlindToTexts R) {members : List (Key × Literal)}
    (hkeys : ∀ member ∈ members, Inert member.1.chars)
    (h : ∀ member ∈ members, R member.2.chars member.2.emptied.chars) :
    R (restMemberChars members) (restMemberChars (emptiedMembers members)) := by
  induction members with
  | nil => exact hR.nil
  | cons member members ih =>
    obtain ⟨hkey, hkeys⟩ := List.forall_mem_cons.mp hkeys
    obtain ⟨hmember, hmembers⟩ := List.forall_mem_cons.mp h
    have hvalue := hR.cons (c := ':') (by decide) (hR.append hmember (ih hkeys hmembers))
    rw [emptiedMembers, Literal.restMemberChars, Literal.restMemberChars]
    exact hR.cons (by decide) (hR.append (hR.inert hkey) hvalue)

/-- A literal without code is related to the emptied literal. -/
theorem chars (hR : BlindToTexts R) {l : Literal} (h : l.CodeFree) :
    R l.chars l.emptied.chars := by
  induction h with
  | null => exact hR.inert (by decide)
  | bool value => exact hR.inert (by cases value <;> decide)
  | number value => exact hR.inert (value.inert_spell (by decide))
  | text value =>
    rw [emptied, Literal.chars, Literal.chars]
    exact hR.literal value ""
  | date value => exact hR.inert (inert_dateCall _)
  | moment value => exact hR.inert (inert_dateCall _)
  | time value =>
    exact hR.enclosed (hR.inert (by decide)) (hR.inert (inert_argumentList _))
      (hR.inert (by decide))
  | @array items _ ih =>
    cases items with
    | nil => exact hR.inert (by decide)
    | cons item items =>
      obtain ⟨hitem, hitems⟩ := List.forall_mem_cons.mp ih
      have hclose : R [']'] [']'] := hR.inert (by decide)
      rw [emptied, emptiedItems, Literal.chars, Literal.chars]
      exact hR.cons (by decide) (hR.append hitem (hR.append (hR.restChars hitems) hclose))
  | @object members hkeys _ ih =>
    cases members with
    | nil => exact hR.inert (by decide)
    | cons member members =>
      obtain ⟨hkey, hkeys⟩ := List.forall_mem_cons.mp hkeys
      obtain ⟨hmember, hmembers⟩ := List.forall_mem_cons.mp ih
      have hclose : R ['\x7d'] ['\x7d'] := hR.inert (by decide)
      have hrest := hR.append (hR.restMemberChars hkeys hmembers) hclose
      have hvalue := hR.cons (c := ':') (by decide) (hR.append hmember hrest)
      rw [emptied, emptiedMembers, Literal.chars, Literal.chars]
      exact hR.cons (by decide) (hR.append (hR.inert hkey) hvalue)

/-- So is its text. -/
theorem spell (hR : BlindToTexts R) {l : Literal} (h : l.CodeFree) :
    R l.spell.toList l.emptied.spell.toList := by
  rw [Literal.spell, Literal.spell, String.toList_ofList, String.toList_ofList]
  exact hR.chars h

/-- The header of a table is related to that of the emptied table. -/
theorem headerText (hR : BlindToTexts R) (t : DataTable) :
    R t.headerText.toList t.emptied.headerText.toList := by
  refine hR.enclosed (hR.inert (by decide)) ?_ (hR.inert (by decide))
  refine hR.intercalate (hR.inert (by decide)) ?_
  rw [DataTable.emptied, List.map_map, List.forall₂_map_left_iff, List.forall₂_map_right_iff,
    List.forall₂_same]
  exact fun column _ => hR.header column

/-- A row of cells without code is related to the emptied row. -/
theorem row (hR : BlindToTexts R) {row : List Cell} (h : ∀ cell ∈ row, cell.CodeFree) :
    R (Literal.array (row.map Cell.literal)).spell.toList
      (Literal.array ((row.map Cell.emptied).map Cell.literal)).spell.toList := by
  have hrow : (Literal.array (row.map Cell.literal)).CodeFree :=
    .array (List.forall_mem_map.mpr fun cell hcell => (h cell hcell).literal)
  have hemptied : (Literal.array (row.map Cell.literal)).emptied =
      .array ((row.map Cell.emptied).map Cell.literal) := by
    rw [emptied, emptiedItems_eq_map, List.map_map, List.map_map]
    exact congrArg Literal.array (List.map_congr_left fun cell _ => cell.literal_emptied.symm)
  rw [← hemptied]
  exact hR.spell hrow

/-- The array of a table without code is related to that of the emptied table. -/
theorem arrayText (hR : BlindToTexts R) {t : DataTable} (h : t.CodeFree) :
    R t.arrayText.toList t.emptied.arrayText.toList := by
  have hrows : List.Forall₂ (fun part part' => R part.toList part'.toList)
      (t.rows.map fun row => (Literal.array (row.map Cell.literal)).spell)
      (t.emptied.rows.map fun row => (Literal.array (row.map Cell.literal)).spell) := by
    rw [DataTable.emptied, List.map_map, List.forall₂_map_left_iff, List.forall₂_map_right_iff,
      List.forall₂_same]
    exact fun row hrow => hR.row (h row hrow)
  refine hR.enclosed (hR.inert (by decide)) ?_ (hR.inert (by decide))
  exact hR.intercalate (hR.inert (by decide)) (.cons (hR.headerText t) hrows)

/-- The expression for a table without code is related to that for the emptied table. -/
theorem expression (hR : BlindToTexts R) {source : TableSource} (h : source.CodeFree) :
    R source.expression.toList source.emptied.expression.toList := by
  have hcall {before text text' after : String} (hbefore : Inert before.toList)
      (hafter : Inert after.toList) (h : R text.toList text'.toList) :
      R (before ++ text ++ after).toList (before ++ text' ++ after).toList :=
    hR.enclosed (hR.inert hbefore) h (hR.inert hafter)
  cases source with
  | rows table => exact hcall (by decide) (by decide) (hR.arrayText h)
  | json table => exact hcall (by decide) (by decide) (hR.json table.json)
  | own expression => exact h.elim

end BlindToTexts

end ChartScript
