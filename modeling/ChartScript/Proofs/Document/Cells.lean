import ChartScript.Document.Charts
import ChartScript.Proofs.Json.Content
import ChartScript.Proofs.Outcome

/-!
# Cells from JSON

How the values in a row are read as cells: an object is code, or the value of its member `v`, and
anything else is a cell by itself. What holds of all cells that are read is shown in one traversal,
whatever it is and whatever is known of the values.
-/

namespace ChartScript

namespace Json

/-- What holds of all values but objects, and of an object when it holds of the values of its
members, holds of all values. -/
theorem object_induction {P : Json → Prop}
    (plain : ∀ json, (∀ members, json ≠ .object members) → P json)
    (object : ∀ members, (∀ member ∈ members, P member.2) → P (.object members)) :
    (json : Json) → P json
  | .null | .bool _ | .number _ | .text _ | .array _ => plain _ nofun
  | .object members => object members fun member _ => object_induction plain object member.2
termination_by json => sizeOf json
decreasing_by exact sizeOf_member_lt ‹_›

end Json

namespace Cell

/-- The text of a member is the text that the member is. -/
theorem memberText?_eq_some {key : String} {members : List (String × Json)} {text : String} :
    memberText? key members = some text ↔ Json.member? key members = some (.text text) := by
  rw [memberText?, Option.bind_eq_some_iff]
  constructor
  · rintro ⟨json, hjson, htext⟩
    cases json with
    | text value =>
      cases htext
      exact hjson
    | _ => cases htext
  · exact fun h => ⟨_, h, rfl⟩

/-- The value of an object is read from its member `v`. -/
theorem valueOfMembers?_eq (type : Option ColumnType) (members : List (String × Json)) :
    valueOfMembers? type members = (Json.member? "v" members).map (ofJson type) := by
  induction members with
  | nil => rfl
  | cons member members ih =>
    obtain ⟨key, value⟩ := member
    rw [valueOfMembers?, ih, Json.member?, Json.member?, Keyed.find?]
    by_cases hkey : key = "v"
    · rw [if_pos hkey, if_pos (Std.LawfulEqOrd.compare_eq_iff_eq.mpr hkey.symm)]
      rfl
    · rw [if_neg hkey, if_neg fun heq => hkey (Std.LawfulEqOrd.eq_of_compare heq).symm]

/-- What a value is shown as, if it is shown otherwise. -/
def showing (shown : Option String) (value : Cell) : Cell :=
  match shown with
  | some shown => .formatted value shown
  | none => value

/-- An object that is not code is read as its value, or fails as that does. -/
theorem ofJson_object (type : Option ColumnType) (members : List (String × Json)) :
    ofJson type (.object members) =
      match memberText? Json.codeKey members, Json.member? "v" members with
      | some source, _ => .ok (.code source)
      | none, some value => (ofJson type value).map (showing (memberText? "f" members))
      | none, none => .error .cellWithoutValue := by
  rw [ofJson, valueOfMembers?_eq]
  cases memberText? Json.codeKey members with
  | some source => rfl
  | none =>
    cases Json.member? "v" members with
    | none => rfl
    | some value =>
      rw [Option.map_some]
      cases memberText? "f" members with
      | some shown => rfl
      | none =>
        change ofJson type value = (ofJson type value).map (showing none)
        cases ofJson type value <;> rfl

/-- The value of a member is that of one of the members. -/
theorem mem_of_member? {key : String} {members : List (String × Json)} {value : Json}
    (h : Json.member? key members = some value) : (key, value) ∈ members :=
  Keyed.mem_of_find?_eq_some h

/-- A text is read as itself, or as the date or time that its column wants. -/
theorem ofText_cases {P : Cell → Prop} (type : Option ColumnType) (value : String)
    (htext : P (.text value)) (hdate : ∀ d, P (.date d)) (hmoment : ∀ m, P (.moment m))
    (htime : ∀ t, P (.time t)) : P (ofText type value) := by
  have hget {α : Type} (read : Option α) {cell : α → Cell} (hcell : ∀ a, P (cell a)) :
      P ((read.map cell).getD (text value)) := by
    cases read with
    | none => exact htext
    | some a => exact hcell a
  unfold ofText
  split
  · exact hget _ hdate
  · exact hget _ hmoment
  · exact hget _ htime
  · exact htext

end Cell

/-- A property of the cells that are read from values of which something is known, by what a cell is
read from. What is known of an object is known of the values of its members. -/
structure CellInvariant (J : Json → Prop) (P : Cell → Prop) : Prop where
  members : ∀ {members : List (String × Json)}, J (.object members) →
    ∀ member ∈ members, J member.2
  null : P .null
  flag : ∀ value, P (.flag value)
  number : ∀ {value : JsonNumber}, J (.number value) → P (.number value.toBinary64)
  text : ∀ value, P (.text value)
  date : ∀ value, P (.date value)
  moment : ∀ value, P (.moment value)
  time : ∀ value, P (.time value)
  formatted : ∀ {value : Cell} (shown : String), P value → P (.formatted value shown)
  code : ∀ {members : List (String × Json)} {source : String}, J (.object members) →
    Json.member? Json.codeKey members = some (.text source) → P (.code source)

namespace CellInvariant

variable {J : Json → Prop} {P : Cell → Prop}

/-- A cell that is read has the property. -/
theorem ofJson (inv : CellInvariant J P) {type : Option ColumnType} {json : Json} (hjson : J json)
    {cell : Cell} (h : Cell.ofJson type json = .ok cell) : P cell := by
  induction json using Json.object_induction generalizing cell with
  | plain json hplain =>
    cases json with
    | object members => exact absurd rfl (hplain members)
    | null =>
      rw [Cell.ofJson] at h
      cases h
      exact inv.null
    | bool value =>
      rw [Cell.ofJson] at h
      cases h
      exact inv.flag value
    | number value =>
      rw [Cell.ofJson] at h
      cases h
      exact inv.number hjson
    | text value =>
      rw [Cell.ofJson] at h
      cases h
      exact Cell.ofText_cases type value (inv.text value) inv.date inv.moment inv.time
    | array items =>
      rw [Cell.ofJson] at h
      cases h
  | object members ih =>
    rw [Cell.ofJson_object] at h
    split at h
    · rename_i hsource
      cases h
      exact inv.code hjson (Cell.memberText?_eq_some.mp hsource)
    · rename_i value _ hvalue
      obtain ⟨inner, hinner, rfl⟩ := map_eq_ok.mp h
      have hmember := Cell.mem_of_member? hvalue
      have hinner := ih _ hmember (inv.members hjson _ hmember) hinner
      unfold Cell.showing
      split
      · exact inv.formatted _ hinner
      · exact hinner
    · cases h

/-- The cells of a row that is read have the property. -/
theorem rowOfJson (inv : CellInvariant J P) {types : List (Option ColumnType)} {row : List Json}
    (hrow : ∀ json ∈ row, J json) {cells : List Cell} (h : Cell.rowOfJson types row = .ok cells) :
    ∀ cell ∈ cells, P cell := by
  induction row generalizing types cells with
  | nil =>
    cases h
    exact List.forall_mem_nil _
  | cons json rest ih =>
    obtain ⟨hjson, hrest⟩ := List.forall_mem_cons.mp hrow
    rw [Cell.rowOfJson] at h
    obtain ⟨first, hfirst, h⟩ := bind_eq_ok.mp h
    obtain ⟨others, hothers, h⟩ := bind_eq_ok.mp h
    cases h
    exact List.forall_mem_cons.mpr ⟨inv.ofJson hjson hfirst, ih hrest hothers⟩

end CellInvariant

end ChartScript
