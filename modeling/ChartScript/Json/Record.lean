import ChartScript.Json.Raw

/-!
# Records in JSON

A record with named fields may be written as an object, in any order and with further members that
are skipped, or as an array of its fields in order, where trailing fields may be left out. A field
may not be given twice. Which fields may be absent is for the reader of the record to say; here a
record is only taken apart.

A word out of a fixed list may be written as a string, or as an object whose one key is the word.
-/

namespace ChartScript

/-- Pick the fields of a record from members, refusing a field that is given twice. -/
def pickMembers? {τ : Type} (names : List String) (members : List (String × τ)) :
    Option (List (Option τ)) :=
  if names.any fun name => 1 < members.countP (·.1 == name) then none
  else some (names.map fun name => (members.find? (·.1 == name)).map (·.2))

/-- Pick the fields of a record from items in order, refusing items beyond the last field. -/
def pickItems? {τ : Type} (names : List String) (items : List τ) : Option (List (Option τ)) :=
  if items.length ≤ names.length then
    some ((List.range names.length).map fun i => items[i]?)
  else none

/-- The keys and values of members whose keys are text. -/
def textKeys? {τ : Type} : List (Option String × τ) → Option (List (String × τ))
  | [] => some []
  | (key, value) :: rest => do
    let key ← key
    let others ← textKeys? rest
    return (key, value) :: others

namespace RawJson

/-- The fields of a record, and the levels of nesting left below it. -/
def record? (names : List String) (depth : Nat) : RawJson → Option (Nat × List (Option RawJson))
  | .array items =>
    match depth with
    | 0 => none
    | depth + 1 => (pickItems? names items).map (depth, ·)
  | .object members =>
    match depth with
    | 0 => none
    | depth + 1 => ((textKeys? members).bind (pickMembers? names)).map (depth, ·)
  | _ => none

/-- A list of things that are read alike. -/
def list? {α : Type} (item? : Nat → RawJson → Option α) (depth : Nat) : RawJson → Option (List α)
  | .array items =>
    match depth with
    | 0 => none
    | depth + 1 => items.mapM (item? depth)
  | _ => none

/-- Something that may be null. -/
def nullable? {α : Type} (item? : RawJson → Option α) : RawJson → Option (Option α)
  | .null => some none
  | raw => (item? raw).map some

/-- A field that may be null or left out. -/
def optional? {α : Type} (item? : RawJson → Option α) : Option RawJson → Option (Option α)
  | none => some none
  | some raw => raw.nullable? item?

/-- A field that stands for something when it is left out, and then only. -/
def orDefault? {α : Type} (default : α) (item? : RawJson → Option α) : Option RawJson → Option α
  | none => some default
  | some raw => item? raw

/-- A string that denotes text. -/
def text? : RawJson → Option String
  | .string text => text
  | _ => none

/-- True or false. -/
def bool? : RawJson → Option Bool
  | .bool value => some value
  | _ => none

/-- An unsigned 32-bit number. -/
def unsigned32? : RawJson → Option Nat
  | .number lexeme => lexeme.unsigned32?
  | _ => none

/-- A word. -/
def word? (depth : Nat) : RawJson → Option String
  | .string text => text
  | .object [(some key, .null)] => if depth = 0 then none else some key
  | _ => none

end RawJson

namespace Json

/-- What may follow a word that is written as a key. -/
inductive WordContent where
  /-- Only null. -/
  | null
  /-- Null or an object without members. -/
  | nullOrEmpty

/-- Whether a value may follow a word that is written as a key. -/
def WordContent.admits : WordContent → Json → Bool
  | _, .null => true
  | .nullOrEmpty, .object [] => true
  | _, _ => false

/-- A word. -/
def word? (content : WordContent) : Json → Option String
  | .text value => some value
  | .object [(key, value)] => if content.admits value then some key else none
  | _ => none

/-- The fields of a record. -/
def record? (names : List String) : Json → Option (List (Option Json))
  | .array items => pickItems? names items
  | .object members => pickMembers? names members
  | _ => none

/-- Something that may be null or left out. -/
def nullable? {α : Type} (item? : Json → Option α) : Option Json → Option (Option α)
  | none | some .null => some none
  | some value => (item? value).map some

end Json

end ChartScript
