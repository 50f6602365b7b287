import ChartScript.Calendar.Moment
import ChartScript.Keyed
import ChartScript.Number.Spelling
import ChartScript.Schema.Description

/-!
# Option trees

A tree of assigned options: each node belongs to a schema and holds values for some of its fields.
Entries are kept in ascending order of field name, labelled collections in ascending order of label,
so nothing remembers the order of assignments.

The types do not enforce that a value fits its field; `OptionValue.fits` says so for one value, and
the operations of `Options.Assignment` check it before they store anything.
-/

namespace ChartScript

mutual

/-- A value assigned to a field. -/
inductive OptionValue where
  | flag (value : Bool)
  | number (value : Binary64)
  | text (value : String)
  | moment (value : Moment)
  /-- Code, which any field takes. -/
  | code (source : String)
  | list (items : List OptionValue)
  | object (options : Options)
  | indexed (entries : List (UInt32 × Options))

/-- A node of an option tree. -/
structure Options where
  schema : Schema
  entries : List (String × OptionValue)

end

namespace Options

/-- The node of a schema with nothing assigned. -/
def empty (schema : Schema) : Options := ⟨schema, []⟩

/-- The value assigned to a field. -/
def get? (options : Options) (field : String) : Option OptionValue :=
  Keyed.find? field options.entries

/-- How many fields are assigned. -/
def size (options : Options) : Nat :=
  options.entries.length

/-- Nothing is assigned, not even something empty. -/
def isEmpty (options : Options) : Bool :=
  options.entries.isEmpty

/-- The assigned fields in the order in which the schema writes them. -/
def assigned (options : Options) : List (String × OptionValue) :=
  options.schema.fields.filterMap fun spec => (options.get? spec.name).map (spec.name, ·)

end Options

mutual

/-- A value that stands for nothing: an object below which nothing is assigned but such values, or a
labelled collection without entries. -/
def OptionValue.isVacant : OptionValue → Bool
  | .object options => options.isVacant
  | .indexed entries => entries.isEmpty
  | _ => false

/-- A node below which there is nothing to write. -/
def Options.isVacant : Options → Bool
  | ⟨_, entries⟩ => Options.entriesVacant entries

/-- Whether all values of a list of entries are vacant. -/
def Options.entriesVacant : List (String × OptionValue) → Bool
  | [] => true
  | (_, value) :: rest => value.isVacant && Options.entriesVacant rest

end

namespace OptionValue

/-- The shape of a value in words. -/
def shape : OptionValue → String
  | .flag _ => "a boolean"
  | .number value =>
    if value.isFinite then "a number" else "the non-finite number " ++ value.text
  | .text value => "the string '" ++ value ++ "'"
  | .moment _ => "a date"
  | .code _ => "raw code"
  | .list _ => "a list"
  | .object options => options.schema.describe
  | .indexed _ => "an integer-labelled collection"

/-- Whether a single value is of a kind. -/
def fitsScalar (kind : ScalarKind) : OptionValue → Bool
  | .flag _ => match kind with
    | .flag | .flagOrOneOf _ => true
    | _ => false
  | .number value => match kind with
    | .number | .numberOrText | .numberOrDate => value.isFinite
    | _ => false
  | .text value => match kind with
    | .text | .numberOrText => true
    | .oneOf allowed | .flagOrOneOf allowed => allowed.contains value
    | _ => false
  | .moment _ => match kind with
    | .date | .numberOrDate => true
    | _ => false
  | _ => false

/-- Whether a field of a kind may hold the value. Code is held by every field; what is inside an
object is the business of its own schema. -/
def fits (kind : FieldKind Schema) (value : OptionValue) : Bool :=
  match value, kind with
  | .code _, _ => true
  | value, .scalar kind => value.fitsScalar kind
  | .object options, .object schema => options.schema.isA schema
  | .object options, .scalarOrObject _ schema => options.schema.isA schema
  | value, .scalarOrObject kind _ => value.fitsScalar kind
  | .indexed entries, .indexed schema => entries.all fun (_, options) => options.schema.isA schema
  | .list items, .objectList schema => items.all fun
    | .object options => options.schema.isA schema
    | .code _ => true
    | _ => false
  | .list items, .scalarList kind => items.all fun
    | .code _ => true
    | item => item.fitsScalar kind
  | _, _ => false

end OptionValue

mutual

/-- Whether two values are the same: numbers are compared as numbers, objects by the names of their
schemas and by their entries. -/
def OptionValue.same : OptionValue → OptionValue → Bool
  | .flag a, .flag b => a == b
  | .number a, .number b => a.sameValue b
  | .text a, .text b => a == b
  | .moment a, .moment b => a == b
  | .code a, .code b => a == b
  | .list a, .list b => OptionValue.sameItems a b
  | .object a, .object b => a.same b
  | .indexed a, .indexed b => OptionValue.sameLabelled a b
  | _, _ => false

/-- Whether two nodes are the same. -/
def Options.same : Options → Options → Bool
  | ⟨schema, entries⟩, other =>
    schema.name == other.schema.name && Options.sameEntries entries other.entries

/-- Whether two lists hold the same values in the same order. -/
def OptionValue.sameItems : List OptionValue → List OptionValue → Bool
  | [], [] => true
  | a :: as, b :: bs => a.same b && OptionValue.sameItems as bs
  | _, _ => false

/-- Whether two collections hold the same nodes under the same labels. -/
def OptionValue.sameLabelled : List (UInt32 × Options) → List (UInt32 × Options) → Bool
  | [], [] => true
  | (k, a) :: as, (l, b) :: bs => k == l && a.same b && OptionValue.sameLabelled as bs
  | _, _ => false

/-- Whether two lists of entries assign the same values to the same fields. -/
def Options.sameEntries : List (String × OptionValue) → List (String × OptionValue) → Bool
  | [], [] => true
  | (k, a) :: as, (l, b) :: bs => k == l && a.same b && Options.sameEntries as bs
  | _, _ => false

end

/-- Entries are vacant when each of their values is. -/
theorem Options.entriesVacant_eq_all (entries : List (String × OptionValue)) :
    Options.entriesVacant entries = entries.all fun entry => entry.2.isVacant := by
  induction entries with
  | nil => rfl
  | cons entry rest ih => simp [Options.entriesVacant, ih]

end ChartScript
