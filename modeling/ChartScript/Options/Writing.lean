import ChartScript.Options.Assignment
import ChartScript.Script.Literal

/-!
# Writing option trees

An option tree becomes an object literal with one member for each field that has something to say,
in the order of the schema: the assigned value unless it is vacant, else the default if there is
one. Every assigned value is checked against its field once more; a tree built by the checked
operations passes, so an error here means that a tree was put together by other means.

The first error in schema order is the one reported.
-/

namespace ChartScript

/-- The default of a field as a literal; a number without a literal is written as `null`. -/
def FieldDefault.literal : FieldDefault → Literal
  | .flag value => .bool value
  | .number value => if value.isFinite then .number value else .null
  | .text value => .text value

namespace Options

/-- What one field contributes to the object literal, given the entries and their literals. -/
def member (entries : List (String × OptionValue × Except Error Literal))
    (spec : FieldSpec Schema) : Except Error (Option (Key × Literal)) :=
  match Keyed.find? spec.name entries with
  | some (value, written) => do
    spec.check value
    if value.isVacant then return none
    let literal ← written
    return some (.field spec.name, literal)
  | none => .ok (spec.default.map fun value => (.field spec.name, value.literal))

/-- The object literal of a list of fields. -/
def members (entries : List (String × OptionValue × Except Error Literal)) :
    List (FieldSpec Schema) → Except Error (List (Key × Literal))
  | [] => .ok []
  | spec :: specs => do
    let first ← member entries spec
    let rest ← members entries specs
    return first.toList ++ rest

end Options

mutual

/-- A value as a literal. -/
def OptionValue.literal (field : String) : OptionValue → Except Error Literal
  | .flag value => .ok (.bool value)
  | .number value => Literal.ofNumber field value
  | .text value => .ok (.text value)
  | .moment value => .ok (.moment value)
  | .code source => .ok (.code source)
  | .list items => (OptionValue.itemLiterals field items).map .array
  | .object options => options.literal
  | .indexed entries => (Options.entryLiterals entries).map .object

/-- A tree as an object literal. -/
def Options.literal : Options → Except Error Literal
  | ⟨schema, entries⟩ =>
    (Options.members (Options.fieldLiterals entries) schema.fields).map .object

/-- The items of a list as literals, up to the first that has none. -/
def OptionValue.itemLiterals (field : String) : List OptionValue → Except Error (List Literal)
  | [] => .ok []
  | item :: rest => do
    let first ← item.literal field
    let others ← OptionValue.itemLiterals field rest
    return first :: others

/-- The entries of a labelled collection as members. -/
def Options.entryLiterals : List (UInt32 × Options) → Except Error (List (Key × Literal))
  | [] => .ok []
  | (label, options) :: rest => do
    let first ← options.literal
    let others ← Options.entryLiterals rest
    return (.label label, first) :: others

/-- Each assigned value together with its literal. -/
def Options.fieldLiterals :
    List (String × OptionValue) → List (String × OptionValue × Except Error Literal)
  | [] => []
  | (field, value) :: rest =>
    (field, value, value.literal field) :: Options.fieldLiterals rest

end

namespace Options

/-- A tree as text. -/
def render (options : Options) : Except Error String :=
  options.literal.map Literal.spell

/-- Values and literals are found under the same names. -/
theorem find?_fieldLiterals (field : String) (entries : List (String × OptionValue)) :
    Keyed.find? field (fieldLiterals entries) =
      (Keyed.find? field entries).map fun value => (value, value.literal field) := by
  induction entries with
  | nil => rfl
  | cons entry rest ih =>
    obtain ⟨name, value⟩ := entry
    simp only [fieldLiterals, Keyed.find?]
    split
    · rename_i h
      rw [Std.LawfulEqOrd.eq_of_compare h]
      rfl
    · exact ih

end Options

end ChartScript
