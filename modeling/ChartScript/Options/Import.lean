import ChartScript.Calendar.Reader
import ChartScript.Json.Value
import ChartScript.Options.Assignment

/-!
# Option trees from JSON

An object whose keys are fields of a schema becomes a tree of that schema, member by member in the
order of the members. A null member leaves its field unset. An object marked as code becomes code
wherever a value is expected. A labelled collection may be written as an object, whose keys are read
as labels, or as an array, whose positions are the labels; two keys with one label leave the entry
of the later key.

Every value is checked against its field before it is stored, so text out of range of a choice is
refused here as it is by an assignment.
-/

namespace ChartScript

namespace Options

/-- JSON of the wrong shape for a field. -/
def misshapen {α : Type} (field expected : String) (json : Json) : Except Error α :=
  .error (.shapeMismatch field expected json.shape)

/-- A single value from JSON that is not marked as code. -/
def scalarOfJson (field : String) (kind : ScalarKind) (json : Json) : Except Error OptionValue :=
  match json with
  | .bool value => .ok (.flag value)
  | .number value => .ok (.number value.toBinary64)
  | .text value =>
    match kind with
    | .date | .numberOrDate =>
      match Moment.readDateOrTime? value with
      | some moment => .ok (.moment moment)
      | none => misshapen field kind.describe json
    | _ => .ok (.text value)
  | _ => misshapen field kind.describe json

/-- A single value from JSON. -/
def markedScalarOfJson (field : String) (kind : ScalarKind) (json : Json) :
    Except Error OptionValue :=
  match json.markedCode? with
  | some code => .ok (.code code)
  | none => scalarOfJson field kind json

mutual

/-- A tree from a JSON object. -/
def ofJson (schema : Schema) : Json → Except Error Options
  | .object members => ofMembers (empty schema) members
  | json => misshapen schema.name schema.describe json

/-- Assign the members of a JSON object to a tree, one after another. -/
def ofMembers (options : Options) : List (String × Json) → Except Error Options
  | [] => .ok options
  | (key, member) :: rest => do
    let spec ← options.spec key
    match member with
    | .null => ofMembers options rest
    | member =>
      let value ← valueOfJson spec member
      let options ← options.set spec.name value
      ofMembers options rest

/-- The value of a field from JSON. -/
def valueOfJson (spec : FieldSpec Schema) (json : Json) : Except Error OptionValue :=
  match json.markedCode? with
  | some code => .ok (.code code)
  | none =>
    match spec.kind, json with
    | .object schema, .object members => (ofMembers (empty schema) members).map .object
    | .scalarOrObject _ schema, .object members => (ofMembers (empty schema) members).map .object
    | .scalar kind, json => scalarOfJson spec.name kind json
    | .scalarOrObject kind _, json => scalarOfJson spec.name kind json
    | .indexed schema, .object members => (entriesOfMembers spec schema [] members).map .indexed
    | .indexed schema, .array items => (entriesOfItems spec schema 0 [] items).map .indexed
    | .objectList schema, .array items => (objectsOfItems schema items).map .list
    | .scalarList kind, .array items =>
      (items.mapM (markedScalarOfJson spec.name kind)).map .list
    | .code, .text code => .ok (.code code)
    | kind, json => misshapen spec.name kind.describe json

/-- The entries of a labelled collection from members whose keys are labels. -/
def entriesOfMembers (spec : FieldSpec Schema) (schema : Schema)
    (entries : List (UInt32 × Options)) :
    List (String × Json) → Except Error (List (UInt32 × Options))
  | [] => .ok entries
  | (key, member) :: rest =>
    match Label.ofText? key with
    | none =>
      .error (.shapeMismatch spec.name spec.kind.describe ("the label '" ++ key ++ "'"))
    | some label => do
      let entry ← ofJson schema member
      entriesOfMembers spec schema (Keyed.insert label entry entries) rest

/-- The entries of a labelled collection from items whose positions are labels. -/
def entriesOfItems (spec : FieldSpec Schema) (schema : Schema) (position : Nat)
    (entries : List (UInt32 × Options)) : List Json → Except Error (List (UInt32 × Options))
  | [] => .ok entries
  | item :: rest =>
    match Label.ofPosition? position with
    | none => .error (.tooManyEntries spec.name)
    | some label => do
      let entry ← ofJson schema item
      entriesOfItems spec schema (position + 1) (Keyed.insert label entry entries) rest

/-- The objects of a list. -/
def objectsOfItems (schema : Schema) : List Json → Except Error (List OptionValue)
  | [] => .ok []
  | item :: rest => do
    let first ← match item.markedCode? with
      | some code => .ok (.code code)
      | none => (ofJson schema item).map .object
    let others ← objectsOfItems schema rest
    return first :: others

end

end Options

end ChartScript
