import ChartScript.Error
import ChartScript.Options.Label
import ChartScript.Options.Tree

/-!
# Assigning options

Setting and removing fields, opening the nodes below a node, and assigning through a dotted path.
A value is stored only where it fits. A path creates the nodes on its way as it goes: when it fails
later on, the nodes that it created stay, so an assignment by path answers with the tree it leaves
behind as well as with its outcome.
-/

namespace ChartScript

/-- One step from a node to a node below it. -/
inductive Step where
  /-- Into a nested object. -/
  | object (field : String)
  /-- Into the entry of a labelled collection. -/
  | entry (field : String) (label : UInt32)
  /-- Into an object in a list. -/
  | item (field : String) (position : Nat)
deriving DecidableEq

/-- Positions of a list that a step may reach are below this. -/
def listLimit : Nat := 1024

namespace Options

/-- The declaration of a field, which has to exist. -/
def spec (options : Options) (field : String) : Except Error (FieldSpec Schema) :=
  match options.schema.field? field with
  | some spec => .ok spec
  | none => .error (.unknownOption options.schema.name field)

end Options

/-- Refuse a value that the field does not take. -/
def FieldSpec.check (spec : FieldSpec Schema) (value : OptionValue) : Except Error Unit :=
  if value.fits spec.kind then .ok ()
  else .error (.shapeMismatch spec.name spec.kind.describe value.shape)

namespace Options

/-- Store a value without checking it. -/
def store (options : Options) (field : String) (value : OptionValue) : Options :=
  ⟨options.schema, Keyed.insert field value options.entries⟩

/-- Assign a field after checking that it exists and takes the value. -/
def set (options : Options) (field : String) (value : OptionValue) : Except Error Options := do
  let spec ← options.spec field
  spec.check value
  return options.store spec.name value

/-- Remove what is assigned to a field. -/
def unset (options : Options) (field : String) : Options :=
  ⟨options.schema, Keyed.erase field options.entries⟩

/-- The object assigned to a field, or an empty one of the declared schema. -/
def objectAt (options : Options) (field : String) (declared : Schema) : Options :=
  match options.get? field with
  | some (.object found) => found
  | _ => empty declared

/-- The labelled entries assigned to a field, or none. -/
def entriesAt (options : Options) (field : String) : List (UInt32 × Options) :=
  match options.get? field with
  | some (.indexed entries) => entries
  | _ => []

/-- The list assigned to a field, or the empty list. -/
def itemsAt (options : Options) (field : String) : List OptionValue :=
  match options.get? field with
  | some (.list items) => items
  | _ => []

/-- Lengthen a list by empty objects until it has the position. -/
def padTo (declared : Schema) (position : Nat) (items : List OptionValue) : List OptionValue :=
  items ++ List.replicate (position + 1 - items.length) (.object (empty declared))

/-- Refuse to open a field that has no nodes of the right sort below it. -/
def notNested {α : Type} (spec : FieldSpec Schema) : Except Error α :=
  .error (.notNested spec.name spec.kind.describe)

/-- The node that a step leads to; where there is none yet, an empty one of the declared schema. -/
def reach (options : Options) : Step → Except Error Options
  | .object field => do
    let spec ← options.spec field
    match spec.kind with
    | .object declared | .scalarOrObject _ declared => return options.objectAt spec.name declared
    | _ => notNested spec
  | .entry field label => do
    let spec ← options.spec field
    match spec.kind with
    | .indexed declared =>
      return (Keyed.find? label (options.entriesAt spec.name)).getD (empty declared)
    | _ => notNested spec
  | .item field position => do
    let spec ← options.spec field
    match spec.kind with
    | .objectList declared =>
      if listLimit ≤ position then .error (.positionTooLarge spec.name position)
      else match (options.itemsAt spec.name)[position]? with
        | some (.object found) => return found
        | _ => return empty declared
    | _ => notNested spec

/-- Put a node where a step leads. What is in the way and of another shape gives way, and a list is
lengthened as far as needed. -/
def place (options : Options) (child : Options) : Step → Options
  | .object field => options.store field (.object child)
  | .entry field label =>
    options.store field (.indexed (Keyed.insert label child (options.entriesAt field)))
  | .item field position =>
    match options.schema.field? field with
    | some ⟨_, .objectList declared, _⟩ =>
      let items := padTo declared position (options.itemsAt field)
      options.store field (.list (items.set position (.object child)))
    | _ => options

/-- Open the node that a step leads to: the tree in which it exists, and the node. -/
def enter (options : Options) (step : Step) : Except Error (Options × Options) := do
  let child ← options.reach step
  return (options.place child step, child)

/-- Work on the node that a step leads to, and put back whatever became of it. -/
def within (options : Options) (step : Step) (work : Options → Except Error Unit × Options) :
    Except Error Unit × Options :=
  match options.reach step with
  | .error e => (.error e, options)
  | .ok child =>
    let (outcome, child) := work child
    (outcome, options.place child step)

/-- Assign a value to the last of the segments, below the node that the others lead to. -/
def assignAt (path : String) (value : OptionValue) :
    List String → Options → Except Error Unit × Options
  | [], options => (.error (.unknownOption options.schema.name ""), options)
  | [field], options =>
    match options.set field value with
    | .ok changed => (.ok (), changed)
    | .error e => (.error e, options)
  | field :: segment :: rest, options =>
    match options.spec field with
    | .error e => (.error e, options)
    | .ok spec =>
      match spec.kind with
      | .object _ | .scalarOrObject _ _ =>
        options.within (.object field) (assignAt path value (segment :: rest))
      | .indexed _ =>
        match rest with
        | [] => (.error (.pathWithoutEntry path field), options)
        | last :: others =>
          match Label.ofText? segment with
          | none => (.error (.badLabel path segment), options)
          | some label =>
            options.within (.entry field label) (assignAt path value (last :: others))
      | .objectList _ =>
        match rest with
        | [] => (.error (.pathWithoutEntry path field), options)
        | last :: others =>
          match Label.ofText? segment with
          | none => (.error (.badLabel path segment), options)
          | some label =>
            options.within (.item field label.toNat) (assignAt path value (last :: others))
      | _ => (.error (.pathNotNested path field), options)

end Options

/-- The segments of a path: what stands between its dots. There is always at least one. -/
def splitDots : List Char → List (List Char)
  | [] => [[]]
  | c :: rest =>
    match c, splitDots rest with
    | '.', segments => [] :: segments
    | c, segment :: segments => (c :: segment) :: segments
    | c, [] => [[c]]

/-- The segments of a path as text. -/
def pathSegments (path : String) : List String :=
  (splitDots path.toList).map String.ofList

/-- Assign a value through a dotted path; the outcome, and the tree it leaves behind. -/
def Options.assign (options : Options) (path : String) (value : OptionValue) :
    Except Error Unit × Options :=
  options.assignAt path value (pathSegments path)

namespace Options

/-- An assigned field holds what was assigned. -/
theorem get?_store_self (options : Options) (field : String) (value : OptionValue) :
    (options.store field value).get? field = some value :=
  Keyed.find?_insert_self field value options.entries

/-- Other fields are untouched by an assignment. -/
theorem get?_store_of_ne {field other : String} (h : other ≠ field) (options : Options)
    (value : OptionValue) : (options.store field value).get? other = options.get? other :=
  Keyed.find?_insert_of_ne h value options.entries

/-- A tree keeps its schema when a node is put into it. -/
theorem schema_place (options child : Options) (step : Step) :
    (options.place child step).schema = options.schema := by
  cases step with
  | object field => rfl
  | entry field label => rfl
  | item field position =>
    simp only [place]
    split <;> rfl

/-- Padding never shortens, and reaches the position. -/
theorem length_padTo (declared : Schema) (position : Nat) (items : List OptionValue) :
    (padTo declared position items).length = max items.length (position + 1) := by
  simp [padTo]
  omega

end Options

end ChartScript
