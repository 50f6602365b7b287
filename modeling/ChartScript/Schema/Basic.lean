import ChartScript.Number.Binary64

/-!
# Option schemas

A schema names the fields of an option object and says what each may hold. It stands alone or
extends a base schema; an extension declares only what it adds or overrides. A field is looked up
from the extension towards the base, and the resolved field list runs from the base outwards, with
an override in the place of what it overrides.

Schemas are finite trees: a schema can only mention schemas that existed before it. Two schemas of
one name are still different schemas, so each carries an identity of its own.
-/

namespace ChartScript

/-- What makes a schema this one and no other. -/
inductive SchemaId where
  /-- A schema of the catalog; the catalog's names are distinct. -/
  | catalog (name : String)
  /-- A schema defined by a caller, numbered in order of definition. -/
  | custom (serial : Nat)
deriving DecidableEq, Repr

/-- What a single value may be. -/
inductive ScalarKind where
  | text
  | number
  | flag
  | date
  | oneOf (allowed : List String)
  | flagOrOneOf (allowed : List String)
  | numberOrText
  | numberOrDate
deriving DecidableEq, Repr

/-- What a field may hold; `σ` is the type of schemas. -/
inductive FieldKind (σ : Type) where
  | scalar (kind : ScalarKind)
  /-- Code, written as it stands. -/
  | code
  | object (schema : σ)
  | scalarOrObject (kind : ScalarKind) (schema : σ)
  /-- Objects under numeric labels. -/
  | indexed (schema : σ)
  /-- Objects in a row. -/
  | objectList (schema : σ)
  /-- Single values in a row. -/
  | scalarList (kind : ScalarKind)

/-- What an unset field is written as. -/
inductive FieldDefault where
  | flag (value : Bool)
  | number (value : Binary64)
  | text (value : String)
deriving DecidableEq

/-- The declaration of a field. -/
structure FieldSpec (σ : Type) where
  name : String
  kind : FieldKind σ
  default : Option FieldDefault

/-- A named option schema. -/
structure Schema where
  identity : SchemaId
  name : String
  base : Option Schema
  own : List (FieldSpec Schema)

/-- Put a declaration in the place of the one it overrides, or at the end. -/
def FieldSpec.override {σ : Type} (specs : List (FieldSpec σ)) (spec : FieldSpec σ) :
    List (FieldSpec σ) :=
  match specs with
  | [] => [spec]
  | s :: rest => if s.name = spec.name then spec :: rest else s :: override rest spec

namespace Schema

/-- The fields an object of the schema has, in the order they are written. -/
def fields : Schema → List (FieldSpec Schema)
  | ⟨_, _, none, own⟩ => own.foldl FieldSpec.override []
  | ⟨_, _, some base, own⟩ => own.foldl FieldSpec.override base.fields

/-- The declaration that governs a field: the first of that name in the schema's own list, else
what the base says. -/
def field? (name : String) : Schema → Option (FieldSpec Schema)
  | ⟨_, _, none, own⟩ => own.find? (·.name = name)
  | ⟨_, _, some base, own⟩ => (own.find? (·.name = name)).or (base.field? name)

/-- Whether a schema is another or extends it. -/
def isA : Schema → Schema → Bool
  | ⟨identity, _, none, _⟩, other => identity == other.identity
  | ⟨identity, _, some base, _⟩, other => identity == other.identity || base.isA other

/-- Every schema is itself. -/
theorem isA_self (s : Schema) : s.isA s = true := by
  obtain ⟨identity, name, base, own⟩ := s
  cases base <;> simp [isA]

/-- What is looked up has the name it was looked up by. -/
theorem name_of_field? {name : String} {spec : FieldSpec Schema} :
    {s : Schema} → s.field? name = some spec → spec.name = name
  | ⟨_, _, none, own⟩, h => by simpa using List.find?_some h
  | ⟨_, _, some base, own⟩, h => by
    simp only [field?, Option.or_eq_some_iff] at h
    rcases h with h | ⟨_, h⟩
    · simpa using List.find?_some h
    · exact name_of_field? h

end Schema

end ChartScript
