import ChartScript.Schema.Basic

/-!
# Declaring fields

Short forms for the declarations of the catalog. A schema of the catalog is identified by its name;
none of its fields has a default.
-/

namespace ChartScript.Catalog

/-- A schema that stands alone. -/
def schema (name : String) (own : List (FieldSpec Schema)) : Schema :=
  ⟨.catalog name, name, none, own⟩

/-- A schema that extends another. -/
def extension (base : Schema) (name : String) (own : List (FieldSpec Schema)) : Schema :=
  ⟨.catalog name, name, some base, own⟩

/-- A field for text. -/
def text (name : String) : FieldSpec Schema := ⟨name, .scalar .text, none⟩

/-- A field for a finite number. -/
def number (name : String) : FieldSpec Schema := ⟨name, .scalar .number, none⟩

/-- A field for true or false. -/
def flag (name : String) : FieldSpec Schema := ⟨name, .scalar .flag, none⟩

/-- A field for one of some words. -/
def choice (name : String) (allowed : List String) : FieldSpec Schema :=
  ⟨name, .scalar (.oneOf allowed), none⟩

/-- A length, in pixels or as text with a unit. -/
def size (name : String) : FieldSpec Schema := ⟨name, .scalar .numberOrText, none⟩

/-- An end of a range of numbers or dates. -/
def bound (name : String) : FieldSpec Schema := ⟨name, .scalar .numberOrDate, none⟩

/-- A field for a nested object. -/
def object (name : String) (nested : Schema) : FieldSpec Schema := ⟨name, .object nested, none⟩

/-- A field for a single value or a nested object. -/
def either (name : String) (kind : ScalarKind) (nested : Schema) : FieldSpec Schema :=
  ⟨name, .scalarOrObject kind nested, none⟩

/-- A field for objects under labels. -/
def indexed (name : String) (nested : Schema) : FieldSpec Schema := ⟨name, .indexed nested, none⟩

/-- A field for a list of single values. -/
def list (name : String) (kind : ScalarKind) : FieldSpec Schema := ⟨name, .scalarList kind, none⟩

/-- The marks of points. -/
def pointShapes : List String := ["circle", "triangle", "square", "diamond", "star", "polygon"]

/-- The ways to stack series. -/
def stackingModes : List String := ["percent", "relative", "absolute"]

/-- The ways to join points. -/
def curveTypes : List String := ["none", "function"]

/-- The two directions. -/
def orientations : List String := ["horizontal", "vertical"]

/-- The ways to turn pages or to sort. -/
def pagingModes : List String := ["enable", "event", "disable"]

/-- Whether and how series are stacked. -/
def isStacked : FieldSpec Schema := ⟨"isStacked", .scalar (.flagOrOneOf stackingModes), none⟩

end ChartScript.Catalog
