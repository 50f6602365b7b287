import ChartScript.Schema.Basic

/-!
# Kinds in words

How error messages name what a field may hold.
-/

namespace ChartScript

/-- Words between single quotes, with commas between them. -/
def quotedWords (words : List String) : String :=
  ", ".intercalate (words.map fun word => "'" ++ word ++ "'")

/-- A kind of single value in words. -/
def ScalarKind.describe : ScalarKind → String
  | .text => "a string"
  | .number => "a finite number"
  | .flag => "a boolean"
  | .date => "a date"
  | .oneOf allowed => "one of " ++ quotedWords allowed
  | .flagOrOneOf allowed => "a boolean or one of " ++ quotedWords allowed
  | .numberOrText => "a number or a string"
  | .numberOrDate => "a number or a date"

/-- An object of a schema in words. -/
def Schema.describe (s : Schema) : String :=
  "a `" ++ s.name ++ "` object"

/-- A kind of field in words. -/
def FieldKind.describe : FieldKind Schema → String
  | .scalar kind => kind.describe
  | .code => "raw code"
  | .object schema => schema.describe
  | .scalarOrObject kind schema => kind.describe ++ " or " ++ schema.describe
  | .indexed schema => "an integer-labelled collection of `" ++ schema.name ++ "`"
  | .objectList schema => "a list of `" ++ schema.name ++ "`"
  | .scalarList kind => "a list of " ++ kind.describe

end ChartScript
