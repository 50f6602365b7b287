import ChartScript.Script.Literal

/-!
# Cells

The values in the rows of a data table. A cell may pair a value with the text to show for it, to any
depth; code stands in a cell as it was given.
-/

namespace ChartScript

/-- A value in a row. -/
inductive Cell where
  | null
  | flag (value : Bool)
  | number (value : Binary64)
  | text (value : String)
  | date (value : Date)
  | moment (value : Moment)
  | time (value : TimeOfDay)
  /-- A value and the text to show for it. -/
  | formatted (value : Cell) (shown : String)
  /-- Code, written as it stands. -/
  | code (source : String)
deriving DecidableEq

namespace Cell

/-- Whether the number in a cell, if there is one, has a literal. -/
def isFinite : Cell → Bool
  | .number value => value.isFinite
  | .formatted value _ => value.isFinite
  | _ => true

/-- A cell as a literal. -/
def literal : Cell → Literal
  | .null => .null
  | .flag value => .bool value
  | .number value => .number value
  | .text value => .text value
  | .date value => .date value
  | .moment value => .moment value
  | .time value => .time value
  | .formatted value shown => .object [(.field "v", value.literal), (.field "f", .text shown)]
  | .code source => .code source

end Cell

end ChartScript
