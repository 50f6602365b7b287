import ChartScript.Json.Value
import ChartScript.Text.Quoted

/-!
# Writing JSON

Values as JSON text, either without any blank or indented by two blanks to a level. The members of
an object are written in the order in which they stand; empty arrays and objects have nothing
between their brackets in both layouts.
-/

namespace ChartScript

/-- Where a layout puts blanks. -/
structure JsonLayout where
  /-- What stands before an item or a closing bracket at a depth. -/
  lineStart : Nat → List Char
  /-- What stands between a key and its value. -/
  colon : List Char

namespace JsonLayout

/-- No blanks. -/
def compact : JsonLayout := ⟨fun _ => [], [':']⟩

/-- Without blanks, nothing stands before an item or a closing bracket. -/
theorem lineStart_compact (depth : Nat) : compact.lineStart depth = [] := rfl

/-- Without blanks, a colon stands between a key and its value. -/
theorem colon_compact : compact.colon = [':'] := rfl

/-- A line for every item, two blanks further in at every level. -/
def indented : JsonLayout :=
  ⟨fun depth => '\n' :: List.replicate (2 * depth) ' ', [':', ' ']⟩

end JsonLayout

namespace Json

mutual

/-- A value in a layout, at a depth. -/
def chars (layout : JsonLayout) (depth : Nat) : Json → List Char
  | .null => "null".toList
  | .bool value => (if value then "true" else "false").toList
  | .number value => value.spell.toList
  | .text value => (Text.quote value).toList
  | .array [] => ['[', ']']
  | .array (item :: rest) =>
    '[' :: (layout.lineStart (depth + 1) ++ (item.chars layout (depth + 1) ++
      (restChars layout (depth + 1) rest ++ (layout.lineStart depth ++ [']']))))
  | .object [] => ['\x7b', '\x7d']
  | .object ((key, value) :: rest) =>
    '\x7b' :: (layout.lineStart (depth + 1) ++ ((Text.quote key).toList ++ (layout.colon ++
      (value.chars layout (depth + 1) ++ (restMemberChars layout (depth + 1) rest ++
        (layout.lineStart depth ++ ['\x7d']))))))

/-- Further items, each after a comma. -/
def restChars (layout : JsonLayout) (depth : Nat) : List Json → List Char
  | [] => []
  | item :: rest =>
    ',' :: (layout.lineStart depth ++ (item.chars layout depth ++ restChars layout depth rest))

/-- Further members, each after a comma. -/
def restMemberChars (layout : JsonLayout) (depth : Nat) : List (String × Json) → List Char
  | [] => []
  | (key, value) :: rest =>
    ',' :: (layout.lineStart depth ++ ((Text.quote key).toList ++ (layout.colon ++
      (value.chars layout depth ++ restMemberChars layout depth rest))))

end

/-- A value without blanks. -/
def compact (value : Json) : String :=
  String.ofList (value.chars .compact 0)

/-- A value on indented lines. -/
def indented (value : Json) : String :=
  String.ofList (value.chars .indented 0)

/-- A value without blanks that may stand in a script element. -/
def scriptText (value : Json) : String :=
  Text.guardTags value.compact

end Json

end ChartScript
