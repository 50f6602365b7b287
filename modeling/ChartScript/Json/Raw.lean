import ChartScript.Json.Token
import ChartScript.Json.Value

/-!
# Reading JSON

Tokens become a tree by a machine that keeps a stack of the arrays and objects still open. The tree
is raw: it obeys the grammar, but numbers may be out of range, strings may denote no text, nesting
may be deep, and keys may repeat. Whoever uses a part of it checks that part; a part that nobody
uses is never checked.

`RawJson.value?` checks a whole part and puts it in canonical form.
-/

namespace ChartScript

/-- JSON that obeys the grammar and is not checked any further. -/
inductive RawJson where
  | null
  | bool (value : Bool)
  | number (lexeme : NumberLexeme)
  | string (text : Option String)
  | array (items : List RawJson)
  | object (members : List (Option String × RawJson))

namespace RawJson

/-- An array or object that is still open. -/
inductive Frame where
  /-- The items read so far, the last one first. -/
  | items (done : List RawJson)
  /-- The members read so far, the last one first, and the key of the next. -/
  | members (done : List (Option String × RawJson)) (key : Option String)

/-- What is due next, inside the frames that are open. -/
inductive State where
  /-- A value. -/
  | value (stack : List Frame)
  /-- The first item of an array, or its end. -/
  | itemOrEnd (stack : List Frame)
  /-- The first key of an object, or its end. -/
  | keyOrEnd (stack : List Frame)
  /-- A key. -/
  | key (done : List (Option String × RawJson)) (stack : List Frame)
  /-- The colon after a key. -/
  | colon (done : List (Option String × RawJson)) (key : Option String) (stack : List Frame)
  /-- What follows a value that has just been read. -/
  | next (value : RawJson) (stack : List Frame)

/-- Take a token where a value is due. -/
def begin (stack : List Frame) : JsonToken → Option State
  | .null => some (.next .null stack)
  | .bool value => some (.next (.bool value) stack)
  | .number lexeme => some (.next (.number lexeme) stack)
  | .string text => some (.next (.string text) stack)
  | .openArray => some (.itemOrEnd stack)
  | .openObject => some (.keyOrEnd stack)
  | _ => none

/-- Take one token. -/
def step : State → JsonToken → Option State
  | .value stack, token => begin stack token
  | .itemOrEnd stack, .closeArray => some (.next (.array []) stack)
  | .itemOrEnd stack, token => begin (.items [] :: stack) token
  | .keyOrEnd stack, .closeObject => some (.next (.object []) stack)
  | .keyOrEnd stack, .string key => some (.colon [] key stack)
  | .key done stack, .string key => some (.colon done key stack)
  | .colon done key stack, .colon => some (.value (.members done key :: stack))
  | .next value (.items done :: stack), .comma => some (.value (.items (value :: done) :: stack))
  | .next value (.items done :: stack), .closeArray =>
    some (.next (.array (value :: done).reverse) stack)
  | .next value (.members done key :: stack), .comma =>
    some (.key ((key, value) :: done) stack)
  | .next value (.members done key :: stack), .closeObject =>
    some (.next (.object ((key, value) :: done).reverse) stack)
  | _, _ => none

/-- Take tokens one after another. -/
def run : State → List JsonToken → Option State
  | state, [] => some state
  | state, token :: rest => (step state token).bind fun state => run state rest

/-- The tree of a text that is one JSON value. -/
def read? (text : String) : Option RawJson := do
  match ← run (.value []) (← JsonToken.tokens text.toList) with
  | .next value [] => some value
  | _ => none

mutual

/-- A value with at most `depth` levels of arrays and objects, its numbers in range and its strings
text. Members stay as they are written. -/
def content? (depth : Nat) : RawJson → Option Json
  | .null => some .null
  | .bool value => some (.bool value)
  | .number lexeme => lexeme.value?.map .number
  | .string text => text.map .text
  | .array items =>
    match depth with
    | 0 => none
    | depth + 1 => (contentItems? depth items).map .array
  | .object members =>
    match depth with
    | 0 => none
    | depth + 1 => (contentMembers? depth members).map .object

/-- The contents of items. -/
def contentItems? (depth : Nat) : List RawJson → Option (List Json)
  | [] => some []
  | item :: rest => do
    let first ← content? depth item
    let others ← contentItems? depth rest
    return first :: others

/-- The contents of members. -/
def contentMembers? (depth : Nat) : List (Option String × RawJson) → Option (List (String × Json))
  | [] => some []
  | (key, value) :: rest => do
    let key ← key
    let first ← content? depth value
    let others ← contentMembers? depth rest
    return (key, first) :: others

end

/-- A value in canonical form. -/
def value? (depth : Nat) (raw : RawJson) : Option Json :=
  (raw.content? depth).map Json.canonical

end RawJson

/-- How many levels of arrays and objects may be nested. -/
def jsonDepth : Nat := 127

/-- Read a text that is one JSON value. -/
def Json.read? (text : String) : Option Json := do
  (← RawJson.read? text).value? jsonDepth

/-- A machine run on two lists of tokens is two runs. -/
theorem RawJson.run_append (state : RawJson.State) (first second : List JsonToken) :
    RawJson.run state (first ++ second) =
      (RawJson.run state first).bind fun state => RawJson.run state second := by
  induction first generalizing state with
  | nil => rfl
  | cons token rest ih =>
    simp only [List.cons_append, RawJson.run]
    cases RawJson.step state token with
    | none => rfl
    | some next => exact ih next

end ChartScript
