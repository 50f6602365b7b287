import ChartScript.Calendar.Moment
import ChartScript.Text.Blank

/-!
# Reading dates and times

Dates as `year-month-day`, times as `hour:minute:second`, and moments as a date, a separator and a
time, with a fraction of a second where the caller allows one. Blanks may precede any number. A year
with a sign may have any number of digits, without one at most four; the other numbers have one or
two digits. Second 60 is read as a leap second. A text is read to its end or not at all.
-/

namespace ChartScript

namespace Calendar

/-- A reader takes something off the front and leaves the rest. -/
abbrev Reader (α : Type) := List Char → Option (α × List Char)

/-- A number of at least one and at most `most` digits. -/
def digits (most : Nat) : Reader Nat := fun chars =>
  let found := (chars.take most).takeWhile Char.isDigit
  if found.isEmpty then none else some (Nat.ofDigitChars 10 found 0, chars.drop found.length)

/-- A number of one or two digits after any blanks. -/
def twoDigits : Reader Nat := fun chars =>
  digits 2 (chars.dropWhile Text.isBlank)

/-- A year after any blanks. -/
def yearNumber : Reader Int := fun chars =>
  match chars.dropWhile Text.isBlank with
  | '-' :: rest => (digits rest.length rest).map fun (n, left) => (-(n : Int), left)
  | '+' :: rest => (digits rest.length rest).map fun (n, left) => ((n : Int), left)
  | rest => (digits 4 rest).map fun (n, left) => ((n : Int), left)

/-- Exactly the given character. -/
def exactly (c : Char) : Reader Unit
  | d :: rest => if c = d then some ((), rest) else none
  | [] => none

/-- The parts of a date, in range or not. -/
def dateItems : Reader (Int × Nat × Nat) := fun chars => do
  let (year, chars) ← yearNumber chars
  let ((), chars) ← exactly '-' chars
  let (month, chars) ← twoDigits chars
  let ((), chars) ← exactly '-' chars
  let (day, chars) ← twoDigits chars
  some ((year, month, day), chars)

/-- The parts of a time, in range or not. -/
def timeItems : Reader (Nat × Nat × Nat) := fun chars => do
  let (hour, chars) ← twoDigits chars
  let ((), chars) ← exactly ':' chars
  let (minute, chars) ← twoDigits chars
  let ((), chars) ← exactly ':' chars
  let (second, chars) ← twoDigits chars
  some ((hour, minute, second), chars)

/-- A fraction of a second in nanoseconds: nothing, or a point and digits, of which the first nine
count. -/
def fraction : Reader Nat
  | '.' :: rest =>
    let found := rest.takeWhile Char.isDigit
    if found.isEmpty then none
    else
      let nine := found.take 9
      some (Nat.ofDigitChars 10 nine 0 * Nat.pow 10 (9 - nine.length), rest.drop found.length)
  | rest => some (0, rest)

/-- A time of day from its parts, where second 60 is a leap second. -/
def timeOf? (hour minute second nanos : Nat) : Option TimeOfDay :=
  if second = 60 then TimeOfDay.of? hour minute 59 (1000000000 + nanos)
  else if nanos < 1000000000 then TimeOfDay.of? hour minute second nanos
  else none

/-- A time to the end of the text. -/
def timeToEnd (fractions : Bool) (chars : List Char) : Option TimeOfDay := do
  let ((hour, minute, second), chars) ← timeItems chars
  let (nanos, chars) ← if fractions then fraction chars else some (0, chars)
  if chars.isEmpty then timeOf? hour minute second nanos else none

/-- What stands between the date and the time of a moment. -/
inductive Separator where
  /-- The letter T. -/
  | letter
  /-- Any number of blanks, or none. -/
  | blanks

/-- Take the separator off the front. -/
def Separator.take : Separator → Reader Unit
  | .letter, chars => exactly 'T' chars
  | .blanks, chars => some ((), chars.dropWhile Text.isBlank)

/-- A moment to the end of the text. -/
def momentToEnd (separator : Separator) (fractions : Bool) (chars : List Char) :
    Option Moment := do
  let ((year, month, day), chars) ← dateItems chars
  let ((), chars) ← separator.take chars
  let time ← timeToEnd fractions chars
  let date ← Date.of? year month day
  some ⟨date, time⟩

end Calendar

/-- Read a date. -/
def Date.read? (text : String) : Option Date := do
  let ((year, month, day), rest) ← Calendar.dateItems text.toList
  if rest.isEmpty then Date.of? year month day else none

/-- Read a time of day. -/
def TimeOfDay.read? (text : String) : Option TimeOfDay :=
  Calendar.timeToEnd true text.toList

/-- Read a moment with either separator. -/
def Moment.read? (fractions : Bool) (text : String) : Option Moment :=
  (Calendar.momentToEnd .letter fractions text.toList).orElse fun _ =>
    Calendar.momentToEnd .blanks fractions text.toList

/-- Read a moment without fractions of a second, or a date as its first moment. -/
def Moment.readDateOrTime? (text : String) : Option Moment :=
  (Moment.read? false text).orElse fun _ => (Date.read? text).map Date.midnight

end ChartScript
