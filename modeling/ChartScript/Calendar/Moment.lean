/-!
# Dates and times

Days of the proleptic Gregorian calendar, times of day to the nanosecond, and moments made of both.
None of them knows a time zone. Each type carries the proof that its numbers name something.

A leap second is written as second 59 with a billion nanoseconds or more, as clocks that repeat a
second do; nothing else may exceed its usual range.
-/

namespace ChartScript

namespace Calendar

/-- The leap years of the Gregorian rule, continued to both sides. -/
def isLeapYear (year : Int) : Bool :=
  year % 4 == 0 && (year % 100 != 0 || year % 400 == 0)

/-- The length of a month counted from one, and zero for a month that does not exist. -/
def daysInMonth (year : Int) (month : Nat) : Nat :=
  match month with
  | 1 | 3 | 5 | 7 | 8 | 10 | 12 => 31
  | 4 | 6 | 9 | 11 => 30
  | 2 => if isLeapYear year then 29 else 28
  | _ => 0

/-- The years a date may have. -/
def yearInRange (year : Int) : Bool :=
  -262143 ≤ year && year ≤ 262142

/-- Whether three numbers name a day. -/
def isDate (year : Int) (month day : Nat) : Bool :=
  yearInRange year && 1 ≤ day && day ≤ daysInMonth year month

/-- Whether four numbers name a time of day. -/
def isTime (hour minute second nanos : Nat) : Bool :=
  hour < 24 && minute < 60 && second < 60 &&
    (nanos < 1000000000 || (second == 59 && nanos < 2000000000))

end Calendar

/-- A day; months and days count from one. -/
structure Date where
  year : Int
  month : Nat
  day : Nat
  valid : Calendar.isDate year month day = true
deriving DecidableEq

/-- A time of day. -/
structure TimeOfDay where
  hour : Nat
  minute : Nat
  second : Nat
  nanos : Nat
  valid : Calendar.isTime hour minute second nanos = true
deriving DecidableEq

/-- A time on a day. -/
structure Moment where
  date : Date
  time : TimeOfDay
deriving DecidableEq

/-- The day with the given numbers, if there is one. -/
def Date.of? (year : Int) (month day : Nat) : Option Date :=
  if h : Calendar.isDate year month day = true then some ⟨year, month, day, h⟩ else none

namespace TimeOfDay

/-- The time with the given numbers, if there is one. -/
def of? (hour minute second nanos : Nat) : Option TimeOfDay :=
  if h : Calendar.isTime hour minute second nanos = true then
    some ⟨hour, minute, second, nanos, h⟩
  else none

/-- The start of a day. -/
def midnight : TimeOfDay := ⟨0, 0, 0, 0, rfl⟩

/-- Whole milliseconds of the second, above 999 in a leap second. -/
def millis (t : TimeOfDay) : Nat :=
  t.nanos / 1000000

end TimeOfDay

/-- The first moment of a day. -/
def Date.midnight (d : Date) : Moment := ⟨d, .midnight⟩

/-- Months count from one to twelve. -/
theorem Date.month_range (d : Date) : 1 ≤ d.month ∧ d.month ≤ 12 := by
  have h := d.valid
  simp only [Calendar.isDate, Bool.and_eq_true, decide_eq_true_eq] at h
  obtain ⟨⟨_, h1⟩, h2⟩ := h
  unfold Calendar.daysInMonth at h2
  split at h2 <;> omega

end ChartScript
