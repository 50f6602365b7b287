/-!
# Events

What can happen to a chart on a page, and the listeners that a script attaches to it. The function
of a listener is code and is written as it was given.
-/

namespace ChartScript

/-- Something that can happen to a chart. -/
inductive EventType where
  | animationFinish
  | click
  | error
  | mouseOver
  | mouseOut
  | page
  | ready
  | regionClick
  | select
  | sort
deriving DecidableEq, Repr

namespace EventType

/-- All events. -/
def all : List EventType :=
  [animationFinish, click, error, mouseOver, mouseOut, page, ready, regionClick, select, sort]

/-- The name of an event at run time. -/
def word : EventType → String
  | animationFinish => "animationfinish"
  | click => "click"
  | error => "error"
  | mouseOver => "onmouseover"
  | mouseOut => "onmouseout"
  | page => "page"
  | ready => "ready"
  | regionClick => "regionClick"
  | select => "select"
  | sort => "sort"

/-- The event of a name. -/
def ofWord? (word : String) : Option EventType :=
  all.find? (·.word == word)

/-- Names stand for the events they are the names of. -/
theorem ofWord?_word (e : EventType) : ofWord? e.word = some e := by
  cases e <;> decide

end EventType

/-- A function to call when something happens. -/
structure EventListener where
  event : EventType
  function : String
  /-- Whether it is called the first time only. -/
  once : Bool
deriving DecidableEq

end ChartScript
