import ChartScript.Proofs.Script.Sequence

/-!
# What date calls mean

The runtime counts the months of a call `new Date(…)` from zero, and a year from 0 to 99 from 1900.
The months of dates and moments are written as the runtime counts them, while their years are
written as they are. So a call means the date that it is written for exactly when the year of the
date is none from 0 to 99.
-/

namespace ChartScript

/-- The numbers of a day are those that it is made of. -/
theorem Date.of?_eq_some_iff {year : Int} {month day : Nat} {d : Date} :
    Date.of? year month day = some d ↔ d.year = year ∧ d.month = month ∧ d.day = day := by
  unfold Date.of?
  constructor
  · intro h
    split at h
    · cases h
      exact ⟨rfl, rfl, rfl⟩
    · cases h
  · rintro ⟨rfl, rfl, rfl⟩
    exact dif_pos d.valid

namespace DateCall

/-- The year that is meant by the year of a call. -/
def fullYear (year : Int) : Int :=
  if 0 ≤ year ∧ year ≤ 99 then 1900 + year else year

/-- The time of day that is meant by four numbers, which there is if none is out of its range. -/
def clock? (hour minute second millis : Int) : Option TimeOfDay := do
  let hour ← hour.toNat?
  let minute ← minute.toNat?
  let second ← second.toNat?
  let millis ← millis.toNat?
  if millis < 1000 then TimeOfDay.of? hour minute second (millis * 1000000) else none

/-- The time of day that is meant by the arguments after the day; what is left out is zero. -/
def time? : List Int → Option TimeOfDay
  | [] => some .midnight
  | [hour, minute, second] => clock? hour minute second 0
  | [hour, minute, second, millis] => clock? hour minute second millis
  | _ => none

/-- The moment that is meant by the arguments of a call, months counted from zero. -/
def moment? : List Int → Option Moment
  | year :: month :: day :: time => do
    let month ← month.toNat?
    let day ← day.toNat?
    let date ← Date.of? (fullYear year) (month + 1) day
    let time ← time? time
    return ⟨date, time⟩
  | _ => none

/-- The moment that is meant by a text, if the text is a call `new Date(…)`. -/
def meaning? (text : String) : Option Moment :=
  match text.toList with
  | 'n' :: 'e' :: 'w' :: ' ' :: 'D' :: 'a' :: 't' :: 'e' :: '(' :: chars =>
    match LiteralReader.numbers? ')' 7 chars with
    | some (numbers, []) => moment? numbers
    | _ => none
  | _ => none

/-- Exactly the years below 0 and above 99 are meant by themselves. -/
theorem fullYear_eq_self_iff {year : Int} : fullYear year = year ↔ ¬(0 ≤ year ∧ year ≤ 99) := by
  unfold fullYear
  split <;> omega

/-- A call means what its arguments mean. -/
theorem meaning?_dateCall (n : Int) {numbers : List Int} (h : numbers.length < 7) :
    meaning? (dateCall (n :: numbers)) = moment? (n :: numbers) := by
  have hchars := LiteralReader.toList_dateCall_append (n :: numbers) []
  have hnumbers : LiteralReader.numbers? ')' 7 ((argumentList (n :: numbers)).toList ++ [')']) =
      some (n :: numbers, []) :=
    LiteralReader.numbers?_append rfl (by decide) h []
  rw [List.append_nil] at hchars
  rw [meaning?, hchars]
  change (match LiteralReader.numbers? ')' 7 ((argumentList (n :: numbers)).toList ++ [')']) with
    | some (numbers, []) => moment? numbers
    | _ => none) = _
  rw [hnumbers]

/-- The time of day is meant by four arguments at most. -/
theorem length_le_of_time? {numbers : List Int} {time : TimeOfDay}
    (h : time? numbers = some time) : numbers.length ≤ 4 := by
  unfold time? at h
  split at h
  · exact Nat.zero_le 4
  · exact Nat.le_succ 3
  · exact Nat.le_refl 4
  · cases h

/-- The call with the arguments of a day and of a time on it means that time on the day in the year
that is meant. -/
theorem meaning?_arguments (d : Date) {numbers : List Int} {time : TimeOfDay}
    (h : time? numbers = some time) :
    meaning? (dateCall (d.arguments ++ numbers)) =
      (Date.of? (fullYear d.year) d.month d.day).map fun date => ⟨date, time⟩ := by
  obtain ⟨month, hmonth⟩ := Nat.exists_eq_add_one.mpr d.month_range.1
  have hzero : ((d.month : Int) - 1).toNat? = some month := by
    rw [hmonth, Int.natCast_add, Int.natCast_one, Int.add_sub_cancel]
    rfl
  have hday : (d.day : Int).toNat? = some d.day := rfl
  have hlength : ((d.month - 1 : Int) :: (d.day : Int) :: numbers).length < 7 := by
    have htime := length_le_of_time? h
    rw [List.length_cons, List.length_cons]
    omega
  rw [Date.arguments, List.cons_append, List.cons_append, List.cons_append, List.nil_append,
    meaning?_dateCall _ hlength, moment?, hzero, hday, h, hmonth]
  simp only [Option.bind_eq_bind, Option.bind_some]
  cases Date.of? (fullYear d.year) (month + 1) d.day <;> rfl

/-- The arguments of a time outside a leap second mean that time to the millisecond. -/
theorem time?_arguments {t : TimeOfDay} (h : t.nanos < 1000000000) :
    time? ([(t.hour : Int), t.minute, t.second] ++
      if t.millis = 0 then [] else [(t.millis : Int)]) = some t.rounded := by
  have hmillis : t.millis < 1000 := by
    unfold TimeOfDay.millis
    omega
  have hclock : clock? t.hour t.minute t.second t.millis = some t.rounded := by
    change (if t.millis < 1000 then TimeOfDay.of? t.hour t.minute t.second (t.millis * 1000000)
      else none) = _
    rw [if_pos hmillis, t.of?_rounded]
  split
  · rename_i hzero
    rw [hzero] at hclock
    exact hclock
  · exact hclock

/-- What is written for a date or a moment means the day in the year that is meant exactly when the
year is meant by itself. -/
theorem map_of?_eq_some_iff {d : Date} {time : TimeOfDay} :
    (Date.of? (fullYear d.year) d.month d.day).map (fun date => Moment.mk date time) =
      some ⟨d, time⟩ ↔ ¬(0 ≤ d.year ∧ d.year ≤ 99) := by
  rw [← fullYear_eq_self_iff, Option.map_eq_some_iff]
  constructor
  · rintro ⟨date, hdate, heq⟩
    cases heq
    exact (Date.of?_eq_some_iff.mp hdate).1.symm
  · intro hyear
    exact ⟨d, Date.of?_eq_some_iff.mpr ⟨hyear.symm, rfl, rfl⟩, rfl⟩

/-- The call that is written for a date means the start of that date, and the call that is written
for a moment outside a leap second means that moment to the whole millisecond, exactly when the year
is none from 0 to 99. -/
theorem meaning?_spell_iff (d : Date) (m : Moment) (hm : m.time.nanos < 1000000000) :
    (meaning? (Literal.date d).spell = some d.midnight ↔ ¬(0 ≤ d.year ∧ d.year ≤ 99)) ∧
      (meaning? (Literal.moment m).spell = some m.rounded ↔
        ¬(0 ≤ m.date.year ∧ m.date.year ≤ 99)) := by
  constructor
  · have hspell : (Literal.date d).spell = dateCall (d.arguments ++ []) := by
      rw [Literal.spell, Literal.chars, String.ofList_toList, List.append_nil]
    rw [hspell, meaning?_arguments d rfl]
    exact map_of?_eq_some_iff
  · have hspell : (Literal.moment m).spell = dateCall m.arguments := by
      rw [Literal.spell, Literal.chars, String.ofList_toList]
    rw [hspell, Moment.arguments, List.append_assoc, meaning?_arguments _ (time?_arguments hm)]
    exact map_of?_eq_some_iff

/-- A day before the first year, and a moment of the year 104 one second and one nanosecond before
its end, are meant by the calls that are written for them. -/
theorem meaning?_spell_outside_century :
    meaning? (Literal.date ⟨-1, 2, 28, rfl⟩).spell = some ⟨⟨-1, 2, 28, rfl⟩, .midnight⟩ ∧
      meaning? (Literal.moment ⟨⟨104, 12, 31, rfl⟩, ⟨23, 59, 58, 999999999, rfl⟩⟩).spell =
        some ⟨⟨104, 12, 31, rfl⟩, ⟨23, 59, 58, 999000000, rfl⟩⟩ := by
  obtain ⟨hdate, hmoment⟩ := meaning?_spell_iff ⟨-1, 2, 28, rfl⟩
    ⟨⟨104, 12, 31, rfl⟩, ⟨23, 59, 58, 999999999, rfl⟩⟩ (by decide)
  exact ⟨hdate.mpr (by decide), hmoment.mpr (by decide)⟩

/-- Not every call means the date that it is written for: the new year of the year 50 is written as
that of 1950. -/
theorem not_meaning?_date_50 :
    meaning? (Literal.date ⟨50, 1, 1, rfl⟩).spell = some ⟨⟨1950, 1, 1, rfl⟩, .midnight⟩ ∧
      ¬∀ d : Date, meaning? (Literal.date d).spell = some d.midnight := by
  have hmeaning : meaning? (Literal.date ⟨50, 1, 1, rfl⟩).spell =
      some ⟨⟨1950, 1, 1, rfl⟩, .midnight⟩ := by
    decide +kernel
  refine ⟨hmeaning, fun h => ?_⟩
  have hown := h ⟨50, 1, 1, rfl⟩
  rw [hmeaning] at hown
  revert hown
  decide

end DateCall

end ChartScript
