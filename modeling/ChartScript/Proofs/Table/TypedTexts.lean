import ChartScript.Proofs.Document.Cells
import ChartScript.Proofs.Table.ReadBack

/-!
# Texts in typed columns

Two texts in a column of dates or times are written alike exactly when what they are read as is
alike as far as it is written. That is the day of a date and the whole milliseconds of a moment,
however the texts spell them, and of a time of day no more than its seconds, although the texts of
such a column may say more.
-/

namespace ChartScript

/-- What is written of a moment is what is written of it to the whole millisecond. -/
theorem Moment.arguments_rounded (m : Moment) : m.rounded.arguments = m.arguments := by
  have hmillis : m.time.rounded.millis = m.time.millis :=
    Nat.mul_div_cancel _ (by decide)
  rw [Moment.arguments, Moment.arguments, Moment.rounded, hmillis]
  rfl

namespace Cell

/-- A cell with its moments and times of day to the whole millisecond. -/
def toMillis : Cell → Cell
  | .moment value => .moment value.rounded
  | .time value => .time value.rounded
  | .formatted value shown => .formatted value.toMillis shown
  | cell => cell

/-- What an array says of a cell is written as the cell is. -/
theorem chars_rounded (cell : Cell) : cell.rounded.chars = cell.chars := by
  unfold chars
  induction cell with
  | moment value =>
    rw [rounded, literal, literal, Literal.chars, Literal.chars, value.arguments_rounded]
  | formatted value shown ih =>
    rw [rounded, literal, literal, Literal.chars, Literal.chars, ih]
  | _ => rfl

/-- Two cells of finite numbers and without code are written alike exactly when their arrays say the
same of them. -/
theorem spell_eq_iff {c d : Cell} (hc : c.CodeFree) (hd : d.CodeFree)
    (hcfinite : c.isFinite = true) (hdfinite : d.isFinite = true) :
    c.literal.spell = d.literal.spell ↔ c.rounded = d.rounded := by
  have hspell : c.literal.spell = d.literal.spell ↔ c.chars = d.chars :=
    String.ofList_inj
  rw [hspell]
  constructor
  · intro h
    have hends : LiteralReader.Ends [] := by
      intro _ hnone
      cases hnone
    -- one bound that is enough to read either cell back
    have hcread := TableReader.cell?_append hc hcfinite
      (Nat.le_add_right _ d.layers.length) hends
    have hdread := TableReader.cell?_append hd hdfinite
      (Nat.le_add_left _ c.layers.length) hends
    rw [h, hdread] at hcread
    exact (Prod.mk.inj (Option.some.inj hcread)).1.symm
  · intro h
    rw [← chars_rounded, h, chars_rounded]

/-- What a text is read as holds no code. -/
theorem codeFree_ofText (type : Option ColumnType) (value : String) :
    (ofText type value).CodeFree :=
  ofText_cases type value trivial (fun _ => trivial) (fun _ => trivial) fun _ => trivial

/-- What a text is read as is no number. -/
theorem isFinite_ofText (type : Option ColumnType) (value : String) :
    (ofText type value).isFinite = true := by
  apply ofText_cases (P := fun cell => cell.isFinite = true)
  · rfl
  · exact fun _ => rfl
  · exact fun _ => rfl
  · exact fun _ => rfl

/-- Outside the columns of times of day, what is written of a text is what it is read as to the
whole millisecond. -/
theorem rounded_ofText {type : ColumnType} (h : type ≠ .timeofday) (value : String) :
    (ofText (some type) value).rounded = (ofText (some type) value).toMillis := by
  have hget {α : Type} (read : Option α) {cell : α → Cell}
      (hcell : ∀ a, (cell a).rounded = (cell a).toMillis) :
      ((read.map cell).getD (text value)).rounded =
        ((read.map cell).getD (text value)).toMillis := by
    cases read with
    | none => rfl
    | some a => exact hcell a
  cases type with
  | date => exact hget _ fun _ => rfl
  | datetime => exact hget _ fun _ => rfl
  | timeofday => exact absurd rfl h
  | _ => rfl

/-- Two texts in a column of a type are written alike exactly when their literals say the same of
what they are read as. Outside the columns of times of day that is to agree to the whole
millisecond, and of two times of day it is to agree to the second. -/
theorem spell_of_texts_eq_iff {type : ColumnType} {first second : String} {c d : Cell}
    (hc : ofJson (some type) (.text first) = .ok c)
    (hd : ofJson (some type) (.text second) = .ok d) :
    (c.literal.spell = d.literal.spell ↔ c.rounded = d.rounded) ∧
      (type ≠ .timeofday → (c.literal.spell = d.literal.spell ↔ c.toMillis = d.toMillis)) ∧
      ∀ a b, c = .time a → d = .time b →
        (c.literal.spell = d.literal.spell ↔ a.toSecond = b.toSecond) := by
  rw [ofJson] at hc hd
  cases hc
  cases hd
  have hspell := spell_eq_iff (codeFree_ofText (some type) first)
    (codeFree_ofText (some type) second) (isFinite_ofText _ _) (isFinite_ofText _ _)
  refine ⟨hspell, fun htype => ?_, fun a b ha hb => ?_⟩
  · rw [hspell, rounded_ofText htype, rounded_ofText htype]
  · rw [hspell, ha, hb, rounded, rounded, Cell.time.injEq]

/-- Two spellings of moments in one millisecond, with the letter and with a blank between day and
time, are written alike, and two times of day in two seconds are not. -/
theorem spell_of_texts_eq_iff_samples :
    (∃ c d, ofJson (some .datetime) (.text "2024-03-01T09:30:05.2501") = .ok c ∧
      ofJson (some .datetime) (.text "+2024-3- 1 9:30:05.250999") = .ok d ∧
        ColumnType.datetime ≠ .timeofday ∧ c.literal.spell = d.literal.spell) ∧
      ∃ a b, ofJson (some .timeofday) (.text "8:15:00") = .ok (.time a) ∧
        ofJson (some .timeofday) (.text "08:15:01.5") = .ok (.time b) ∧
          (Cell.time a).literal.spell ≠ (Cell.time b).literal.spell := by
  have hletter : ofJson (some .datetime) (.text "2024-03-01T09:30:05.2501") =
      .ok (.moment ⟨⟨2024, 3, 1, rfl⟩, ⟨9, 30, 5, 250100000, rfl⟩⟩) := by decide +kernel
  have hblank : ofJson (some .datetime) (.text "+2024-3- 1 9:30:05.250999") =
      .ok (.moment ⟨⟨2024, 3, 1, rfl⟩, ⟨9, 30, 5, 250999000, rfl⟩⟩) := by decide +kernel
  have hfirst : ofJson (some .timeofday) (.text "8:15:00") =
      .ok (.time ⟨8, 15, 0, 0, rfl⟩) := by decide +kernel
  have hsecond : ofJson (some .timeofday) (.text "08:15:01.5") =
      .ok (.time ⟨8, 15, 1, 500000000, rfl⟩) := by decide +kernel
  obtain ⟨_, hmoments, _⟩ := spell_of_texts_eq_iff hletter hblank
  obtain ⟨_, _, htimes⟩ := spell_of_texts_eq_iff hfirst hsecond
  refine ⟨⟨_, _, hletter, hblank, by decide, (hmoments (by decide)).mpr rfl⟩,
    ⟨_, _, hfirst, hsecond, fun h => ?_⟩⟩
  exact absurd ((htimes _ _ rfl rfl).mp h) (by decide)

/-- The dates, and the moments and times of day outside leap seconds. -/
def Temporal : Cell → Prop
  | .date _ => True
  | .moment value => value.time.nanos < 1000000000
  | .time value => value.nanos < 1000000000
  | _ => False

/-- Not all texts of typed columns are told apart by their milliseconds: times of day are written
without the milliseconds that are read of them. -/
theorem not_spell_of_texts_eq_iff_toMillis :
    (∃ a b, ofJson (some .timeofday) (.text "08:15:00.250") = .ok (.time a) ∧
      ofJson (some .timeofday) (.text "08:15:00") = .ok (.time b) ∧
        a.millis = 250 ∧ b.millis = 0 ∧
          (Cell.time a).literal.spell = "[8, 15, 0]" ∧
            (Cell.time b).literal.spell = "[8, 15, 0]") ∧
      ¬∀ (type : ColumnType) (first second : String) (c d : Cell),
        ofJson (some type) (.text first) = .ok c → ofJson (some type) (.text second) = .ok d →
          c.Temporal → d.Temporal →
            (c.literal.spell = d.literal.spell ↔ c.toMillis = d.toMillis) := by
  have hquarter : ofJson (some .timeofday) (.text "08:15:00.250") =
      .ok (.time ⟨8, 15, 0, 250000000, rfl⟩) := by decide +kernel
  have hwhole : ofJson (some .timeofday) (.text "08:15:00") =
      .ok (.time ⟨8, 15, 0, 0, rfl⟩) := by decide +kernel
  have hliteral : (Cell.time ⟨8, 15, 0, 250000000, rfl⟩).literal.spell = "[8, 15, 0]" := by
    decide +kernel
  have hliteral' : (Cell.time ⟨8, 15, 0, 0, rfl⟩).literal.spell = "[8, 15, 0]" := by
    decide +kernel
  refine ⟨⟨_, _, hquarter, hwhole, rfl, rfl, hliteral, hliteral'⟩, fun h => ?_⟩
  have hmillis := (h _ _ _ _ _ hquarter hwhole (by simp [Temporal]) (by simp [Temporal])).mp
    (hliteral.trans hliteral'.symm)
  exact absurd hmillis (by decide)

end Cell

end ChartScript
