import ChartScript.Number.Rounding

/-!
# Shortest decimals

The decimal with the fewest digits that rounds back to a given value of a binary format, and among
those the one nearest to it. Every such value is a decimal itself, since its denominator is a power
of two, so the search starts from its exact expansion: on the grid of decimals with one digit, then
two, and so on, the two neighbours of the exact value are tried, and the full expansion ends the
search at the latest. Whatever is found rounds back to the value it was found for.
-/

namespace ChartScript

/-- Which of two equally near candidates to take. -/
inductive Tie where
  | up
  | even
deriving DecidableEq

/-- The decimal `digits * 10 ^ exponent`. -/
structure Decimal where
  digits : Nat
  exponent : Int
deriving DecidableEq

/-- Which of two neighbours is nearer to the exact value; `rest` is what the lower one falls short
by, `unit` the distance between them. -/
def Tie.nearer (tie : Tie) (rest unit below : Nat) : Nat :=
  if 2 * rest < unit then below
  else if unit < 2 * rest then below + 1
  else match tie with
    | .up => below + 1
    | .even => if below % 2 = 0 then below else below + 1

namespace BinaryFormat

/-- The exact decimal expansion of a value: the first number over ten to the power of the second. -/
def expansion (f : BinaryFormat) (rank : Nat) : Nat × Nat :=
  let whole := Nat.pow 2 f.finest
  let common := Nat.gcd (f.units rank) whole
  let places := (whole / common).log2
  (f.units rank / common * Nat.pow 5 places, places)

/-- Whether a candidate, counted in units of `10 ^ (drop - places)`, rounds to the value. -/
def readsBack (f : BinaryFormat) (rank places drop candidate : Nat) : Bool :=
  f.nearest (candidate * Nat.pow 10 drop) (Nat.pow 10 places) == rank

/-- The neighbour of the exact value on the grid without the last `drop` digits that rounds back to
it, the nearer one where both do. -/
def neighbour? (f : BinaryFormat) (tie : Tie) (rank exact places drop : Nat) : Option Nat :=
  let unit := Nat.pow 10 drop
  let below := exact / unit
  match f.readsBack rank places drop below, f.readsBack rank places drop (below + 1) with
  | true, true => some (tie.nearer (exact % unit) unit below)
  | true, false => some below
  | false, true => some (below + 1)
  | false, false => none

/-- Search the grids from the coarsest given one down to the exact expansion. -/
def search (f : BinaryFormat) (tie : Tie) (rank exact places : Nat) : Nat → Decimal
  | 0 => ⟨exact, -(places : Int)⟩
  | drop + 1 =>
    match f.neighbour? tie rank exact places (drop + 1) with
    | some candidate => ⟨candidate, (drop + 1 : Nat) - (places : Int)⟩
    | none => f.search tie rank exact places drop

/-- The shortest decimal that rounds back to the value of a rank. -/
def shortest (f : BinaryFormat) (tie : Tie) (rank : Nat) : Decimal :=
  let (exact, places) := f.expansion rank
  f.search tie rank exact places ((Nat.toDigits 10 exact).length - 1)

end BinaryFormat

/-- The nearer neighbour is one of the two. -/
theorem Tie.nearer_eq (tie : Tie) (rest unit below : Nat) :
    tie.nearer rest unit below = below ∨ tie.nearer rest unit below = below + 1 := by
  unfold nearer
  split
  · exact .inl rfl
  · split
    · exact .inr rfl
    · cases tie with
      | up => exact .inr rfl
      | even =>
        simp only
        split
        · exact .inl rfl
        · exact .inr rfl

/-- A neighbour is only taken if it rounds back. -/
theorem BinaryFormat.readsBack_of_neighbour? {f : BinaryFormat} {tie : Tie}
    {rank exact places drop candidate : Nat}
    (h : f.neighbour? tie rank exact places drop = some candidate) :
    f.readsBack rank places drop candidate = true := by
  unfold neighbour? at h
  simp only at h
  split at h <;> rename_i hbelow habove <;> cases h
  · rcases tie.nearer_eq (exact % Nat.pow 10 drop) (Nat.pow 10 drop) (exact / Nat.pow 10 drop)
      with e | e
    · rw [e]; exact hbelow
    · rw [e]; exact habove
  · exact hbelow
  · exact habove

end ChartScript
