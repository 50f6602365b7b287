import ChartScript.Proofs.Script.ReadBack
import Mathlib.Data.List.Basic

/-!
# Reading sequences

Items that are written one by one, with a separator between them and a character after them that
closes the sequence, are read one by one. What an item is does not matter, as long as it is read
back from its text before a separator and before the character that closes the sequence.
-/

namespace ChartScript.LiteralReader

variable {α β : Type}

/-- What is left after a character. -/
def after? (c : Char) : List Char → Option (List Char)
  | d :: rest => if d = c then some rest else none
  | [] => none

/-- What is left after the character that stands in front. -/
@[simp]
theorem after?_cons (c : Char) (rest : List Char) : after? c (c :: rest) = some rest := if_pos rfl

/-- Further items, each after a separator, and the character that closes them. -/
def further? (separator : List Char) (close : Char) (item? : List Char → Option (α × List Char)) :
    Nat → List Char → Option (List α × List Char)
  | 0, _ => none
  | bound + 1, chars =>
    match chars.dropPrefix? separator with
    | some chars => do
      let (item, rest) ← item? chars
      let (items, rest) ← further? separator close item? bound rest
      return (item :: items, rest)
    | none => (after? close chars).map ([], ·)

/-- Between one item and the given number of items, and the character that closes them. -/
def sequence? (separator : List Char) (close : Char) (item? : List Char → Option (α × List Char))
    (most : Nat) (chars : List Char) : Option (List α × List Char) := do
  let (item, rest) ← item? chars
  let (items, rest) ← further? separator close item? most rest
  return (item :: items, rest)

/-- Further items as they are written, before what follows the sequence. -/
def furtherChars (separator : List Char) (close : Char) (write : β → List Char) (items : List β)
    (rest : List Char) : List Char :=
  items.flatMap (fun item => separator ++ write item) ++ close :: rest

/-- There is a character for each item, and for each that an item is written with. -/
theorem length_le_furtherChars {separator : List Char} (hseparator : separator ≠ []) (close : Char)
    (write : β → List Char) (items : List β) (rest : List Char) :
    items.length < (furtherChars separator close write items rest).length ∧
      ∀ item ∈ items,
        (write item).length ≤ (furtherChars separator close write items rest).length := by
  induction items with
  | nil => exact ⟨by simp [furtherChars], by simp⟩
  | cons item items ih =>
    have hlength : (furtherChars separator close write (item :: items) rest).length =
        separator.length + (write item).length +
          (furtherChars separator close write items rest).length := by
      simp only [furtherChars, List.flatMap_cons, List.length_append]
      omega
    have hpositive := List.length_pos_iff.mpr hseparator
    rw [hlength, List.length_cons, List.forall_mem_cons]
    exact ⟨by omega, by omega, fun other hother => Nat.le_trans (ih.2 other hother) (by omega)⟩

variable {separator : List Char} {close : Char} {item? : List Char → Option (α × List Char)}
  {write : β → List Char} {read : β → α}

/-- After an item stands a separator, or the character that closes the sequence. -/
theorem of_furtherChars {P : List Char → Prop} (hseparator : ∀ after, P (separator ++ after))
    (hclose : ∀ after, P (close :: after)) (items : List β) (rest : List Char) :
    P (furtherChars separator close write items rest) := by
  cases items with
  | nil => exact hclose rest
  | cons item items =>
    rw [furtherChars, List.flatMap_cons, List.append_assoc, List.append_assoc]
    exact hseparator _

/-- Further items are read as they were written, if each is. -/
theorem further?_append (hclose : ∀ rest, (close :: rest).dropPrefix? separator = none)
    {items : List β} (hitems : ∀ item ∈ items, ∀ others rest,
      item? (write item ++ furtherChars separator close write others rest) =
        some (read item, furtherChars separator close write others rest))
    {bound : Nat} (hbound : items.length < bound) (rest : List Char) :
    further? separator close item? bound (furtherChars separator close write items rest) =
      some (items.map read, rest) := by
  induction items generalizing bound with
  | nil =>
    obtain ⟨bound, rfl⟩ := Nat.exists_eq_add_one.mpr hbound
    rw [furtherChars, List.flatMap_nil, List.nil_append, further?]
    simp only [hclose, after?_cons, Option.map_some, List.map_nil]
  | cons item items ih =>
    obtain ⟨bound, rfl⟩ : ∃ k, bound = k + 1 := Nat.exists_eq_add_one.mpr (by omega)
    obtain ⟨hitem, hitems⟩ := List.forall_mem_cons.mp hitems
    have hchars : furtherChars separator close write (item :: items) rest =
        separator ++ (write item ++ furtherChars separator close write items rest) := by
      rw [furtherChars, List.flatMap_cons, List.append_assoc, List.append_assoc, furtherChars]
    have hafter := List.dropPrefix?_append_of_beq
      (write item ++ furtherChars separator close write items rest) (BEq.refl separator)
    rw [hchars, further?]
    simp only [hafter, Option.bind_eq_bind, Option.bind_some, hitem,
      ih hitems (Nat.lt_of_succ_lt_succ hbound)]
    rfl

/-- The items of a sequence are read as they were written, if each is. -/
theorem sequence?_append (hclose : ∀ rest, (close :: rest).dropPrefix? separator = none)
    {item : β} {items : List β} (hitems : ∀ other ∈ item :: items, ∀ others rest,
      item? (write other ++ furtherChars separator close write others rest) =
        some (read other, furtherChars separator close write others rest))
    {most : Nat} (hmost : items.length < most) (rest : List Char) :
    sequence? separator close item? most
      (write item ++ furtherChars separator close write items rest) =
        some ((item :: items).map read, rest) := by
  obtain ⟨hitem, hitems⟩ := List.forall_mem_cons.mp hitems
  rw [sequence?, hitem]
  simp only [Option.bind_eq_bind, Option.bind_some, further?_append hclose hitems hmost]
  rfl

/-- Between one whole number and the given number of them. -/
def numbers? (close : Char) (most : Nat) (chars : List Char) : Option (List Int × List Char) :=
  sequence? [',', ' '] close integer? most chars

/-- Whole numbers are read as they were written. -/
theorem numbers?_append (hdigit : close.isDigit = false) (hcomma : close ≠ ',') {n : Int}
    {numbers : List Int} {most : Nat} (hmost : numbers.length < most) (rest : List Char) :
    numbers? close most ((argumentList (n :: numbers)).toList ++ close :: rest) =
      some (n :: numbers, rest) := by
  have hstops (others : List Int) (rest : List Char) : StopsFor Char.isDigit
      (furtherChars [',', ' '] close (fun k : Int => k.repr.toList) others rest) :=
    of_furtherChars (fun _ => stopsFor_cons rfl _) (fun _ => stopsFor_cons hdigit _) others rest
  have hclose (rest : List Char) : (close :: rest).dropPrefix? [',', ' '] = none := by
    simp [List.dropPrefix?, hcomma]
  have hread : sequence? [',', ' '] close integer? most (n.repr.toList ++
      furtherChars [',', ' '] close (fun k => k.repr.toList) numbers rest) =
        some ((n :: numbers).map id, rest) :=
    sequence?_append hclose (fun k _ others rest => integer?_append k (hstops others rest)) hmost
      rest
  rw [List.map_id] at hread
  rw [toList_argumentList, List.append_assoc]
  exact hread

end ChartScript.LiteralReader
