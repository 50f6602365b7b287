/-!
# Lists keyed in ascending order

Finite maps as lists of pairs in ascending key order, one pair to a key. Option trees keep their
assigned fields this way, labelled collections their entries, and JSON objects their members. A
plain list may stand inside a nested inductive type, where a map that carries its own proof may
not; `Ascending` is therefore a separate predicate, kept by every operation here.

Because the order is fixed by the keys, writes at different keys commute as an equation of lists.
-/

namespace ChartScript.Keyed

variable {κ α : Type} [Ord κ]

/-- The value stored at a key. -/
def find? (key : κ) : List (κ × α) → Option α
  | [] => none
  | (k, v) :: rest => if compare key k = .eq then some v else find? key rest

/-- Store a value at a key, replacing what was there. -/
def insert (key : κ) (value : α) : List (κ × α) → List (κ × α)
  | [] => [(key, value)]
  | (k, v) :: rest =>
    match compare key k with
    | .lt => (key, value) :: (k, v) :: rest
    | .eq => (key, value) :: rest
    | .gt => (k, v) :: insert key value rest

/-- Remove a key and its value. -/
def erase (key : κ) : List (κ × α) → List (κ × α)
  | [] => []
  | (k, v) :: rest => if compare key k = .eq then rest else (k, v) :: erase key rest

/-- The map of a list of pairs; of two pairs with one key the later wins. -/
def ofList (pairs : List (κ × α)) : List (κ × α) :=
  pairs.foldl (fun acc p => insert p.1 p.2 acc) []

/-- Keys strictly ascend, so each stands once. -/
def Ascending (pairs : List (κ × α)) : Prop :=
  pairs.Pairwise fun p q => compare p.1 q.1 = .lt

variable [Std.LawfulEqOrd κ]

/-- What was stored last is found. -/
theorem find?_insert_self (key : κ) (value : α) (pairs : List (κ × α)) :
    find? key (insert key value pairs) = some value := by
  induction pairs with
  | nil => simp [insert, find?]
  | cons p rest ih =>
    obtain ⟨k, v⟩ := p
    simp only [insert]
    split <;> simp_all [find?]

/-- A write leaves every other key as it was. -/
theorem find?_insert_of_ne {key other : κ} (h : other ≠ key) (value : α) (pairs : List (κ × α)) :
    find? other (insert key value pairs) = find? other pairs := by
  have hne : compare other key ≠ .eq := fun he => h (Std.LawfulEqOrd.eq_of_compare he)
  induction pairs with
  | nil => simp [insert, find?, hne]
  | cons p rest ih =>
    obtain ⟨k, v⟩ := p
    simp only [insert]
    split
    · simp [find?, hne]
    · rename_i he
      have : key = k := Std.LawfulEqOrd.eq_of_compare he
      subst this
      simp [find?, hne]
    · simp [find?, ih]

/-- The second of two writes at one key is the one that counts. -/
theorem insert_insert_self (key : κ) (first second : α) (pairs : List (κ × α)) :
    insert key second (insert key first pairs) = insert key second pairs := by
  induction pairs with
  | nil => simp [insert]
  | cons p rest ih =>
    obtain ⟨k, v⟩ := p
    rcases h : compare key k with _ | _ | _ <;> simp [insert, h, ih]

end ChartScript.Keyed
