import ChartScript.Script.Literal
import Mathlib.Data.List.Forall2

/-!
# Literals that their text tells apart

Two literals may differ and be written alike, as code and a number may be. Literals that are made in
one way, and differ in nothing but the sign of zeros, are told apart by their text, also by the
beginning of a longer text: a zero and its negative differ in the first character, and after parts
that are the same the text goes on in the same place.
-/

namespace ChartScript.Literal

/-- Texts that begin with the literals are different, unless the literals are the same. -/
def ToldApart (l m : Literal) : Prop :=
  ∀ rest others, l.chars ++ rest = m.chars ++ others → l = m

/-- Two members have one key, and their values are told apart. -/
def MembersToldApart (p q : Key × Literal) : Prop :=
  p.1 = q.1 ∧ p.2.ToldApart q.2

/-- A literal need not be told apart from itself. -/
theorem toldApart_self (l : Literal) : l.ToldApart l := fun _ _ _ => rfl

/-- Literals that are told apart differ in their texts. -/
theorem ToldApart.spell_inj {l m : Literal} (h : l.ToldApart m) : l.spell = m.spell ↔ l = m := by
  refine ⟨fun heq => h [] [] ?_, congrArg spell⟩
  rw [List.append_nil, List.append_nil]
  exact String.ofList_injective heq

/-- Numbers that compare equal are told apart. -/
theorem toldApart_number {x y : Binary64} (h : x.sameValue y = true) :
    (number x).ToldApart (number y) := by
  intro rest others heq
  rcases Binary64.eq_of_sameValue h with rfl | ⟨s, t, rfl, rfl⟩
  · rfl
  · rw [chars, chars] at heq
    -- the negative zero starts with its sign
    cases s <;> cases t <;> first | rfl | cases heq

/-- Further items are told apart. -/
theorem restChars_inj {items others : List Literal} (h : List.Forall₂ ToldApart items others)
    {rest rest' : List Char} (heq : restChars items ++ rest = restChars others ++ rest') :
    items = others := by
  induction h with
  | nil => rfl
  | cons hfirst _ ih =>
    simp only [restChars, List.cons_append, List.append_assoc, List.cons.injEq, true_and] at heq
    obtain rfl := hfirst _ _ heq
    rw [ih (List.append_cancel_left heq)]

/-- Further members are told apart. -/
theorem restMemberChars_inj {members others : List (Key × Literal)}
    (h : List.Forall₂ MembersToldApart members others) {rest rest' : List Char}
    (heq : restMemberChars members ++ rest = restMemberChars others ++ rest') :
    members = others := by
  induction h with
  | nil => rfl
  | @cons first next _ _ hfirst _ ih =>
    obtain ⟨key, value⟩ := first
    obtain ⟨key', value'⟩ := next
    obtain ⟨rfl, hvalue⟩ : key = key' ∧ value.ToldApart value' := hfirst
    simp only [restMemberChars, List.cons_append, List.append_assoc, List.cons.injEq, true_and,
      List.append_cancel_left_eq] at heq
    obtain rfl := hvalue _ _ heq
    rw [ih (List.append_cancel_left heq)]

/-- Arrays are told apart by their items. -/
theorem toldApart_array {items others : List Literal} (h : List.Forall₂ ToldApart items others) :
    (array items).ToldApart (array others) := by
  intro rest rest' heq
  cases h with
  | nil => rfl
  | cons hfirst hrest =>
    simp only [chars, List.cons_append, List.append_assoc, List.cons.injEq, true_and] at heq
    obtain rfl := hfirst _ _ heq
    rw [restChars_inj hrest (List.append_cancel_left heq)]

/-- Objects are told apart by the values of their members. -/
theorem toldApart_object {members others : List (Key × Literal)}
    (h : List.Forall₂ MembersToldApart members others) :
    (object members).ToldApart (object others) := by
  intro rest rest' heq
  cases h with
  | nil => rfl
  | @cons first next _ _ hfirst hrest =>
    obtain ⟨key, value⟩ := first
    obtain ⟨key', value'⟩ := next
    obtain ⟨rfl, hvalue⟩ : key = key' ∧ value.ToldApart value' := hfirst
    simp only [chars, List.cons_append, List.append_assoc, List.cons.injEq, true_and,
      List.append_cancel_left_eq] at heq
    obtain rfl := hvalue _ _ heq
    rw [restMemberChars_inj hrest (List.append_cancel_left heq)]

end ChartScript.Literal
