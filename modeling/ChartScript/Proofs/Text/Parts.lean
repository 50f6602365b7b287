import Mathlib.Data.List.Forall2

/-!
# Text part by part

What is known of a text is mostly known of its parts. A relation between two texts that goes part by
part holds of texts that are put together in the same way when it holds of what they are put
together from; a property of one text is such a relation that does not look at the other.
-/

namespace ChartScript.Text

/-- Parts are written one by one, each but the first after a separator. -/
theorem toList_intercalate_cons (separator part : String) (parts : List String) :
    (separator.intercalate (part :: parts)).toList =
      part.toList ++ parts.flatMap fun other => separator.toList ++ other.toList := by
  induction parts generalizing part with
  | nil => simp
  | cons other parts ih =>
    rw [String.intercalate_cons_cons, String.toList_append, ih, List.flatMap_cons,
      String.toList_append, List.append_assoc, List.append_assoc]

/-- A relation between texts that goes part by part. -/
structure PartByPart (R : List Char → List Char → Prop) : Prop where
  nil : R [] []
  append {chars chars' rest rest' : List Char} :
    R chars chars' → R rest rest' → R (chars ++ rest) (chars' ++ rest')

namespace PartByPart

variable {R : List Char → List Char → Prop}

/-- Texts stay related between texts that are related to themselves. -/
theorem enclosed (hR : PartByPart R) {before text text' after : String}
    (hbefore : R before.toList before.toList) (h : R text.toList text'.toList)
    (hafter : R after.toList after.toList) :
    R (before ++ text ++ after).toList (before ++ text' ++ after).toList := by
  simp only [String.toList_append]
  exact hR.append (hR.append hbefore h) hafter

/-- Parts that are related stay so with a separator between them. -/
theorem intercalate (hR : PartByPart R) {separator : String} {parts parts' : List String}
    (hseparator : R separator.toList separator.toList)
    (h : List.Forall₂ (fun part part' => R part.toList part'.toList) parts parts') :
    R (separator.intercalate parts).toList (separator.intercalate parts').toList := by
  induction h with
  | nil => exact hR.nil
  | cons hpart hparts ih =>
    cases hparts with
    | nil => simpa using hpart
    | cons _ _ =>
      rw [String.intercalate_cons_cons, String.intercalate_cons_cons]
      simp only [String.toList_append]
      exact hR.append (hR.append hpart hseparator) ih

/-- Parts that are related stay so when they are joined. -/
theorem join (hR : PartByPart R) {parts parts' : List String}
    (h : List.Forall₂ (fun part part' => R part.toList part'.toList) parts parts') :
    R (String.join parts).toList (String.join parts').toList := by
  induction h with
  | nil => exact hR.nil
  | cons hpart hparts ih =>
    rw [String.join_cons, String.join_cons, String.toList_append, String.toList_append]
    exact hR.append hpart ih

end PartByPart

end ChartScript.Text
