import ChartScript.Proofs.Script.Outside
import ChartScript.Proofs.Script.Tags

/-!
# Alike but for their texts

Where no code is written, a value shows the same outside of its string literals as the emptied value
does, so its texts leave no trace there. JSON stands in a script under the guard, which is why it is
followed part by part before the guard is set.
-/

namespace ChartScript

open Text

/-- Two texts that are alike once they are guarded, and end so that the guard begins anew after
them. -/
structure GuardedAlike (chars chars' : List Char) : Prop where
  alike : Alike (guardChars chars) (guardChars chars')
  last : '<' ∉ chars.getLast? ∧ '<' ∉ chars'.getLast?

namespace GuardedAlike

variable {chars chars' rest rest' : List Char}

/-- Texts are alike under the guard when their parts are. -/
theorem append (h : GuardedAlike chars chars') (hrest : GuardedAlike rest rest') :
    GuardedAlike (chars ++ rest) (chars' ++ rest') where
  alike := by
    rw [guardChars_append_of_getLast? h.last.1, guardChars_append_of_getLast? h.last.2]
    exact h.alike.append hrest.alike
  last := by
    have hlast {first second : List Char} (hfirst : '<' ∉ first.getLast?)
        (hsecond : '<' ∉ second.getLast?) : '<' ∉ (first ++ second).getLast? := by
      rw [List.getLast?_append]
      cases h : second.getLast? with
      | none => exact hfirst
      | some c => rwa [h] at hsecond
    exact ⟨hlast h.last.1 hrest.last.1, hlast h.last.2 hrest.last.2⟩

/-- The guard leaves inert text as it is. -/
theorem of_inert (h : Inert chars) : GuardedAlike chars chars where
  alike := by
    have hguard := guardChars_append h.bracket_not_mem []
    rw [List.append_nil, guardChars, List.append_nil] at hguard
    rw [hguard]
    exact .of_inert h
  last := by
    have hlast : '<' ∉ chars.getLast? := fun hmem => h.bracket_not_mem (List.mem_of_getLast? hmem)
    exact ⟨hlast, hlast⟩

/-- Quoted texts are alike. -/
theorem quote (text text' : String) :
    GuardedAlike (Text.quote text).toList (Text.quote text').toList where
  alike := .guarded_quote text text'
  last := by
    rw [getLast?_quote, getLast?_quote]
    decide

/-- Between characters that open nothing, texts stay alike. -/
theorem cons {c : Char} (hc : opens c = false) (h : GuardedAlike chars chars') :
    GuardedAlike (c :: chars) (c :: chars') :=
  (of_inert (List.forall_mem_singleton.mpr hc)).append h

end GuardedAlike

namespace Json

open JsonLayout

mutual

/-- JSON is like emptied JSON under the guard. -/
theorem guardedAlike_chars (depth : Nat) : (json : Json) →
    GuardedAlike (json.chars .compact depth) (json.emptied.chars .compact depth)
  | .null => .of_inert (by rw [chars]; decide)
  | .bool value => .of_inert (by rw [chars]; cases value <;> decide)
  | .number value => .of_inert (by rw [chars]; exact value.inert_spell)
  | .text value => by
    rw [emptied, chars, chars]
    exact .quote value ""
  | .array [] => .of_inert (by rw [chars]; decide)
  | .array (item :: items) => by
    have hclose : GuardedAlike [']'] [']'] := .of_inert (by decide)
    have hrest := (guardedAlike_restChars (depth + 1) items).append hclose
    rw [emptied, emptiedItems, chars, chars]
    simp only [lineStart_compact, List.nil_append]
    exact ((guardedAlike_chars (depth + 1) item).append hrest).cons (by decide)
  | .object [] => .of_inert (by rw [chars]; decide)
  | .object ((key, value) :: members) => by
    have hclose : GuardedAlike ['\x7d'] ['\x7d'] := .of_inert (by decide)
    have hrest := (guardedAlike_restMemberChars (depth + 1) members).append hclose
    have hvalue := (guardedAlike_chars (depth + 1) value).append hrest
    rw [emptied, emptiedMembers, chars, chars]
    simp only [lineStart_compact, colon_compact, List.nil_append, List.singleton_append]
    exact ((GuardedAlike.quote key key).append (hvalue.cons (by decide))).cons (by decide)

/-- Further items are like emptied ones. -/
theorem guardedAlike_restChars (depth : Nat) : (items : List Json) →
    GuardedAlike (restChars .compact depth items) (restChars .compact depth (emptiedItems items))
  | [] => .of_inert (by rw [restChars]; decide)
  | item :: items => by
    rw [emptiedItems, restChars, restChars]
    simp only [lineStart_compact, List.nil_append]
    exact ((guardedAlike_chars depth item).append (guardedAlike_restChars depth items)).cons
      (by decide)

/-- Further members are like emptied ones. -/
theorem guardedAlike_restMemberChars (depth : Nat) : (members : List (String × Json)) →
    GuardedAlike (restMemberChars .compact depth members)
      (restMemberChars .compact depth (emptiedMembers members))
  | [] => .of_inert (by rw [restMemberChars]; decide)
  | (key, value) :: members => by
    have hvalue := (guardedAlike_chars depth value).append
      (guardedAlike_restMemberChars depth members)
    rw [emptiedMembers, restMemberChars, restMemberChars]
    simp only [lineStart_compact, colon_compact, List.nil_append, List.singleton_append]
    exact ((GuardedAlike.quote key key).append (hvalue.cons (by decide))).cons (by decide)

end

/-- JSON in a script is like emptied JSON. -/
theorem alike_scriptText (json : Json) :
    Alike json.scriptText.toList json.emptied.scriptText.toList := by
  simp only [scriptText, guardTags, compact, String.toList_ofList]
  exact (guardedAlike_chars 0 json).alike

end Json

/-- The header of a column is like that of the emptied column. -/
theorem Column.alike_header (c : Column) :
    Alike c.header.scriptText.toList c.emptied.header.scriptText.toList := by
  have hsame : c.header.emptied = c.emptied.header.emptied := by
    obtain ⟨label, type, role, id⟩ := c
    cases type <;> cases role <;> cases id <;>
      simp [header, descriptor, isPlain, emptied, Json.emptied, Json.emptiedMembers]
  have hemptied := c.emptied.header.alike_scriptText
  rw [← hsame] at hemptied
  exact c.header.alike_scriptText.trans hemptied.symm

/-- Texts are alike part by part, whatever is quoted in them. -/
theorem blindToTexts_alike : BlindToTexts Alike where
  toPartByPart := partByPart_alike
  inert h := .of_inert h
  literal text text' := .scriptQuote text text'
  json json := json.alike_scriptText
  header c := c.alike_header

/-- A statement that holds no code, and no text as it was given, is like the emptied statement. -/
theorem Statement.CodeFree.alike_text {s : Statement} (h : s.CodeFree) (hgiven : s.asGiven = []) :
    Alike s.text.toList s.emptied.text.toList := by
  cases s with
  | load settings packages => cases hgiven
  | callback name => exact .of_inert (inert_callback h)
  | listen chart listener => exact h.elim
  | draw chart data options converter => exact .of_inert (inert_draw h)
  | close => exact .of_inert (by decide)
  | declare name value =>
    obtain ⟨hname, hvalue⟩ := h
    have hdeclare (h : Alike value.text.toList value.emptied.text.toList) :
        Alike (declare name value).text.toList (declare name value.emptied).text.toList :=
        partByPart_alike.enclosed (.of_inert (inert_declareOpening hname)) h (.of_inert (by decide))
    cases value with
    | chart path id => cases hgiven
    | table source => exact hdeclare (blindToTexts_alike.expression hvalue)
    | comparison owner old new => exact hdeclare (.of_inert (Expression.inert_comparison hvalue))
    | options literal => exact hdeclare (blindToTexts_alike.spell hvalue)

end ChartScript
