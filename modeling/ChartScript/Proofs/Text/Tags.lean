import ChartScript.Proofs.Text.Parts
import ChartScript.Proofs.Text.Quoted
import Mathlib.Data.List.Chain

/-!
# Text without tags

Text that is put together of parts holds a `</` only inside a part or where two parts meet. A part
is sealed when it holds none and does not end in a bracket, for then no `</` begins in it, whatever
follows. Sealed parts make a sealed text, and a text that stands as it was given between sealed
parts and quotes is all that can bring a `</` in.
-/

namespace ChartScript.Text

variable {chars rest : List Char}

/-- Text is free of tags when none of its characters opens one with the next. -/
theorem tagFree_iff_isChain (chars : List Char) :
    TagFree chars ↔ chars.IsChain fun c d => ¬ (c = '<' ∧ d = '/') := by
  fun_induction TagFree chars with
  | case1 rest => simp
  | case2 c rest hopens ih =>
    cases rest with
    | nil => simpa using ih
    | cons d rest =>
      rw [List.isChain_cons_cons, ← ih]
      exact (and_iff_right fun h => hopens rest h.1 (by rw [h.2])).symm
  | case3 => simp

/-- Two parts are free of tags when each is and none opens where they meet. -/
theorem tagFree_append :
    TagFree (chars ++ rest) ↔ TagFree chars ∧ TagFree rest ∧
      ∀ c ∈ chars.getLast?, ∀ d ∈ rest.head?, ¬ (c = '<' ∧ d = '/') := by
  simp only [tagFree_iff_isChain, List.isChain_append]

/-- Text in which no `</` begins, whatever follows it. -/
structure Sealed (chars : List Char) : Prop where
  tagFree : TagFree chars
  last : '<' ∉ chars.getLast?

/-- What follows sealed text decides alone. -/
theorem Sealed.tagFree_append (h : Sealed chars) : TagFree (chars ++ rest) ↔ TagFree rest := by
  rw [Text.tagFree_append, and_iff_right h.tagFree]
  exact and_iff_left fun c hc _ _ hopens => h.last (hopens.1 ▸ hc)

/-- Nothing is sealed. -/
theorem sealed_nil : Sealed [] := ⟨trivial, by simp⟩

/-- Two sealed parts make a sealed text. -/
theorem Sealed.append (h : Sealed chars) (hrest : Sealed rest) : Sealed (chars ++ rest) := by
  refine ⟨h.tagFree_append.mpr hrest.tagFree, ?_⟩
  rw [List.getLast?_append]
  cases hlast : rest.getLast? with
  | none => exact h.last
  | some c =>
    have hc := hrest.last
    rw [hlast] at hc
    exact hc

/-- Text without an opening bracket is sealed. -/
theorem Sealed.of_not_mem (h : '<' ∉ chars) : Sealed chars := by
  refine ⟨?_, fun hlast => h (List.mem_of_getLast? hlast)⟩
  rw [tagFree_iff_isChain]
  exact List.Pairwise.isChain
    (List.pairwise_of_forall_mem_list fun c hc _ _ hopens => h (hopens.1 ▸ hc))

/-- Text is sealed part by part. -/
theorem partByPart_sealed : PartByPart fun chars _ => Sealed chars where
  nil := sealed_nil
  append h hrest := h.append hrest

/-- Sealed text between texts without an opening bracket is sealed. -/
theorem Sealed.enclosed {text : String} (h : Sealed text.toList) {before after : String}
    (hbefore : '<' ∉ before.toList) (hafter : '<' ∉ after.toList) :
    Sealed (before ++ text ++ after).toList := by
  rw [String.toList_append, String.toList_append]
  exact ((Sealed.of_not_mem hbefore).append h).append (.of_not_mem hafter)

/-- Text after sealed text and before text that does not begin with a slash brings in the tags that
it holds, and no other. -/
theorem Sealed.tagFree_between {before after : String} (h : Sealed before.toList) (text : String)
    (hafter : '/' ∉ after.toList.head?) :
    TagFree (before ++ text ++ after).toList ↔ TagFree text.toList ∧ TagFree after.toList := by
  rw [String.toList_append, String.toList_append, List.append_assoc, h.tagFree_append,
    Text.tagFree_append]
  refine and_congr_right fun _ => and_iff_left fun _ _ d hd hopens => hafter (hopens.2 ▸ hd)

/-- Sealed parts with sealed text between them make a sealed text. -/
theorem sealed_intercalate {separator : String} {parts : List String}
    (hseparator : Sealed separator.toList) (hparts : ∀ part ∈ parts, Sealed part.toList) :
    Sealed (separator.intercalate parts).toList :=
  partByPart_sealed.intercalate hseparator (List.forall₂_same.mpr hparts)

/-- Parts that do not end in a bracket bring in the tags that they hold, and no other. -/
theorem tagFree_join {parts : List String} (h : ∀ part ∈ parts, '<' ∉ part.toList.getLast?) :
    TagFree (String.join parts).toList ↔ ∀ part ∈ parts, TagFree part.toList := by
  induction parts with
  | nil => simp [TagFree]
  | cons part parts ih =>
    obtain ⟨hpart, hrest⟩ := List.forall_mem_cons.mp h
    rw [String.join_cons, String.toList_append, tagFree_append, ih hrest, List.forall_mem_cons]
    refine and_congr_right fun _ => and_iff_left fun c hc _ _ hopens => hpart (hopens.1 ▸ hc)

/-- Text begins as its first part does. -/
theorem head?_toList_append {before : String} (after : String) {c : Char}
    (h : before.toList.head? = some c) : (before ++ after).toList.head? = some c := by
  rw [String.toList_append, List.head?_append, h]
  rfl

/-- Text ends as its last part does. -/
theorem getLast?_toList_append (before : String) {after : String} {c : Char}
    (h : after.toList.getLast? = some c) : (before ++ after).toList.getLast? = some c := by
  rw [String.toList_append, List.getLast?_append, h]
  rfl

/-- The guard keeps the last character. -/
theorem getLast?_guardChars (chars : List Char) :
    (guardChars chars).getLast? = chars.getLast? := by
  fun_induction guardChars chars with
  | case1 rest ih =>
    cases rest with
    | nil => rfl
    | cons c rest =>
      obtain ⟨tail, htail⟩ := guardChars_cons c rest
      rw [htail] at ih ⊢
      simpa using ih
  | case2 c rest _ ih =>
    cases rest with
    | nil => rfl
    | cons d rest =>
      obtain ⟨tail, htail⟩ := guardChars_cons d rest
      rw [htail] at ih ⊢
      simpa using ih
  | case3 => rfl

/-- After text that does not end in a bracket, the guard begins anew. -/
theorem guardChars_append_of_getLast? (h : '<' ∉ chars.getLast?) :
    guardChars (chars ++ rest) = guardChars chars ++ guardChars rest := by
  fun_induction guardChars chars with
  | case1 tail ih =>
    have htail : '<' ∉ tail.getLast? := by
      cases tail with
      | nil => simp
      | cons d tail => simpa using h
    rw [List.cons_append, List.cons_append, guardChars, ih htail]
    rfl
  | case2 c tail hopens ih =>
    cases tail with
    | nil =>
      have hc : c ≠ '<' := fun hc => h (congrArg some hc)
      rw [List.singleton_append, guardChars_cons_of_ne hc]
      rfl
    | cons d tail =>
      rw [List.cons_append, guardChars, ih (by simpa using h)]
      · rfl
      · intro after hc hafter
        exact hopens tail hc (by rw [(List.cons.inj hafter).1])
  | case3 => rfl

/-- Guarded text is sealed when it does not end in a bracket. -/
theorem sealed_guardTags {text : String} (h : '<' ∉ text.toList.getLast?) :
    Sealed (guardTags text).toList := by
  rw [guardTags, String.toList_ofList]
  exact ⟨tagFree_guardChars _, by rwa [getLast?_guardChars]⟩

/-- Quoted text ends in a quote. -/
theorem getLast?_quote (text : String) : (quote text).toList.getLast? = some '"' := by
  rw [quote, String.toList_ofList, ← List.cons_append, List.getLast?_concat]

/-- A string literal for a script is sealed. -/
theorem sealed_scriptQuote (text : String) : Sealed (scriptQuote text).toList :=
  sealed_guardTags (by simp [getLast?_quote])

end ChartScript.Text
