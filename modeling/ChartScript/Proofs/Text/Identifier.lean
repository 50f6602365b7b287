import ChartScript.Text.Digest
import ChartScript.Text.Identifier

/-!
# Characters of identifiers

On the characters that may begin an identifier, the full Unicode mapping is the ASCII one: one
character for one. A capitalized identifier is therefore as long as it was, and it is made of
characters of identifiers, as a digest is.
-/

namespace ChartScript.Text

/-- Every code point below 128 that may begin an identifier has one character as its upper case. -/
theorem length_upperChar_ascii :
    ∀ code < 128, identifierHead (Char.ofNat code) = true →
      (upperChar (Char.ofNat code)).length = 1 := by
  decide +kernel

/-- Characters that may begin an identifier are ASCII. -/
theorem toNat_lt_of_identifierHead {c : Char} (h : identifierHead c = true) : c.toNat < 128 := by
  change (decide (c.val ≥ 'A'.val ∧ c.val ≤ 'Z'.val) ||
    (decide (c.val ≥ 'a'.val) && decide (c.val ≤ 'z'.val)) || c == '_' || c == '$') = true at h
  simp only [Bool.or_eq_true, Bool.and_eq_true, decide_eq_true_eq, beq_iff_eq] at h
  rcases h with ((⟨_, h⟩ | ⟨_, h⟩) | rfl) | rfl
  · have : c.val.toNat ≤ 90 := h
    exact Nat.lt_of_le_of_lt this (by decide)
  · have : c.val.toNat ≤ 122 := h
    exact Nat.lt_of_le_of_lt this (by decide)
  · decide
  · decide

/-- The upper case of a character that may begin an identifier is one character. -/
theorem length_upperChar {c : Char} (h : identifierHead c = true) : (upperChar c).length = 1 := by
  have hsmall := length_upperChar_ascii c.toNat (toNat_lt_of_identifierHead h)
  rw [Char.ofNat_toNat] at hsmall
  exact hsmall h

/-- What may begin an identifier is no digit and may go on one. -/
theorem of_identifierHead {c : Char} (h : identifierHead c = true) :
    c.isDigit = false ∧ identifierTail c = true := by
  have hdigit : ∀ code < 128, identifierHead (Char.ofNat code) = true →
      (Char.ofNat code).isDigit = false := by decide +kernel
  have hsmall := hdigit c.toNat (toNat_lt_of_identifierHead h)
  rw [Char.ofNat_toNat] at hsmall
  refine ⟨hsmall h, ?_⟩
  simp only [identifierHead, identifierTail, Char.isAlphanum, Bool.or_eq_true] at h ⊢
  rcases h with (h | h) | h
  · exact .inl (.inl (.inl h))
  · exact .inl (.inr h)
  · exact .inr h

/-- All characters of an identifier may go on one. -/
theorem identifierTail_of_isIdentifier {chars : List Char} (h : isIdentifier chars = true) :
    ∃ c rest, chars = c :: rest ∧ c.isDigit = false ∧ identifierHead c = true ∧
      ∀ d ∈ chars, identifierTail d = true := by
  cases chars with
  | nil => cases h
  | cons c rest =>
    obtain ⟨hhead, hrest⟩ := Bool.and_eq_true_iff.mp h
    obtain ⟨hdigit, htail⟩ := of_identifierHead hhead
    exact ⟨c, rest, rfl, hdigit, hhead,
      List.forall_mem_cons.mpr ⟨htail, List.all_eq_true.mp hrest⟩⟩

/-- What may go on an identifier may begin one or is a digit, and so is ASCII. -/
theorem toNat_lt_of_identifierTail {c : Char} (h : identifierTail c = true) : c.toNat < 128 := by
  by_cases hdigit : c.isDigit = true
  · simp only [Char.isDigit, Bool.and_eq_true, decide_eq_true_eq] at hdigit
    have hnine : c.val.toNat ≤ 57 := hdigit.2
    exact Nat.lt_of_le_of_lt hnine (by decide)
  · refine toNat_lt_of_identifierHead ?_
    simpa [identifierTail, identifierHead, Char.isAlphanum, hdigit] using h

/-- What may go on an identifier still may in upper case. -/
theorem identifierTail_of_mem_upperChar {c d : Char} (h : identifierTail c = true)
    (hd : d ∈ upperChar c) : identifierTail d = true := by
  have hupper : ∀ code < 128, identifierTail (Char.ofNat code) = true →
      (upperChar (Char.ofNat code)).all identifierTail = true := by decide +kernel
  have hsmall := hupper c.toNat (toNat_lt_of_identifierTail h)
  rw [Char.ofNat_toNat] at hsmall
  exact List.all_eq_true.mp (hsmall h) d hd

/-- Text of such characters is capitalized to text of such characters. -/
theorem identifierTail_of_mem_capitalize {text : String}
    (h : ∀ c ∈ text.toList, identifierTail c = true) :
    ∀ c ∈ (capitalize text).toList, identifierTail c = true := by
  unfold capitalize
  split
  · exact fun _ hc => absurd hc List.not_mem_nil
  · rename_i first rest htext
    rw [htext, List.forall_mem_cons] at h
    rw [String.toList_ofList, List.forall_mem_append]
    exact ⟨fun _ => identifierTail_of_mem_upperChar h.1, h.2⟩

/-- A digest is made of digits and letters. -/
theorem identifierTail_of_mem_digest {text : String} :
    ∀ c ∈ (digest text).toList, identifierTail c = true := by
  have hdigit : ∀ n < 16, identifierTail (Nat.digitChar n) = true := by decide
  intro c h
  rw [digest, String.toList_ofList, List.mem_flatMap] at h
  obtain ⟨byte, _, hc⟩ := h
  have hbyte := byte.toNat_lt
  simp only [Digest.hexByte, List.mem_cons, List.not_mem_nil, or_false] at hc
  rcases hc with rfl | rfl
  · exact hdigit _ (by omega)
  · exact hdigit _ (by omega)

end ChartScript.Text

namespace ChartScript.Identifier

/-- A capitalized identifier is as long as it was. -/
theorem length_capitalize (i : Identifier) : (Text.capitalize i.text).length = i.text.length := by
  have hvalid := i.valid
  have htext : i.text.length = i.text.toList.length := String.length_toList.symm
  unfold Text.capitalize
  rw [htext]
  cases hchars : i.text.toList with
  | nil => rfl
  | cons first rest =>
    rw [hchars, Text.isIdentifier, Bool.and_eq_true] at hvalid
    simp only [String.length_ofList, List.length_append, Text.length_upperChar hvalid.1,
      List.length_cons]
    omega

end ChartScript.Identifier
