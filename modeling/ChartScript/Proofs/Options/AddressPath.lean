import ChartScript.Proofs.Options.Independence

/-!
# The path of an address

Every address can be spelled: the names of its fields and the labels on its way, joined by dots.
Where no name has a dot in it, the path is taken apart into these segments again, and it leads to
the address in every tree in which the steps can be opened.
-/

namespace ChartScript

namespace Label

/-- A number as a label. -/
def text (n : Nat) : String :=
  String.ofList (Nat.toDigits 10 n)

/-- The digits of a label. -/
theorem isDigit_of_mem_text {n : Nat} {c : Char} (h : c ∈ (text n).toList) : c.isDigit = true := by
  rw [text, String.toList_ofList] at h
  exact Nat.isDigit_of_mem_toDigits (by decide) (by decide) h

/-- Digits say their number, if it is a label. -/
theorem ofDigits?_toDigits (n : Nat) : ofDigits? (Nat.toDigits 10 n) = ofPosition? n := by
  have hdigits : (Nat.toDigits 10 n).all Char.isDigit = true :=
    List.all_eq_true.mpr fun _ hc => Nat.isDigit_of_mem_toDigits (by decide) (by decide) hc
  have hsome : (Nat.toDigits 10 n).isEmpty = false := by
    simp [Nat.toDigits_ne_nil]
  simp only [ofDigits?, ofPosition?, hdigits, hsome, Nat.ofDigitChars_ten_toDigits, Bool.not_true,
    Bool.or_self, Bool.false_eq_true, if_false]

/-- The label of a position is read from its text. -/
theorem ofText?_text (n : Nat) : ofText? (text n) = ofPosition? n := by
  rw [← ofDigits?_toDigits, ofText?, text, String.toList_ofList]
  split
  · rename_i digits hplus
    have hmem : '+' ∈ Nat.toDigits 10 n := hplus ▸ List.mem_cons_self
    exact absurd (Nat.isDigit_of_mem_toDigits (by decide) (by decide) hmem) (by decide)
  · rfl

/-- What is read from the text of a number is the number. -/
theorem toNat_of_ofText?_text {n : Nat} {label : UInt32} (h : ofText? (text n) = some label) :
    label.toNat = n :=
  toNat_of_ofPosition? (ofText?_text n ▸ h)

/-- Texts of numbers with one label are texts of one number. -/
theorem eq_of_ofText?_text {m n : Nat} {label : UInt32} (hm : ofText? (text m) = some label)
    (hn : ofText? (text n) = some label) : m = n :=
  (toNat_of_ofText?_text hm).symm.trans (toNat_of_ofText?_text hn)

/-- Every label has a text. -/
theorem ofText?_text_toNat (label : UInt32) : ofText? (text label.toNat) = some label := by
  rw [ofText?_text, ofPosition?, if_pos label.toNat_lt]
  exact congrArg some (UInt32.ofNat_toNat ..)

/-- The text of a number denotes a label when the number is the label's. -/
theorem ofText?_text_eq_some {n : Nat} {label : UInt32} :
    ofText? (text n) = some label ↔ label.toNat = n :=
  ⟨toNat_of_ofText?_text, fun h => h ▸ ofText?_text_toNat label⟩

/-- Different numbers have different texts. -/
theorem eq_of_text_eq {m n : Nat} (h : text m = text n) : m = n := by
  have hdigits : Nat.toDigits 10 m = Nat.toDigits 10 n := String.ofList_inj.mp h
  have hsame := congrArg (fun digits => Nat.ofDigitChars 10 digits 0) hdigits
  rwa [Nat.ofDigitChars_ten_toDigits, Nat.ofDigitChars_ten_toDigits] at hsame

/-- There is no dot in a label. -/
theorem dot_not_mem_text (n : Nat) : '.' ∉ (text n).toList :=
  fun h => absurd (isDigit_of_mem_text h) (by decide)

end Label

namespace Step

/-- How a step is spelled. -/
def segments : Step → List String
  | .object field => [field]
  | .entry field label => [field, Label.text label.toNat]
  | .item field position => [field, Label.text position]

/-- The spelling of a step that can be opened spells it. -/
theorem spells_segments {step : Step} {kind : FieldKind Schema} {declared : Schema}
    (h : step.opens? kind = some declared) : step.Spells step.segments := by
  cases step with
  | object field => rfl
  | entry field label => exact ⟨_, Label.ofText?_text_toNat label, rfl⟩
  | item field position =>
    have hlt : position < UInt32.size := Nat.lt_trans (opens?_item.mp h).2 (by decide)
    refine ⟨_, UInt32.ofNat position, ?_, UInt32.toNat_ofNat_of_lt' hlt, rfl⟩
    rw [Label.ofText?_text, Label.ofPosition?, if_pos hlt]

end Step

namespace Address

/-- The segments of an address: how its steps are spelled, and its field. -/
def segments (a : Address) : List String :=
  a.steps.flatMap Step.segments ++ [a.field]

/-- An address as a path. -/
def path (a : Address) : String :=
  ".".intercalate a.segments

/-- From above a step, the spelling of the step comes first. -/
theorem segments_under (step : Step) (a : Address) :
    (a.under step).segments = step.segments ++ a.segments := by
  rw [segments, segments, under, List.flatMap_cons, List.append_assoc]

end Address

/-- A dot ends a segment. -/
theorem splitDots_dot_cons (rest : List Char) :
    splitDots ('.' :: rest) = [] :: splitDots rest := by
  rw [splitDots]

/-- Any other character belongs to the first segment. -/
theorem splitDots_cons_of_ne {c : Char} (hc : c ≠ '.') {rest segment : List Char}
    {segments : List (List Char)} (h : splitDots rest = segment :: segments) :
    splitDots (c :: rest) = (c :: segment) :: segments := by
  rw [splitDots.eq_def]
  simp [h]

/-- Text without dots is one segment. -/
theorem splitDots_of_dot_not_mem {chars : List Char} (h : '.' ∉ chars) :
    splitDots chars = [chars] := by
  induction chars with
  | nil => rfl
  | cons c rest ih =>
    obtain ⟨hc, hrest⟩ := not_or.mp (mt List.mem_cons.mpr h)
    exact splitDots_cons_of_ne (Ne.symm hc) (ih hrest)

/-- Text without dots before a dot is the first segment. -/
theorem splitDots_append_dot {chars : List Char} (h : '.' ∉ chars) (rest : List Char) :
    splitDots (chars ++ '.' :: rest) = chars :: splitDots rest := by
  induction chars with
  | nil => exact splitDots_dot_cons rest
  | cons c chars ih =>
    obtain ⟨hc, hchars⟩ := not_or.mp (mt List.mem_cons.mpr h)
    exact splitDots_cons_of_ne (Ne.symm hc) (ih hchars)

/-- Segments without dots are what their path is taken apart into. -/
theorem pathSegments_intercalate {segments : List String} (hne : segments ≠ [])
    (h : ∀ segment ∈ segments, '.' ∉ segment.toList) :
    pathSegments (".".intercalate segments) = segments := by
  induction segments with
  | nil => exact absurd rfl hne
  | cons segment rest ih =>
    obtain ⟨hsegment, hrest⟩ := List.forall_mem_cons.mp h
    cases rest with
    | nil =>
      rw [String.intercalate_singleton, pathSegments, splitDots_of_dot_not_mem hsegment]
      exact congrArg (fun text => [text]) (String.ofList_toList)
    | cons next others =>
      replace ih := ih (List.cons_ne_nil _ _) hrest
      rw [String.intercalate_cons_cons, pathSegments, String.toList_append, String.toList_append]
      change (splitDots ((segment.toList ++ ['.']) ++ _)).map String.ofList = _
      rw [List.append_assoc, List.singleton_append, splitDots_append_dot hsegment, List.map_cons,
        String.ofList_toList]
      exact congrArg (segment :: ·) ih

namespace Address

/-- No segment of the address has a dot in it. -/
def DotFree (a : Address) : Prop :=
  ∀ segment ∈ a.segments, '.' ∉ segment.toList

/-- The path of an address is taken apart into its segments. -/
theorem DotFree.pathSegments_path {a : Address} (h : a.DotFree) :
    pathSegments a.path = a.segments :=
  pathSegments_intercalate (List.append_ne_nil_of_right_ne_nil _ (List.cons_ne_nil _ _)) h

end Address

namespace Options

variable {options changed : Options} {value : OptionValue}

/-- Where a value can be written, the segments of the address lead. -/
theorem Writes.leadsTo {a : Address} (h : Writes value a.field options a.steps changed) :
    options.LeadsTo a.segments a := by
  obtain ⟨steps, field⟩ := a
  change Writes value field options steps changed at h
  induction h with
  | here _ _ => exact .here
  | @step _ _ step _ _ steps hspec hopens _ ih =>
    have hsegments : (⟨step :: steps, field⟩ : Address).segments =
        step.segments ++ (⟨steps, field⟩ : Address).segments :=
      Address.segments_under step ⟨steps, field⟩
    rw [hsegments]
    exact .step hspec hopens (Step.spells_segments hopens) ih

/-- Where a value can be written, it is assigned through the path of the address. -/
theorem Writes.assign_path {a : Address} (h : Writes value a.field options a.steps changed)
    (hdots : a.DotFree) : options.assign a.path value = (.ok (), changed) := by
  rw [assign, hdots.pathSegments_path]
  exact h.leadsTo.assignAt_eq_ok.mpr h

end Options

end ChartScript
