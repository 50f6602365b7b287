import ChartScript.Proofs.Json.Printing
import ChartScript.Proofs.Keyed

/-!
# The content of printed JSON

The tree of a value has the value as its content, as long as its numbers are integers of 64 bits and
the nesting is allowed, and a value in canonical form is its own canonical form. In the other
direction, what is read from a text whose numbers are such integers is made of such integers, and
what is kept of it is settled: canonical and made of such integers.
-/

namespace ChartScript

namespace JsonNumber

/-- The lexeme of an integer says the integer. -/
theorem value?_lexeme {value : JsonNumber} (h : value.Is64Bit) :
    value.lexeme.value? = some value := by
  cases value with
  | float negative magnitude => exact absurd h id
  | integer n =>
    obtain ⟨hlow, hhigh⟩ := h
    have hsize : UInt64.size = 2 ^ 64 := rfl
    cases n with
    | ofNat k =>
      have hlt : k < UInt64.size := by
        change (k : Int) < 2 ^ 64 at hhigh
        omega
      have hdigits : (lexeme (integer (Int.ofNat k))).whole = Nat.toDigits 10 k := rfl
      have hnegative : (lexeme (integer (Int.ofNat k))).negative = false := rfl
      rw [NumberLexeme.value?, hdigits, hnegative, Nat.ofDigitChars_ten_toDigits]
      simp [lexeme, hlt]
    | negSucc k =>
      have hnegative : (lexeme (integer (Int.negSucc k))).negative = true :=
        decide_eq_true (Int.negSucc_lt_zero k)
      have hdigits : (lexeme (integer (Int.negSucc k))).whole = Nat.toDigits 10 (k + 1) := rfl
      have hle : k + 1 ≤ UInt64.size / 2 := by omega
      rw [NumberLexeme.value?, hdigits, hnegative, Nat.ofDigitChars_ten_toDigits]
      simp [lexeme, hle]
      omega

/-- An integer that is read has 64 bits. -/
theorem is64Bit_of_value? {lexeme : NumberLexeme} {n : Int}
    (h : lexeme.value? = some (.integer n)) : (integer n).Is64Bit := by
  have hsize : UInt64.size = 2 ^ 64 := rfl
  unfold NumberLexeme.value? at h
  simp only at h
  split at h
  · rename_i hfits
    simp only [Bool.and_eq_true, decide_eq_true_eq] at hfits
    obtain rfl := JsonNumber.integer.inj (Option.some.inj h)
    exact ⟨by omega, by omega⟩
  · split at h
    · rename_i hfits
      simp only [Bool.and_eq_true, decide_eq_true_eq] at hfits
      obtain rfl := JsonNumber.integer.inj (Option.some.inj h)
      exact ⟨by omega, by omega⟩
    · obtain ⟨m, _, hfloat⟩ := Option.map_eq_some_iff.mp h
      cases hfloat

/-- A number whose integer has 64 bits is finite. -/
theorem isFinite_toBinary64 {value : JsonNumber}
    (h : ∀ n, value = .integer n → value.Is64Bit) : value.toBinary64.isFinite = true := by
  cases value with
  | float negative magnitude => rfl
  | integer n =>
    obtain ⟨hlow, hhigh⟩ := h n rfl
    have hbits (k : Nat) : n.natAbs * 2 ^ k / 1 < 2 ^ (64 + k) := by
      rw [Nat.div_one, Nat.pow_add]
      exact Nat.mul_lt_mul_of_pos_right (by omega) (Nat.pow_pos (by decide))
    have hrank := BinaryFormat.double.nearest_le (by decide) (by decide)
      (hbits BinaryFormat.double.finest)
    have hsize : BinaryFormat.double.nearest n.natAbs 1 < BinaryFormat.double.size :=
      Nat.lt_of_le_of_lt hrank (by decide)
    rw [toBinary64, Binary64.ofInt, Magnitude.ofRatio?, Magnitude.ofRank?, dif_pos hsize]
    rfl

end JsonNumber

namespace Json

mutual

/-- How many levels of arrays and objects a value has. -/
def depth : Json → Nat
  | .array items => depthItems items + 1
  | .object members => depthMembers members + 1
  | _ => 0

/-- The levels of the deepest item. -/
def depthItems : List Json → Nat
  | [] => 0
  | item :: rest => max item.depth (depthItems rest)

/-- The levels of the deepest member. -/
def depthMembers : List (String × Json) → Nat
  | [] => 0
  | (_, value) :: rest => max value.depth (depthMembers rest)

end

/-- An item is smaller than its array. -/
theorem sizeOf_item_lt {items : List Json} {item : Json} (h : item ∈ items) :
    sizeOf item < sizeOf (array items) := by
  have hsize := List.sizeOf_lt_of_mem h
  rw [array.sizeOf_spec]
  omega

/-- The value of a member is smaller than its object. -/
theorem sizeOf_member_lt {members : List (String × Json)} {member : String × Json}
    (h : member ∈ members) : sizeOf member.2 < sizeOf (object members) := by
  have hsize := List.sizeOf_lt_of_mem h
  rw [Prod.mk.sizeOf_spec] at hsize
  rw [object.sizeOf_spec]
  omega

/-- Items are as deep as the deepest. -/
theorem depthItems_le {items : List Json} {k : Nat} :
    depthItems items ≤ k ↔ ∀ item ∈ items, item.depth ≤ k := by
  induction items with
  | nil => simp [depthItems]
  | cons item rest ih => simp [depthItems, ih]

/-- Members are as deep as the deepest. -/
theorem depthMembers_le {members : List (String × Json)} {k : Nat} :
    depthMembers members ≤ k ↔ ∀ member ∈ members, member.2.depth ≤ k := by
  induction members with
  | nil => simp [depthMembers]
  | cons member rest ih => simp [depthMembers, ih]

/-- The trees of items are the trees of each. -/
theorem rawItems_eq_map (items : List Json) : rawItems items = items.map raw := by
  induction items with
  | nil => rfl
  | cons item rest ih => rw [rawItems, ih, List.map_cons]

/-- The trees of members are the trees of each under its key. -/
theorem rawMembers_eq_map (members : List (String × Json)) :
    rawMembers members = members.map fun member => (some member.1, member.2.raw) := by
  induction members with
  | nil => rfl
  | cons member rest ih => rw [rawMembers, ih, List.map_cons]

/-- The trees of items have the items as their contents, if each has. -/
theorem contentItems?_rawItems {items : List Json} {k : Nat}
    (h : ∀ item ∈ items, item.raw.content? k = some item) :
    RawJson.contentItems? k (rawItems items) = some items := by
  induction items with
  | nil => rfl
  | cons item rest ih =>
    obtain ⟨hitem, hrest⟩ := List.forall_mem_cons.mp h
    rw [rawItems, RawJson.contentItems?, hitem, ih hrest]
    rfl

/-- The trees of members have the members as their contents, if each value has. -/
theorem contentMembers?_rawMembers {members : List (String × Json)} {k : Nat}
    (h : ∀ member ∈ members, member.2.raw.content? k = some member.2) :
    RawJson.contentMembers? k (rawMembers members) = some members := by
  induction members with
  | nil => rfl
  | cons member rest ih =>
    obtain ⟨hmember, hrest⟩ := List.forall_mem_cons.mp h
    rw [rawMembers, RawJson.contentMembers?, hmember, ih hrest]
    rfl

/-- The tree of a value has the value as its content. -/
theorem content?_raw {value : Json} (h : value.Integral) {k : Nat} (hdepth : value.depth ≤ k) :
    value.raw.content? k = some value := by
  induction h generalizing k with
  | null => rfl
  | bool value => rfl
  | text value => rfl
  | number h =>
    rw [raw, RawJson.content?, JsonNumber.value?_lexeme h]
    rfl
  | array _ ih =>
    obtain ⟨k, rfl⟩ := Nat.exists_eq_add_of_le' (Nat.le_trans (Nat.le_add_left 1 _) hdepth)
    have hitems := depthItems_le.mp (Nat.le_of_succ_le_succ hdepth)
    rw [raw, RawJson.content?,
      contentItems?_rawItems fun item hitem => ih item hitem (hitems item hitem)]
    rfl
  | object _ ih =>
    obtain ⟨k, rfl⟩ := Nat.exists_eq_add_of_le' (Nat.le_trans (Nat.le_add_left 1 _) hdepth)
    have hmembers := depthMembers_le.mp (Nat.le_of_succ_le_succ hdepth)
    rw [raw, RawJson.content?, contentMembers?_rawMembers fun member hmember =>
      ih member hmember (hmembers member hmember)]
    rfl

/-- A value in canonical form, made of integers of 64 bits. -/
inductive Settled : Json → Prop
  | null : Settled .null
  | bool (value : Bool) : Settled (.bool value)
  | number {value : JsonNumber} (h : value.Is64Bit) : Settled (.number value)
  | text (value : String) : Settled (.text value)
  | array {items : List Json} (h : ∀ item ∈ items, Settled item) : Settled (.array items)
  | object {members : List (String × Json)} (hkeys : Keyed.Ascending members)
    (h : ∀ member ∈ members, Settled member.2) : Settled (.object members)

/-- The numbers of a settled value are integers of 64 bits. -/
theorem Settled.integral {value : Json} (h : value.Settled) : value.Integral := by
  induction h with
  | null => exact .null
  | bool value => exact .bool value
  | number h => exact .number h
  | text value => exact .text value
  | array _ ih => exact .array ih
  | object _ _ ih => exact .object ih

/-- The canonical form of items is that of each. -/
theorem canonicalItems_eq_map (items : List Json) : canonicalItems items = items.map canonical := by
  induction items with
  | nil => rfl
  | cons item rest ih => rw [canonicalItems, ih, List.map_cons]

/-- The canonical form of members is that of each value. -/
theorem canonicalMembers_eq_map (members : List (String × Json)) :
    canonicalMembers members = members.map fun member => (member.1, member.2.canonical) := by
  induction members with
  | nil => rfl
  | cons member rest ih => rw [canonicalMembers, ih, List.map_cons]

/-- A settled value is its own canonical form. -/
theorem Settled.canonical_eq {value : Json} (h : value.Settled) : value.canonical = value := by
  induction h with
  | null => rfl
  | bool value => rfl
  | number h => rfl
  | text value => rfl
  | array _ ih =>
    rw [canonical, canonicalItems_eq_map, List.map_congr_left ih, List.map_id']
  | object hkeys _ ih =>
    rename_i members _
    have hsame : members.map (fun member => (member.1, member.2.canonical)) = members := by
      refine Eq.trans (List.map_congr_left fun member hmember => ?_) (List.map_id members)
      exact Prod.ext rfl (ih member hmember)
    rw [canonical, canonicalMembers_eq_map, hsame, Keyed.ofList_eq_self hkeys]

/-- The canonical form of a value made of integers is settled. -/
theorem Integral.settled_canonical {value : Json} (h : value.Integral) :
    value.canonical.Settled := by
  induction h with
  | null => exact .null
  | bool value => exact .bool value
  | number h => exact .number h
  | text value => exact .text value
  | array _ ih =>
    rw [canonical, canonicalItems_eq_map]
    refine .array fun item hitem => ?_
    obtain ⟨written, hwritten, rfl⟩ := List.mem_map.mp hitem
    exact ih written hwritten
  | object _ ih =>
    rw [canonical, canonicalMembers_eq_map]
    refine .object (Keyed.ascending_ofList _) fun member hmember => ?_
    obtain ⟨written, hwritten, rfl⟩ := List.mem_map.mp (Keyed.mem_ofList hmember)
    exact ih written hwritten

/-- A settled value is read back from its tree. -/
theorem Settled.value?_raw {value : Json} (h : value.Settled) {k : Nat} (hdepth : value.depth ≤ k) :
    value.raw.value? k = some value := by
  rw [RawJson.value?, content?_raw h.integral hdepth, Option.map_some, h.canonical_eq]

end Json

/-- A token that is not a number, or is an integer of 64 bits. -/
def JsonToken.Integral : JsonToken → Prop
  | .number lexeme => ∃ n, lexeme.value? = some (.integer n)
  | _ => True

instance JsonToken.decidableIntegral : (token : JsonToken) → Decidable token.Integral
  | .number lexeme =>
    match h : lexeme.value? with
    | some (.integer n) => .isTrue ⟨n, h⟩
    | some (.float _ _) | none => .isFalse fun ⟨n, hn⟩ => by rw [h] at hn; cases hn
  | .openArray | .closeArray | .openObject | .closeObject | .comma | .colon | .null | .bool _
  | .string _ => .isTrue trivial

namespace RawJson

/-- All numbers of a tree are integers of 64 bits. -/
inductive Integral : RawJson → Prop
  | null : Integral .null
  | bool (value : Bool) : Integral (.bool value)
  | number {lexeme : NumberLexeme} {n : Int} (h : lexeme.value? = some (.integer n)) :
    Integral (.number lexeme)
  | string (text : Option String) : Integral (.string text)
  | array {items : List RawJson} (h : ∀ item ∈ items, Integral item) : Integral (.array items)
  | object {members : List (Option String × RawJson)} (h : ∀ member ∈ members, Integral member.2) :
    Integral (.object members)

/-- All numbers in an open array or object are integers of 64 bits. -/
def Frame.Integral : Frame → Prop
  | .items done => ∀ item ∈ done, item.Integral
  | .members done _ => ∀ member ∈ done, member.2.Integral

/-- All numbers that the machine has read are integers of 64 bits. -/
def State.Integral : State → Prop
  | .value stack | .itemOrEnd stack | .keyOrEnd stack => ∀ frame ∈ stack, frame.Integral
  | .key done stack | .colon done _ stack =>
    (∀ member ∈ done, member.2.Integral) ∧ ∀ frame ∈ stack, frame.Integral
  | .next found stack => found.Integral ∧ ∀ frame ∈ stack, frame.Integral

/-- A token where a value is due brings in no other numbers. -/
theorem integral_of_begin {stack : List Frame} {token : JsonToken} {next : State}
    (hstack : ∀ frame ∈ stack, frame.Integral) (htoken : token.Integral)
    (hbegin : begin stack token = some next) : next.Integral := by
  cases token with
  | null =>
    cases hbegin
    exact ⟨.null, hstack⟩
  | bool value =>
    cases hbegin
    exact ⟨.bool value, hstack⟩
  | number lexeme =>
    cases hbegin
    obtain ⟨n, hn⟩ := htoken
    exact ⟨.number hn, hstack⟩
  | string text =>
    cases hbegin
    exact ⟨.string text, hstack⟩
  | openArray =>
    cases hbegin
    exact hstack
  | openObject =>
    cases hbegin
    exact hstack
  | _ => cases hbegin

/-- A token brings in no other numbers. -/
theorem integral_of_step {state next : State} {token : JsonToken} (hstate : state.Integral)
    (htoken : token.Integral) (hstep : step state token = some next) : next.Integral := by
  unfold step at hstep
  split at hstep
  · exact integral_of_begin hstate htoken hstep
  · cases hstep
    exact ⟨.array (by simp), hstate⟩
  · refine integral_of_begin (List.forall_mem_cons.mpr ⟨?_, hstate⟩) htoken hstep
    simp [Frame.Integral]
  · cases hstep
    exact ⟨.object (by simp), hstate⟩
  · cases hstep
    exact ⟨by simp, hstate⟩
  · cases hstep
    exact hstate
  · cases hstep
    exact List.forall_mem_cons.mpr hstate
  · cases hstep
    obtain ⟨hvalue, hframes⟩ := hstate
    obtain ⟨hdone, hstack⟩ := List.forall_mem_cons.mp hframes
    exact List.forall_mem_cons.mpr ⟨List.forall_mem_cons.mpr ⟨hvalue, hdone⟩, hstack⟩
  · cases hstep
    obtain ⟨hvalue, hframes⟩ := hstate
    obtain ⟨hdone, hstack⟩ := List.forall_mem_cons.mp hframes
    refine ⟨.array fun item hitem => ?_, hstack⟩
    exact List.forall_mem_cons.mpr ⟨hvalue, hdone⟩ item (List.mem_reverse.mp hitem)
  · cases hstep
    obtain ⟨hvalue, hframes⟩ := hstate
    obtain ⟨hdone, hstack⟩ := List.forall_mem_cons.mp hframes
    exact ⟨List.forall_mem_cons.mpr ⟨hvalue, hdone⟩, hstack⟩
  · cases hstep
    obtain ⟨hvalue, hframes⟩ := hstate
    obtain ⟨hdone, hstack⟩ := List.forall_mem_cons.mp hframes
    refine ⟨.object fun member hmember => ?_, hstack⟩
    rcases List.mem_cons.mp (List.mem_reverse.mp hmember) with rfl | hmember
    · exact hvalue
    · exact hdone member hmember
  · cases hstep

/-- A run brings in no other numbers. -/
theorem integral_of_run {state last : State} {tokens : List JsonToken} (hstate : state.Integral)
    (htokens : ∀ token ∈ tokens, token.Integral) (hrun : run state tokens = some last) :
    last.Integral := by
  induction tokens generalizing state with
  | nil =>
    cases hrun
    exact hstate
  | cons token rest ih =>
    obtain ⟨htoken, hrest⟩ := List.forall_mem_cons.mp htokens
    obtain ⟨next, hstep, hrun⟩ := Option.bind_eq_some_iff.mp hrun
    exact ih (integral_of_step hstate htoken hstep) hrest hrun

/-- A text whose numbers are integers of 64 bits is read as a tree of such numbers. -/
theorem integral_of_read? {text : String} {raw : RawJson} (hread : read? text = some raw)
    (hnumbers : ∀ tokens, JsonToken.tokens text.toList = some tokens →
      ∀ token ∈ tokens, token.Integral) : raw.Integral := by
  obtain ⟨tokens, htokens, hread⟩ := Option.bind_eq_some_iff.mp hread
  obtain ⟨last, hrun, hlast⟩ := Option.bind_eq_some_iff.mp hread
  have hstart : (State.value []).Integral := fun _ hmem => absurd hmem List.not_mem_nil
  have hintegral := integral_of_run hstart (hnumbers tokens htokens) hrun
  split at hlast
  · cases hlast
    exact hintegral.1
  · cases hlast

/-- The contents of items are each the content of one. -/
theorem exists_mem_of_contentItems? {k : Nat} {items : List RawJson} {values : List Json}
    (h : contentItems? k items = some values) {value : Json} (hvalue : value ∈ values) :
    ∃ item ∈ items, item.content? k = some value := by
  induction items generalizing values with
  | nil =>
    cases h
    exact absurd hvalue List.not_mem_nil
  | cons item rest ih =>
    obtain ⟨first, hfirst, h⟩ := Option.bind_eq_some_iff.mp h
    obtain ⟨others, hothers, h⟩ := Option.bind_eq_some_iff.mp h
    cases h
    rcases List.mem_cons.mp hvalue with rfl | hvalue
    · exact ⟨item, List.mem_cons_self, hfirst⟩
    · obtain ⟨found, hmem, hfound⟩ := ih hothers hvalue
      exact ⟨found, List.mem_cons_of_mem _ hmem, hfound⟩

/-- The contents of members are each the content of one. -/
theorem exists_mem_of_contentMembers? {k : Nat} {members : List (Option String × RawJson)}
    {values : List (String × Json)} (h : contentMembers? k members = some values)
    {value : String × Json} (hvalue : value ∈ values) :
    ∃ member ∈ members, member.2.content? k = some value.2 := by
  induction members generalizing values with
  | nil =>
    cases h
    exact absurd hvalue List.not_mem_nil
  | cons member rest ih =>
    obtain ⟨key, hkey, h⟩ := Option.bind_eq_some_iff.mp h
    obtain ⟨first, hfirst, h⟩ := Option.bind_eq_some_iff.mp h
    obtain ⟨others, hothers, h⟩ := Option.bind_eq_some_iff.mp h
    cases h
    rcases List.mem_cons.mp hvalue with rfl | hvalue
    · exact ⟨member, List.mem_cons_self, hfirst⟩
    · obtain ⟨found, hmem, hfound⟩ := ih hothers hvalue
      exact ⟨found, List.mem_cons_of_mem _ hmem, hfound⟩

/-- The content of a tree has no other numbers. -/
theorem Integral.of_content? {raw : RawJson} (h : raw.Integral) {k : Nat} {value : Json}
    (hcontent : raw.content? k = some value) : value.Integral := by
  induction h generalizing k value with
  | null =>
    cases hcontent
    exact .null
  | bool value =>
    cases hcontent
    exact .bool value
  | string text =>
    obtain ⟨text, _, rfl⟩ := Option.map_eq_some_iff.mp hcontent
    exact .text text
  | number h =>
    obtain ⟨number, hnumber, rfl⟩ := Option.map_eq_some_iff.mp hcontent
    obtain rfl := Option.some.inj (h.symm.trans hnumber)
    exact .number (JsonNumber.is64Bit_of_value? h)
  | array _ ih =>
    cases k with
    | zero => cases hcontent
    | succ k =>
      obtain ⟨values, hvalues, rfl⟩ := Option.map_eq_some_iff.mp hcontent
      refine .array fun value hvalue => ?_
      obtain ⟨item, hitem, hcontent⟩ := exists_mem_of_contentItems? hvalues hvalue
      exact ih item hitem hcontent
  | object _ ih =>
    cases k with
    | zero => cases hcontent
    | succ k =>
      obtain ⟨values, hvalues, rfl⟩ := Option.map_eq_some_iff.mp hcontent
      refine .object fun value hvalue => ?_
      obtain ⟨member, hmember, hcontent⟩ := exists_mem_of_contentMembers? hvalues hvalue
      exact ih member hmember hcontent

/-- What is kept of a tree is settled. -/
theorem Integral.settled_of_value? {raw : RawJson} (h : raw.Integral) {k : Nat} {value : Json}
    (hvalue : raw.value? k = some value) : value.Settled := by
  obtain ⟨content, hcontent, rfl⟩ := Option.map_eq_some_iff.mp hvalue
  exact (h.of_content? hcontent).settled_canonical

end RawJson

end ChartScript
