import ChartScript.Json.Record
import ChartScript.Proofs.Json.Content
import Mathlib.Data.List.Nodup

/-!
# Reading records back

A record is written as an object with those of its fields that are given, each under its own name.
Whatever is given, such an object is taken apart into the fields it was written from, in JSON and in
the tree of JSON alike. Whatever a record is taken apart from, its fields are found there.
-/

namespace ChartScript

variable {τ υ : Type}

/-- What is picked from items is among them. -/
theorem mem_of_pickItems? {names : List String} {items : List τ} {fields : List (Option τ)}
    (h : pickItems? names items = some fields) {value : τ} (hvalue : some value ∈ fields) :
    value ∈ items := by
  unfold pickItems? at h
  split at h
  · cases h
    obtain ⟨i, _, hi⟩ := List.mem_map.mp hvalue
    exact List.mem_of_getElem? hi
  · cases h

/-- What is picked from members is the value of one. -/
theorem exists_mem_of_pickMembers? {names : List String} {members : List (String × τ)}
    {fields : List (Option τ)} (h : pickMembers? names members = some fields) {value : τ}
    (hvalue : some value ∈ fields) : ∃ key, (key, value) ∈ members := by
  unfold pickMembers? at h
  split at h
  · cases h
  · cases h
    obtain ⟨name, _, hfound⟩ := List.mem_map.mp hvalue
    obtain ⟨member, hmember, rfl⟩ := Option.map_eq_some_iff.mp hfound
    exact ⟨member.1, List.mem_of_find?_eq_some hmember⟩

/-- Members with text for keys are among all members. -/
theorem mem_of_textKeys? {members : List (Option String × τ)} {named : List (String × τ)}
    (h : textKeys? members = some named) {key : String} {value : τ} (hmem : (key, value) ∈ named) :
    (some key, value) ∈ members := by
  induction members generalizing named with
  | nil =>
    cases h
    exact absurd hmem List.not_mem_nil
  | cons member rest ih =>
    obtain ⟨name, hname, h⟩ := Option.bind_eq_some_iff.mp h
    obtain ⟨others, hothers, h⟩ := Option.bind_eq_some_iff.mp h
    cases h
    rcases List.mem_cons.mp hmem with heq | hothersmem
    · obtain ⟨rfl, rfl⟩ := Prod.mk.inj heq
      rw [← hname]
      exact List.mem_cons_self
    · exact List.mem_cons_of_mem _ (ih hothers hothersmem)

/-- The members of a record: the fields that are given, under their names. -/
def givenFields (fields : List (String × Option τ)) : List (String × τ) :=
  fields.filterMap fun field => field.2.map (field.1, ·)

/-- A field that is given is written first, the rest after it. -/
theorem givenFields_some (name : String) (value : τ) (fields : List (String × Option τ)) :
    givenFields ((name, some value) :: fields) = (name, value) :: givenFields fields := rfl

/-- A field that is not given is not written. -/
theorem givenFields_none (name : String) (fields : List (String × Option τ)) :
    givenFields ((name, none) :: fields) = givenFields fields := rfl

/-- Members have names of fields. -/
theorem mem_givenFields {fields : List (String × Option τ)} {member : String × τ} :
    member ∈ givenFields fields ↔ (member.1, some member.2) ∈ fields := by
  rw [givenFields, List.mem_filterMap]
  constructor
  · rintro ⟨field, hfield, hmember⟩
    obtain ⟨value, hvalue, rfl⟩ := Option.map_eq_some_iff.mp hmember
    rw [← hvalue]
    exact hfield
  · exact fun hmember => ⟨_, hmember, rfl⟩

/-- The names of the members are names of the fields, in the same order. -/
theorem sublist_givenFields (fields : List (String × Option τ)) :
    ((givenFields fields).map Prod.fst).Sublist (fields.map Prod.fst) := by
  induction fields with
  | nil => exact List.Sublist.slnil
  | cons field rest ih =>
    obtain ⟨name, value⟩ := field
    cases value with
    | none => exact ih.cons name
    | some value => exact ih.cons_cons name

/-- What is done to the values of the members may be done to the fields. -/
theorem map_givenFields (f : τ → υ) (fields : List (String × Option τ)) :
    (givenFields fields).map (fun member => (member.1, f member.2)) =
      givenFields (fields.map fun field => (field.1, field.2.map f)) := by
  induction fields with
  | nil => rfl
  | cons field rest ih =>
    obtain ⟨name, value⟩ := field
    cases value with
    | none => exact ih
    | some value =>
      rw [givenFields_some, List.map_cons, ih]
      rfl

/-- A field is found under its name. -/
theorem find?_givenFields {fields : List (String × Option τ)}
    (hnames : (fields.map Prod.fst).Nodup) {field : String × Option τ} (hfield : field ∈ fields) :
    ((givenFields fields).find? (·.1 == field.1)).map Prod.snd = field.2 := by
  induction fields with
  | nil => exact absurd hfield List.not_mem_nil
  | cons first rest ih =>
    obtain ⟨name, value⟩ := first
    obtain ⟨hname, hrest⟩ := List.nodup_cons.mp hnames
    rcases List.mem_cons.mp hfield with rfl | hmem
    · cases value with
      | some value =>
        rw [givenFields_some, List.find?_cons_of_pos (by simp)]
        rfl
      | none =>
        -- no later field has the name
        have hnone : (givenFields rest).find? (·.1 == name) = none := by
          refine List.find?_eq_none.mpr fun member hmember heq => hname ?_
          obtain rfl : member.1 = name := eq_of_beq heq
          exact List.mem_map.mpr ⟨_, mem_givenFields.mp hmember, rfl⟩
        rw [givenFields_none, hnone]
        rfl
    · have hne : name ≠ field.1 := by
        rintro rfl
        exact hname (List.mem_map.mpr ⟨field, hmem, rfl⟩)
      cases value with
      | some value =>
        rw [givenFields_some, List.find?_cons_of_neg (by simpa using hne)]
        exact ih hrest hmem
      | none => exact ih hrest hmem

/-- The fields of a record are picked from its members. -/
theorem pickMembers?_givenFields {fields : List (String × Option τ)}
    (hnames : (fields.map Prod.fst).Nodup) :
    pickMembers? (fields.map Prod.fst) (givenFields fields) = some (fields.map Prod.snd) := by
  have honce : ((fields.map Prod.fst).any fun name =>
      1 < (givenFields fields).countP (·.1 == name)) = false := by
    refine List.any_eq_false.mpr fun name _ hmany => ?_
    have hnodup := (sublist_givenFields fields).nodup hnames
    have hcount : (givenFields fields).countP (·.1 == name) =
        ((givenFields fields).map Prod.fst).count name := by
      rw [List.count, List.countP_map]
      rfl
    rw [hcount, decide_eq_true_eq] at hmany
    exact absurd (List.nodup_iff_count_le_one.mp hnodup name) (Nat.not_le_of_lt hmany)
  rw [pickMembers?, honce, if_neg Bool.false_ne_true, List.map_map]
  exact congrArg some (List.map_congr_left fun field hfield => find?_givenFields hnames hfield)

namespace Json

/-- Keys that are text are kept. -/
theorem textKeys?_map_some (members : List (String × τ)) :
    textKeys? (members.map fun member => (some member.1, member.2)) = some members := by
  induction members with
  | nil => rfl
  | cons member rest ih =>
    rw [List.map_cons, textKeys?, ih]
    rfl

/-- A record that is given as an object is taken apart into its fields. -/
theorem record?_object {fields : List (String × Option Json)}
    (hnames : (fields.map Prod.fst).Nodup) :
    (object (givenFields fields)).record? (fields.map Prod.fst) = some (fields.map Prod.snd) :=
  pickMembers?_givenFields hnames

/-- The tree of a record is taken apart into the trees of its fields, and no field is nested deeper
than what is left of the nesting allowed. -/
theorem record?_raw {fields : List (String × Option Json)} (hnames : (fields.map Prod.fst).Nodup)
    {k : Nat} (hdepth : (object (givenFields fields)).depth ≤ k) :
    ∃ left, (object (givenFields fields)).raw.record? (fields.map Prod.fst) k =
        some (left, fields.map fun field => field.2.map raw) ∧
      ∀ field ∈ fields, ∀ value, field.2 = some value → value.depth ≤ left := by
  obtain ⟨left, rfl⟩ := Nat.exists_eq_add_of_le' (Nat.le_trans (Nat.le_add_left 1 _) hdepth)
  refine ⟨left, ?_, fun field hfield value hvalue => ?_⟩
  · have hmembers : rawMembers (givenFields fields) =
        (givenFields (fields.map fun field => (field.1, field.2.map raw))).map
          fun member => (some member.1, member.2) := by
      rw [rawMembers_eq_map, ← map_givenFields, List.map_map]
      rfl
    have hkept : (fields.map fun field => (field.1, field.2.map raw)).map Prod.fst =
        fields.map Prod.fst := by
      rw [List.map_map]
      rfl
    have hpick := pickMembers?_givenFields (hkept ▸ hnames)
    rw [hkept, List.map_map] at hpick
    rw [raw, RawJson.record?, hmembers, textKeys?_map_some, Option.bind_some, hpick]
    rfl
  · refine depthMembers_le.mp (Nat.le_of_succ_le_succ hdepth) (field.1, value) ?_
    rw [mem_givenFields, ← hvalue]
    exact hfield

end Json

end ChartScript
