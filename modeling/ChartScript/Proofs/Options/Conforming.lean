import ChartScript.Proofs.Json.Content
import ChartScript.Proofs.Options.Import

/-!
# What JSON a schema accepts

JSON conforms to a schema when it is an object whose keys are fields of the schema and whose members
are null, marked as code, or taken by their fields. What a field takes is said by recursion over the
kinds of fields, without the import. The import succeeds exactly on conforming JSON: what it
converts without looking at the kind is refused by the check of the assignment, and that check
refuses nothing that a field takes.

The positions of an array are labels where the array stands for a labelled collection, so it has no
more items than there are labels.
-/

namespace ChartScript

/-- An object whose only member marks a text as code. -/
def Json.Marked (json : Json) : Prop :=
  ∃ code, json = .object [(codeKey, .text code)]

/-- What a kind of single value admits, by the form of the JSON. -/
def ScalarKind.Admits : ScalarKind → Json → Prop
  | .flag, .bool _ | .flagOrOneOf _, .bool _ => True
  | .number, .number value | .numberOrText, .number value | .numberOrDate, .number value =>
    value.toBinary64.isFinite = true
  | .text, .text _ | .numberOrText, .text _ => True
  | .date, .text value | .numberOrDate, .text value =>
    (Moment.readDateOrTime? value).isSome = true
  | .oneOf allowed, .text value | .flagOrOneOf allowed, .text value => value ∈ allowed
  | _, _ => False

mutual

/-- JSON is accepted by a schema when it is an object, each key is a field, and each member is null,
marked as code, or taken by its field. -/
inductive Schema.Accepts : Schema → Json → Prop
  | object {schema : Schema} {members : List (String × Json)}
    (hkeys : ∀ member ∈ members, (schema.field? member.1).isSome = true)
    (h : ∀ member ∈ members, member.2 ≠ .null → ¬ member.2.Marked →
      ∀ spec, schema.field? member.1 = some spec → spec.kind.Takes member.2) :
    Schema.Accepts schema (.object members)

/-- What a field of a kind takes, apart from what is marked as code. -/
inductive FieldKind.Takes : FieldKind Schema → Json → Prop
  | scalar {kind : ScalarKind} {json : Json} (h : kind.Admits json) :
    FieldKind.Takes (.scalar kind) json
  | code (source : String) : FieldKind.Takes .code (.text source)
  | object {schema : Schema} {json : Json} (h : schema.Accepts json) :
    FieldKind.Takes (.object schema) json
  | eitherScalar {kind : ScalarKind} {schema : Schema} {json : Json} (h : kind.Admits json) :
    FieldKind.Takes (.scalarOrObject kind schema) json
  | eitherObject {kind : ScalarKind} {schema : Schema} {json : Json} (h : schema.Accepts json) :
    FieldKind.Takes (.scalarOrObject kind schema) json
  | entries {schema : Schema} {members : List (String × Json)}
    (hlabels : ∀ member ∈ members, (Label.ofText? member.1).isSome = true)
    (h : ∀ member ∈ members, schema.Accepts member.2) :
    FieldKind.Takes (.indexed schema) (.object members)
  | items {schema : Schema} {items : List Json} (hlabels : items.length ≤ UInt32.size)
    (h : ∀ item ∈ items, schema.Accepts item) : FieldKind.Takes (.indexed schema) (.array items)
  | objectList {schema : Schema} {items : List Json}
    (h : ∀ item ∈ items, ¬ item.Marked → schema.Accepts item) :
    FieldKind.Takes (.objectList schema) (.array items)
  | scalarList {kind : ScalarKind} {items : List Json}
    (h : ∀ item ∈ items, ¬ item.Marked → kind.Admits item) :
    FieldKind.Takes (.scalarList kind) (.array items)

end

/-- A schema accepts an object when each key is a field, and each member that is neither null nor
marked is taken by its field. -/
theorem Schema.accepts_object {schema : Schema} {members : List (String × Json)} :
    schema.Accepts (.object members) ↔ ∀ member ∈ members,
      ∃ spec, schema.field? member.1 = some spec ∧
        (member.2 ≠ .null → ¬ member.2.Marked → spec.kind.Takes member.2) := by
  constructor
  · rintro ⟨hkeys, h⟩ member hmember
    obtain ⟨spec, hspec⟩ := Option.isSome_iff_exists.mp (hkeys member hmember)
    exact ⟨spec, hspec, fun hnull hmarked => h member hmember hnull hmarked spec hspec⟩
  · intro h
    refine .object (fun member hmember => ?_) fun member hmember hnull hmarked spec hspec => ?_
    · obtain ⟨spec, hspec, _⟩ := h member hmember
      exact Option.isSome_of_eq_some hspec
    · obtain ⟨found, hfound, htakes⟩ := h member hmember
      obtain rfl := Option.some.inj (hfound.symm.trans hspec)
      exact htakes hnull hmarked

namespace FieldKind

variable {kind : ScalarKind} {schema : Schema} {json : Json}

/-- A field for single values takes what its kind admits. -/
theorem takes_scalar : (scalar kind).Takes json ↔ kind.Admits json := by
  refine ⟨fun h => ?_, .scalar⟩
  cases h with
  | scalar h => exact h

/-- A field for objects takes what its schema accepts. -/
theorem takes_object : (object schema).Takes json ↔ schema.Accepts json := by
  refine ⟨fun h => ?_, .object⟩
  cases h with
  | object h => exact h

/-- A field for single values or objects takes what one of the two takes. -/
theorem takes_scalarOrObject :
    (scalarOrObject kind schema).Takes json ↔ kind.Admits json ∨ schema.Accepts json := by
  refine ⟨fun h => ?_, fun h => h.elim .eitherScalar .eitherObject⟩
  cases h with
  | eitherScalar h => exact .inl h
  | eitherObject h => exact .inr h

/-- Members are taken as entries when their keys are labels and their values are accepted. -/
theorem takes_entries {members : List (String × Json)} :
    (indexed schema).Takes (.object members) ↔ ∀ member ∈ members,
      (Label.ofText? member.1).isSome = true ∧ schema.Accepts member.2 := by
  refine ⟨fun h member hmember => ?_,
    fun h => .entries (fun member hmember => (h member hmember).1)
      fun member hmember => (h member hmember).2⟩
  cases h with
  | entries hlabels h => exact ⟨hlabels member hmember, h member hmember⟩

/-- Items are taken as entries when there are labels enough and they are accepted. -/
theorem takes_items {items : List Json} : (indexed schema).Takes (.array items) ↔
    items.length ≤ UInt32.size ∧ ∀ item ∈ items, schema.Accepts item := by
  refine ⟨fun h => ?_, fun h => .items h.1 h.2⟩
  cases h with
  | items hlabels h => exact ⟨hlabels, h⟩

/-- Items are taken as a list of objects when each is marked or accepted. -/
theorem takes_objectList {items : List Json} : (objectList schema).Takes (.array items) ↔
    ∀ item ∈ items, ¬ item.Marked → schema.Accepts item := by
  refine ⟨fun h => ?_, .objectList⟩
  cases h with
  | objectList h => exact h

/-- Items are taken as a list of single values when each is marked or admitted. -/
theorem takes_scalarList {items : List Json} : (scalarList kind).Takes (.array items) ↔
    ∀ item ∈ items, ¬ item.Marked → kind.Admits item := by
  refine ⟨fun h => ?_, .scalarList⟩
  cases h with
  | scalarList h => exact h

end FieldKind

namespace Json

/-- JSON that is not marked has no code. -/
theorem markedCode?_eq_none {json : Json} : json.markedCode? = none ↔ ¬ json.Marked := by
  simp only [Option.eq_none_iff_forall_ne_some, ne_eq, markedCode?_eq_some, Marked, not_exists]

end Json

namespace Options

variable {field : String} {kind : ScalarKind} {json : Json}

/-- A tree from JSON may stand where its schema is declared. -/
theorem isA_of_ofJson {schema : Schema} {node : Options} (h : ofJson schema json = .ok node) :
    node.schema.isA schema = true := by
  rw [schema_of_ofJson h]
  exact schema.isA_self

variable (field) in
/-- A single value that fits its kind is imported exactly from what the kind admits. -/
theorem exists_scalarOfJson_eq_ok :
    (∃ value, scalarOfJson field kind json = .ok value ∧ value.fitsScalar kind = true) ↔
      kind.Admits json := by
  cases json with
  | text value =>
    cases hread : Moment.readDateOrTime? value <;> cases kind <;>
      simp [scalarOfJson, misshapen, hread, OptionValue.fitsScalar, ScalarKind.Admits]
  | _ => cases kind <;> simp [scalarOfJson, misshapen, OptionValue.fitsScalar, ScalarKind.Admits]

/-- A single value is imported as one that fits a field for single values exactly from what its kind
admits. -/
theorem exists_scalarOfJson_eq_ok_fits :
    (∃ value, scalarOfJson field kind json = .ok value ∧ value.fits (.scalar kind) = true) ↔
      kind.Admits json := by
  rw [← exists_scalarOfJson_eq_ok field]
  refine exists_congr fun value => and_congr_right fun hvalue => ?_
  rcases single_of_scalarOfJson hvalue with ⟨_, rfl⟩ | ⟨_, rfl⟩ | ⟨_, rfl⟩ | ⟨_, rfl⟩ <;> rfl

/-- So it is for a field that takes single values or objects. -/
theorem exists_scalarOfJson_eq_ok_fits_either (schema : Schema) :
    (∃ value, scalarOfJson field kind json = .ok value ∧
        value.fits (.scalarOrObject kind schema) = true) ↔ kind.Admits json := by
  rw [← exists_scalarOfJson_eq_ok field]
  refine exists_congr fun value => and_congr_right fun hvalue => ?_
  rcases single_of_scalarOfJson hvalue with ⟨_, rfl⟩ | ⟨_, rfl⟩ | ⟨_, rfl⟩ | ⟨_, rfl⟩ <;> rfl

/-- A list fits a list of single values when its items are of the kind or code. -/
theorem fits_scalarList {items : List OptionValue} :
    (OptionValue.list items).fits (.scalarList kind) = true ↔
      ∀ item ∈ items, (∃ source, item = .code source) ∨ item.fitsScalar kind = true := by
  simp only [OptionValue.fits, List.all_eq_true]
  refine forall_congr' fun item => forall_congr' fun _ => ?_
  cases item <;> simp [OptionValue.fitsScalar]

/-- An item of a list of single values is imported from what is marked and from what the kind
admits. -/
theorem exists_markedScalarOfJson_eq_ok :
    (∃ value, markedScalarOfJson field kind json = .ok value ∧
        ((∃ source, value = .code source) ∨ value.fitsScalar kind = true)) ↔
      (¬ json.Marked → kind.Admits json) := by
  unfold markedScalarOfJson
  rw [← Json.markedCode?_eq_none]
  cases json.markedCode? with
  | some code => simp
  | none =>
    rw [← exists_scalarOfJson_eq_ok field]
    refine ⟨fun ⟨value, hvalue, hfits⟩ _ => ⟨value, hvalue, hfits.resolve_left ?_⟩,
      fun h => (h rfl).imp fun value ⟨hvalue, hfits⟩ => ⟨hvalue, .inr hfits⟩⟩
    rintro ⟨source, rfl⟩
    rcases single_of_scalarOfJson hvalue with ⟨_, h⟩ | ⟨_, h⟩ | ⟨_, h⟩ | ⟨_, h⟩ <;> cases h

/-- Members are imported when each key is a field, and each value that is not null is imported as
one that fits the field. -/
theorem exists_ofMembers_eq_ok {schema : Schema} {members : List (String × Json)}
    {options : Options} (hschema : options.schema = schema) :
    (∃ changed, ofMembers options members = .ok changed) ↔ ∀ member ∈ members,
      ∃ spec, schema.field? member.1 = some spec ∧ (member.2 ≠ .null →
        ∃ value, valueOfJson spec member.2 = .ok value ∧ value.fits spec.kind = true) := by
  subst hschema
  induction members generalizing options with
  | nil => exact ⟨fun _ _ hmem => absurd hmem List.not_mem_nil, fun _ => ⟨options, rfl⟩⟩
  | cons member rest ih =>
    obtain ⟨key, json⟩ := member
    -- storing a value does not change the schema
    have hstored (value : OptionValue) := @ih (options.store key value)
    simp only [ofMembers_cons_eq_ok, List.forall_mem_cons]
    constructor
    · rintro ⟨changed, spec, hspec, ⟨hnull, h⟩ | ⟨_, value, hvalue, hfits, h⟩⟩
      · exact ⟨⟨spec, hspec, fun hne => absurd hnull hne⟩, ih.mp ⟨changed, h⟩⟩
      · exact ⟨⟨spec, hspec, fun _ => ⟨value, hvalue, hfits⟩⟩, (hstored value).mp ⟨changed, h⟩⟩
    · rintro ⟨⟨spec, hspec, hvalue⟩, hrest⟩
      by_cases hnull : json = .null
      · obtain ⟨changed, h⟩ := ih.mpr hrest
        exact ⟨changed, spec, hspec, .inl ⟨hnull, h⟩⟩
      · obtain ⟨value, hvalue, hfits⟩ := hvalue hnull
        obtain ⟨changed, h⟩ := (hstored value).mpr hrest
        exact ⟨changed, spec, hspec, .inr ⟨hnull, value, hvalue, hfits, h⟩⟩

/-- A field stays as it is when members import nothing into it. -/
theorem get?_of_ofMembers {options changed : Options} {members : List (String × Json)}
    (h : ofMembers options members = .ok changed)
    (hunset : ∀ member ∈ members, member.1 = field → member.2 = .null) :
    changed.get? field = options.get? field := by
  induction members generalizing options with
  | nil =>
    cases h
    rfl
  | cons member rest ih =>
    obtain ⟨key, json⟩ := member
    obtain ⟨hmember, hrest⟩ := List.forall_mem_cons.mp hunset
    obtain ⟨_, _, ⟨_, h⟩ | ⟨hnull, value, _, _, h⟩⟩ := ofMembers_cons_eq_ok.mp h
    · exact ih h hrest
    · rw [ih h hrest]
      exact get?_store_of_ne (fun heq => hnull (hmember heq.symm)) options value

/-- Entries under keys are imported, as a collection that fits, when each key is a label and each
value is imported. -/
theorem exists_entriesOfMembers_eq_ok {spec : FieldSpec Schema} {schema : Schema}
    {before : List (UInt32 × Options)} {members : List (String × Json)}
    (hbefore : (OptionValue.indexed before).fits (.indexed schema) = true) :
    (∃ entries, entriesOfMembers spec schema before members = .ok entries ∧
        (OptionValue.indexed entries).fits (.indexed schema) = true) ↔
      ∀ member ∈ members, (Label.ofText? member.1).isSome = true ∧
        ∃ node, ofJson schema member.2 = .ok node := by
  induction members generalizing before with
  | nil =>
    exact ⟨fun _ _ hmem => absurd hmem List.not_mem_nil, fun _ => ⟨before, rfl, hbefore⟩⟩
  | cons member rest ih =>
    obtain ⟨key, json⟩ := member
    have hinsert {node : Options} (label : UInt32) (hnode : ofJson schema json = .ok node) :=
      OptionValue.fits_indexed_insert hbefore label (isA_of_ofJson hnode)
    simp only [entriesOfMembers_cons_eq_ok, List.forall_mem_cons]
    constructor
    · rintro ⟨entries, ⟨label, node, hlabel, hnode, h⟩, hfits⟩
      have hrest := (ih (hinsert label hnode)).mp ⟨entries, h, hfits⟩
      exact ⟨⟨Option.isSome_of_eq_some hlabel, node, hnode⟩, hrest⟩
    · rintro ⟨⟨hlabel, node, hnode⟩, hrest⟩
      obtain ⟨label, hlabel⟩ := Option.isSome_iff_exists.mp hlabel
      obtain ⟨entries, h, hfits⟩ := (ih (hinsert label hnode)).mpr hrest
      exact ⟨entries, ⟨label, node, hlabel, hnode, h⟩, hfits⟩

/-- Entries under positions are imported, as a collection that fits, when there is a label for each
position and each item is imported. -/
theorem exists_entriesOfItems_eq_ok {spec : FieldSpec Schema} {schema : Schema} {position : Nat}
    (hposition : position ≤ UInt32.size) {before : List (UInt32 × Options)} {items : List Json}
    (hbefore : (OptionValue.indexed before).fits (.indexed schema) = true) :
    (∃ entries, entriesOfItems spec schema position before items = .ok entries ∧
        (OptionValue.indexed entries).fits (.indexed schema) = true) ↔
      position + items.length ≤ UInt32.size ∧
        ∀ item ∈ items, ∃ node, ofJson schema item = .ok node := by
  induction items generalizing position before with
  | nil =>
    exact ⟨fun _ => ⟨hposition, fun _ hmem => absurd hmem List.not_mem_nil⟩,
      fun _ => ⟨before, rfl, hbefore⟩⟩
  | cons item rest ih =>
    have hinsert {node : Options} (label : UInt32) (hnode : ofJson schema item = .ok node) :=
      OptionValue.fits_indexed_insert hbefore label (isA_of_ofJson hnode)
    simp only [entriesOfItems_cons_eq_ok, List.forall_mem_cons, List.length_cons,
      Nat.add_comm rest.length, ← Nat.add_assoc]
    constructor
    · rintro ⟨entries, ⟨label, node, hlabel, hnode, h⟩, hfits⟩
      have hnext : position < UInt32.size := Label.toNat_of_ofPosition? hlabel ▸ label.toNat_lt
      obtain ⟨hlength, hrest⟩ := (ih hnext (hinsert label hnode)).mp ⟨entries, h, hfits⟩
      exact ⟨hlength, ⟨node, hnode⟩, hrest⟩
    · rintro ⟨hlength, ⟨node, hnode⟩, hrest⟩
      have hnext : position < UInt32.size := by omega
      obtain ⟨entries, h, hfits⟩ :=
        (ih hnext (hinsert (UInt32.ofNat position) hnode)).mpr ⟨hlength, hrest⟩
      exact ⟨entries, ⟨_, node, if_pos hnext, hnode, h⟩, hfits⟩

/-- An item of a list of objects. -/
def objectOfItem (schema : Schema) (item : Json) : Except Error OptionValue :=
  match item.markedCode? with
  | some code => .ok (.code code)
  | none => (ofJson schema item).map .object

/-- The objects of a list are imported one by one. -/
theorem objectsOfItems_eq_mapM (schema : Schema) (items : List Json) :
    objectsOfItems schema items = items.mapM (objectOfItem schema) := by
  induction items with
  | nil => rfl
  | cons item rest ih =>
    rw [objectsOfItems, List.mapM_cons, ih]
    unfold objectOfItem
    cases item.markedCode? <;> rfl

/-- Objects of a list are imported, as a value that fits the list, when each is marked or imported.
-/
theorem exists_objectsOfItems_eq_ok {schema : Schema} {items : List Json} :
    (∃ objects, objectsOfItems schema items = .ok objects ∧
        (OptionValue.list objects).fits (.objectList schema) = true) ↔
      ∀ item ∈ items, ¬ item.Marked → ∃ node, ofJson schema item = .ok node := by
  simp only [objectsOfItems_eq_mapM, OptionValue.fits_objectList, exists_mapM_eq_ok_and]
  refine forall_congr' fun item => forall_congr' fun _ => ?_
  rw [← Json.markedCode?_eq_none, objectOfItem]
  cases item.markedCode? with
  | some code => simp
  | none =>
    constructor
    · rintro ⟨object, h, _⟩ _
      obtain ⟨node, hnode, _⟩ := map_eq_ok.mp h
      exact ⟨node, hnode⟩
    · intro h
      obtain ⟨node, hnode⟩ := h rfl
      exact ⟨.object node, map_eq_ok.mpr ⟨node, hnode, rfl⟩, .inl ⟨node, rfl, isA_of_ofJson hnode⟩⟩

/-- An object is imported as a value that fits when its tree is imported. -/
theorem exists_object_eq_ok {kind : FieldKind Schema} {schema : Schema} (field : String)
    (hopens : (Step.object field).opens? kind = some schema) :
    (∃ value, (ofJson schema json).map OptionValue.object = .ok value ∧ value.fits kind = true) ↔
      ∃ node, ofJson schema json = .ok node := by
  rw [exists_map_eq_ok_and]
  refine exists_congr fun node => and_iff_left_of_imp fun hnode => ?_
  exact OptionValue.fits_object hopens (isA_of_ofJson hnode)

/-- What is marked is imported into any field. -/
theorem exists_valueOfJson_eq_ok_of_marked {spec : FieldSpec Schema} (hmarked : json.Marked) :
    ∃ value, valueOfJson spec json = .ok value ∧ value.fits spec.kind = true := by
  obtain ⟨source, hsource⟩ := hmarked
  refine ⟨.code source, ?_, by simp [OptionValue.fits]⟩
  rw [valueOfJson.eq_def, Json.markedCode?_eq_some.mpr hsource]

/-- A value that is not marked is imported as one that fits its field when the field takes it, if
that is so for the trees inside it. -/
theorem exists_valueOfJson_eq_ok {spec : FieldSpec Schema} (hunmarked : ¬ json.Marked)
    (hnested : ∀ (schema : Schema) (inner : Json), sizeOf inner ≤ sizeOf json →
      ((∃ tree, ofJson schema inner = .ok tree) ↔ schema.Accepts inner)) :
    (∃ value, valueOfJson spec json = .ok value ∧ value.fits spec.kind = true) ↔
      spec.kind.Takes json := by
  obtain ⟨name, kind, default⟩ := spec
  unfold valueOfJson
  rw [Json.markedCode?_eq_none.mpr hunmarked]
  cases kind with
  | scalar scalar =>
    rw [FieldKind.takes_scalar]
    exact exists_scalarOfJson_eq_ok_fits
  | code =>
    cases json with
    | text source => exact iff_of_true ⟨_, rfl, rfl⟩ (.code source)
    | _ => exact iff_of_false (by simp [misshapen]) nofun
  | object schema =>
    rw [FieldKind.takes_object]
    cases json with
    | object members => exact (exists_object_eq_ok name rfl).trans (hnested schema _ le_rfl)
    | _ => exact iff_of_false (by simp [misshapen]) nofun
  | scalarOrObject scalar schema =>
    rw [FieldKind.takes_scalarOrObject]
    cases json with
    | object members =>
      rw [or_iff_right (by cases scalar <;> exact id)]
      exact (exists_object_eq_ok name rfl).trans (hnested schema _ le_rfl)
    | _ =>
      rw [or_iff_left nofun]
      exact exists_scalarOfJson_eq_ok_fits_either schema
  | indexed schema =>
    cases json with
    | object members =>
      rw [FieldKind.takes_entries, exists_map_eq_ok_and, exists_entriesOfMembers_eq_ok rfl]
      refine forall₂_congr fun member hmember => and_congr_right fun _ => ?_
      exact hnested schema member.2 (Json.sizeOf_member_lt hmember).le
    | array items =>
      rw [FieldKind.takes_items, exists_map_eq_ok_and,
        exists_entriesOfItems_eq_ok (Nat.zero_le _) rfl, Nat.zero_add]
      refine and_congr_right fun _ => forall₂_congr fun item hitem => ?_
      exact hnested schema item (Json.sizeOf_item_lt hitem).le
    | _ => exact iff_of_false (by simp [misshapen]) nofun
  | objectList schema =>
    cases json with
    | array items =>
      rw [FieldKind.takes_objectList, exists_map_eq_ok_and, exists_objectsOfItems_eq_ok]
      refine forall₂_congr fun item hitem => imp_congr_right fun _ => ?_
      exact hnested schema item (Json.sizeOf_item_lt hitem).le
    | _ => exact iff_of_false (by simp [misshapen]) nofun
  | scalarList scalar =>
    cases json with
    | array items =>
      rw [FieldKind.takes_scalarList, exists_map_eq_ok_and]
      simp only [fits_scalarList, exists_mapM_eq_ok_and, exists_markedScalarOfJson_eq_ok]
    | _ => exact iff_of_false (by simp [misshapen]) nofun

/-- A tree is imported exactly from what its schema accepts. -/
theorem exists_ofJson_eq_ok (schema : Schema) :
    (json : Json) → ((∃ tree, ofJson schema json = .ok tree) ↔ schema.Accepts json)
  | .object members => by
    rw [ofJson, exists_ofMembers_eq_ok rfl, Schema.accepts_object]
    refine forall₂_congr fun member hmember => exists_congr fun spec => and_congr_right fun _ => ?_
    have hsize := Json.sizeOf_member_lt hmember
    refine imp_congr_right fun _ => ?_
    by_cases hmarked : member.2.Marked
    · refine iff_of_true ?_ fun hunmarked => absurd hmarked hunmarked
      exact exists_valueOfJson_eq_ok_of_marked hmarked
    · have hnested (schema : Schema) (inner : Json) (hinner : sizeOf inner ≤ sizeOf member.2) :=
        exists_ofJson_eq_ok schema inner
      rw [exists_valueOfJson_eq_ok hmarked hnested]
      exact ⟨fun h _ => h, fun h => h hmarked⟩
  | .null | .bool _ | .number _ | .text _ | .array _ =>
    iff_of_false (by simp [ofJson, misshapen]) nofun
termination_by json => sizeOf json
decreasing_by omega

/-- JSON is imported exactly when the schema accepts it, and the tree then has nothing in a field
for which the JSON has no member but null. Where numbers are admitted, every floating-point number
is, and every integer of 64 bits. -/
theorem ofJson_iff_accepts (schema : Schema) (json : Json) :
    ((∃ tree, ofJson schema json = .ok tree) ↔ schema.Accepts json) ∧
      (∀ members tree, json = .object members → ofJson schema json = .ok tree →
        ∀ field, (∀ member ∈ members, member.1 = field → member.2 = .null) →
          tree.get? field = none) ∧
      ∀ kind ∈ [ScalarKind.number, .numberOrText, .numberOrDate], ∀ value : JsonNumber,
        (∀ n, value = .integer n → value.Is64Bit) → kind.Admits (.number value) := by
  refine ⟨exists_ofJson_eq_ok schema json, ?_, fun kind hkind value hvalue => ?_⟩
  · rintro members tree rfl h field hunset
    rw [ofJson] at h
    exact get?_of_ofMembers h hunset
  · have hfinite := JsonNumber.isFinite_toBinary64 hvalue
    simp only [List.mem_cons, List.not_mem_nil, or_false] at hkind
    rcases hkind with rfl | rfl | rfl <;> exact hfinite

end Options

end ChartScript
