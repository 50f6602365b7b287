import ChartScript.Proofs.Options.ImportLeaves

/-!
# Collections as arrays and as objects

A labelled collection may be given as an array, whose positions are the labels, or as an object
whose keys are these labels. The labelled form of JSON has every collection given as an object; it
is imported as the JSON itself, so two ways to write the same collections lead to one tree.
-/

namespace ChartScript

namespace Options

/-- Items under their positions as keys. -/
def numbered (position : Nat) : List Json → List (String × Json)
  | [] => []
  | item :: rest => (Label.text position, item) :: numbered (position + 1) rest

mutual

/-- A node with its collections as objects. -/
def labelledNode (schema : Schema) : Json → Json
  | .object members => .object (labelledMembers schema members)
  | json => json

/-- Members with their collections as objects. -/
def labelledMembers (schema : Schema) : List (String × Json) → List (String × Json)
  | [] => []
  | (key, member) :: rest =>
    (key, match schema.field? key with
      | some spec => labelledValue spec member
      | none => member) :: labelledMembers schema rest

/-- What is imported into a field, with its collections as objects. -/
def labelledValue (spec : FieldSpec Schema) (json : Json) : Json :=
  match spec.kind, json with
  | .object schema, .object members => .object (labelledMembers schema members)
  | .scalarOrObject _ schema, .object members => .object (labelledMembers schema members)
  | .indexed schema, .object members => .object (labelledEntries schema members)
  | .indexed schema, .array items =>
    .object (Keyed.ofList (numbered 0 (labelledItems schema items)))
  | .objectList schema, .array items => .array (labelledItems schema items)
  | _, json => json

/-- Entries with the collections below them as objects. -/
def labelledEntries (schema : Schema) : List (String × Json) → List (String × Json)
  | [] => []
  | (key, entry) :: rest => (key, labelledNode schema entry) :: labelledEntries schema rest

/-- Items with the collections below them as objects. -/
def labelledItems (schema : Schema) : List Json → List Json
  | [] => []
  | item :: rest => labelledNode schema item :: labelledItems schema rest

end

/-- Keys of numbered items are labels from the first position on. -/
theorem exists_text_of_mem_numbered {position : Nat} {items : List Json} {key : String}
    (h : key ∈ (numbered position items).map (·.1)) :
    ∃ n, position ≤ n ∧ key = Label.text n := by
  induction items generalizing position with
  | nil => exact absurd h List.not_mem_nil
  | cons item rest ih =>
    rcases List.mem_cons.mp h with rfl | hrest
    · exact ⟨position, Nat.le_refl _, rfl⟩
    · obtain ⟨n, hle, hkey⟩ := ih hrest
      exact ⟨n, by omega, hkey⟩

/-- Numbered items have different keys. -/
theorem nodup_keys_numbered (position : Nat) (items : List Json) :
    ((numbered position items).map (·.1)).Nodup := by
  induction items generalizing position with
  | nil => exact List.nodup_nil
  | cons item rest ih =>
    refine List.nodup_cons.mpr ⟨fun hmem => ?_, ih (position + 1)⟩
    obtain ⟨n, hle, hkey⟩ := exists_text_of_mem_numbered hmem
    have hsame : position = n := Label.eq_of_text_eq hkey
    omega

/-- Importing entries reads a label and a node, and goes on with the entry inserted. -/
theorem toOption_entriesOfMembers_cons (spec : FieldSpec Schema) (schema : Schema)
    (entries : List (UInt32 × Options)) (member : String × Json) (rest : List (String × Json)) :
    (entriesOfMembers spec schema entries (member :: rest)).toOption =
      (Label.ofText? member.1).bind fun label => (ofJson schema member.2).toOption.bind fun node =>
        (entriesOfMembers spec schema (Keyed.insert label node entries) rest).toOption := by
  rw [entriesOfMembers]
  cases Label.ofText? member.1 with
  | none => rfl
  | some label => exact toOption_bind _ _

/-- So does importing items, whose labels are their positions. -/
theorem toOption_entriesOfItems_cons (spec : FieldSpec Schema) (schema : Schema) (position : Nat)
    (entries : List (UInt32 × Options)) (item : Json) (rest : List Json) :
    (entriesOfItems spec schema position entries (item :: rest)).toOption =
      (Label.ofPosition? position).bind fun label => (ofJson schema item).toOption.bind fun node =>
        (entriesOfItems spec schema (position + 1) (Keyed.insert label node entries)
          rest).toOption := by
  rw [entriesOfItems]
  cases Label.ofPosition? position with
  | none => rfl
  | some label => exact toOption_bind _ _

/-- The entries of numbered items are those of the items under their positions. -/
theorem toOption_entriesOfMembers_numbered (spec : FieldSpec Schema) (schema : Schema)
    (position : Nat) (entries : List (UInt32 × Options)) (items : List Json) :
    (entriesOfMembers spec schema entries (numbered position items)).toOption =
      (entriesOfItems spec schema position entries items).toOption := by
  induction items generalizing position entries with
  | nil => rfl
  | cons item rest ih =>
    rw [numbered, toOption_entriesOfMembers_cons, toOption_entriesOfItems_cons, Label.ofText?_text]
    simp only [ih]

/-- Entries under different labels are imported in any order. -/
theorem toOption_entriesOfMembers_perm (spec : FieldSpec Schema) (schema : Schema)
    {members others : List (String × Json)} (hperm : members.Perm others)
    (hlabels : members.Pairwise fun a b => ∀ label, Label.ofText? a.1 = some label →
      Label.ofText? b.1 ≠ some label) (entries : List (UInt32 × Options)) :
    (entriesOfMembers spec schema entries members).toOption =
      (entriesOfMembers spec schema entries others).toOption := by
  induction hperm generalizing entries with
  | nil => rfl
  | cons member _ ih =>
    simp only [toOption_entriesOfMembers_cons, ih (List.pairwise_cons.mp hlabels).2]
  | swap a b rest =>
    have hne := (List.pairwise_cons.mp hlabels).1 a List.mem_cons_self
    simp only [toOption_entriesOfMembers_cons]
    cases hb : Label.ofText? b.1 with
    | none => cases Label.ofText? a.1 <;> simp
    | some first =>
      cases ha : Label.ofText? a.1 with
      | none => simp
      | some second =>
        have hlabel : first ≠ second := fun heq => hne first hb (heq ▸ ha)
        cases (ofJson schema a.2).toOption with
        | none => simp
        | some node =>
          simp only [Option.bind_some, Keyed.insert_comm hlabel]
  | trans hfirst _ ih ih' =>
    refine (ih hlabels entries).trans (ih' ?_ entries)
    exact (hfirst.pairwise_iff fun hab label hb ha => hab label ha hb).mp hlabels

/-- A collection as an object with its positions as keys is imported as the array. -/
theorem toOption_entriesOfMembers_ofList_numbered (spec : FieldSpec Schema) (schema : Schema)
    (items : List Json) :
    (entriesOfMembers spec schema [] (Keyed.ofList (numbered 0 items))).toOption =
      (entriesOfItems spec schema 0 [] items).toOption := by
  have hkeys := nodup_keys_numbered 0 items
  have hlabels : (numbered 0 items).Pairwise fun a b => ∀ label,
      Label.ofText? a.1 = some label → Label.ofText? b.1 ≠ some label := by
    refine List.Pairwise.imp_of_mem (fun ha hb hne label hfirst hsecond => hne ?_)
      (List.pairwise_map.mp hkeys)
    obtain ⟨m, _, hm⟩ := exists_text_of_mem_numbered (List.mem_map_of_mem ha)
    obtain ⟨n, _, hn⟩ := exists_text_of_mem_numbered (List.mem_map_of_mem hb)
    rw [hm] at hfirst ⊢
    rw [hn] at hsecond ⊢
    rw [Label.eq_of_ofText?_text hfirst hsecond]
  rw [← toOption_entriesOfMembers_perm spec schema (Keyed.perm_ofList hkeys).symm hlabels,
    toOption_entriesOfMembers_numbered]

/-- Entries are put in labelled form one by one. -/
theorem labelledEntries_eq_map (schema : Schema) (members : List (String × Json)) :
    labelledEntries schema members =
      members.map fun member => (member.1, labelledNode schema member.2) := by
  induction members with
  | nil => rw [labelledEntries, List.map_nil]
  | cons member rest ih => rw [labelledEntries, ih, List.map_cons]

/-- Items are put in labelled form one by one. -/
theorem labelledItems_eq_map (schema : Schema) (items : List Json) :
    labelledItems schema items = items.map (labelledNode schema) := by
  induction items with
  | nil => rw [labelledItems, List.map_nil]
  | cons item rest ih => rw [labelledItems, ih, List.map_cons]

/-- The positions of items do not depend on what they are. -/
theorem numbered_map (f : Json → Json) (position : Nat) (items : List Json) :
    numbered position (items.map f) =
      (numbered position items).map fun member => (member.1, f member.2) := by
  induction items generalizing position with
  | nil => rfl
  | cons item rest ih => rw [List.map_cons, numbered, numbered, ih, List.map_cons]

/-- An array and the object that has its positions as keys have one labelled form. -/
theorem labelledValue_numbered {spec : FieldSpec Schema} {schema : Schema}
    (hkind : spec.kind = .indexed schema) (items : List Json) :
    labelledValue spec (.object (Keyed.ofList (numbered 0 items))) =
      labelledValue spec (.array items) := by
  obtain ⟨name, kind, default⟩ := spec
  obtain rfl : kind = .indexed schema := hkind
  simp only [labelledValue, labelledEntries_eq_map, labelledItems_eq_map, numbered_map,
    Keyed.ofList_map]

/-- Text stays text in labelled form, and nothing else becomes text. -/
theorem labelledValue_eq_text {spec : FieldSpec Schema} {json : Json} {text : String} :
    labelledValue spec json = .text text ↔ json = .text text := by
  obtain ⟨name, kind, default⟩ := spec
  cases kind <;> cases json <;> simp [labelledValue]

/-- Null stays null in labelled form, and nothing else becomes null. -/
theorem labelledValue_eq_null {spec : FieldSpec Schema} {json : Json} :
    labelledValue spec json = .null ↔ json = .null := by
  obtain ⟨name, kind, default⟩ := spec
  cases kind <;> cases json <;> simp [labelledValue]

/-- Members are put in labelled form one by one, by what the schema says of their keys. -/
theorem labelledMembers_eq_map (schema : Schema) (members : List (String × Json)) :
    labelledMembers schema members = members.map fun member =>
      (member.1, match schema.field? member.1 with
        | some spec => labelledValue spec member.2
        | none => member.2) := by
  induction members with
  | nil => rw [labelledMembers, List.map_nil]
  | cons member rest ih => rw [labelledMembers, ih, List.map_cons]

/-- Text stays text in the labelled form of a node, and nothing else becomes text. -/
theorem labelledNode_eq_text {schema : Schema} {json : Json} {text : String} :
    labelledNode schema json = .text text ↔ json = .text text := by
  cases json <;> simp [labelledNode]

/-- An object is marked as code by the only member it has. -/
theorem markedCode?_object_eq_some {members : List (String × Json)} {code : String} :
    (Json.object members).markedCode? = some code ↔ members = [(Json.codeKey, .text code)] := by
  rw [Json.markedCode?_eq_some, Json.object.injEq]

/-- A change of the values of members that neither makes nor changes text leaves the mark. -/
theorem markedCode?_map (f : String → Json → Json)
    (hf : ∀ key json text, f key json = .text text ↔ json = .text text)
    (members : List (String × Json)) :
    (Json.object (members.map fun member => (member.1, f member.1 member.2))).markedCode? =
      (Json.object members).markedCode? := by
  refine Option.ext fun code => ?_
  rw [markedCode?_object_eq_some, markedCode?_object_eq_some]
  rcases members with _ | ⟨member, _ | ⟨next, rest⟩⟩
  · simp
  · simp [Prod.ext_iff, hf]
  · simp

/-- The mark of an object is that of its labelled form. -/
theorem markedCode?_labelledMembers (schema : Schema) (members : List (String × Json)) :
    (Json.object (labelledMembers schema members)).markedCode? =
      (Json.object members).markedCode? := by
  rw [labelledMembers_eq_map]
  refine markedCode?_map (fun key member => match schema.field? key with
    | some spec => labelledValue spec member
    | none => member) (fun key json text => ?_) members
  cases schema.field? key with
  | none => rfl
  | some spec => exact labelledValue_eq_text

/-- An object whose keys are positions is not marked. -/
theorem markedCode?_ofList_numbered (items : List Json) :
    (Json.object (Keyed.ofList (numbered 0 items))).markedCode? = none := by
  refine Option.eq_none_iff_forall_ne_some.mpr fun code h => ?_
  have hmem : (Json.codeKey, Json.text code) ∈ numbered 0 items :=
    Keyed.mem_ofList (markedCode?_object_eq_some.mp h ▸ List.mem_cons_self)
  obtain ⟨n, _, hkey⟩ := exists_text_of_mem_numbered (List.mem_map_of_mem hmem)
  have hdollar : '$' ∈ (Label.text n).toList := hkey ▸ (by decide : '$' ∈ Json.codeKey.toList)
  exact absurd (Label.isDigit_of_mem_text hdollar) (by decide)

/-- The mark of a value is that of its labelled form. -/
theorem markedCode?_labelledValue (spec : FieldSpec Schema) (json : Json) :
    (labelledValue spec json).markedCode? = json.markedCode? := by
  obtain ⟨name, kind, default⟩ := spec
  rw [labelledValue.eq_def]
  simp only
  split
  · exact markedCode?_labelledMembers _ _
  · exact markedCode?_labelledMembers _ _
  · rw [labelledEntries_eq_map]
    exact markedCode?_map (fun _ => labelledNode _) (fun _ _ _ => labelledNode_eq_text) _
  · exact markedCode?_ofList_numbered _
  · rfl
  · rfl

/-- The mark of an item is that of its labelled form. -/
theorem markedCode?_labelledNode (schema : Schema) (json : Json) :
    (labelledNode schema json).markedCode? = json.markedCode? := by
  cases json with
  | object members =>
    rw [labelledNode]
    exact markedCode?_labelledMembers schema members
  | _ => simp [labelledNode]

/-- Importing members looks a field up, reads a value unless the member is null, stores it and goes
on. -/
theorem toOption_ofMembers_cons (options : Options) (member : String × Json)
    (rest : List (String × Json)) :
    (ofMembers options (member :: rest)).toOption =
      (options.schema.field? member.1).bind fun spec =>
        if member.2 = .null then (ofMembers options rest).toOption
        else (valueOfJson spec member.2).toOption.bind fun value =>
          (options.set spec.name value).toOption.bind fun changed =>
            (ofMembers changed rest).toOption := by
  obtain ⟨key, json⟩ := member
  rw [ofMembers, toOption_bind, Options.spec]
  cases options.schema.field? key with
  | none => rfl
  | some spec =>
    by_cases hnull : json = .null
    · subst hnull
      rfl
    · rw [Option.bind_some, if_neg hnull, ← toOption_bind]
      simp only [← toOption_bind]
      rfl

mutual

/-- A node is imported as its labelled form. -/
theorem toOption_ofJson_labelled (schema : Schema) :
    (json : Json) → (ofJson schema (labelledNode schema json)).toOption =
      (ofJson schema json).toOption
  | .object members => by
    rw [labelledNode, ofJson, ofJson]
    exact toOption_ofMembers_labelled members rfl
  | .null | .bool _ | .number _ | .text _ | .array _ => by simp only [labelledNode]
termination_by json => sizeOf json

/-- So are members. -/
theorem toOption_ofMembers_labelled {schema : Schema} :
    (members : List (String × Json)) → {options : Options} → options.schema = schema →
      (ofMembers options (labelledMembers schema members)).toOption =
        (ofMembers options members).toOption
  | [], options, _ => by rw [labelledMembers]
  | (key, member) :: rest, options, hschema => by
    rw [labelledMembers, toOption_ofMembers_cons, toOption_ofMembers_cons, hschema]
    cases schema.field? key with
    | none => rfl
    | some spec =>
      simp only [Option.bind_some, labelledValue_eq_null, toOption_valueOfJson_labelled spec member,
        toOption_ofMembers_labelled rest hschema]
      congr 2
      funext value
      cases hset : options.set spec.name value with
      | error e => rfl
      | ok changed =>
        obtain ⟨_, _, _, rfl⟩ := set_eq_ok.mp hset
        exact toOption_ofMembers_labelled rest hschema
termination_by members => sizeOf members

/-- So is the value of a field. -/
theorem toOption_valueOfJson_labelled (spec : FieldSpec Schema) :
    (json : Json) → (valueOfJson spec (labelledValue spec json)).toOption =
      (valueOfJson spec json).toOption
  | .object members => by
    rw [valueOfJson.eq_def, markedCode?_labelledValue, valueOfJson.eq_def spec (.object members)]
    cases (Json.object members).markedCode? with
    | some code => rfl
    | none =>
      obtain ⟨name, kind, default⟩ := spec
      cases kind with
      | object schema =>
        simp only [labelledValue, toOption_map]
        rw [toOption_ofMembers_labelled members (show (empty schema).schema = schema from rfl)]
      | scalarOrObject kind schema =>
        simp only [labelledValue, toOption_map]
        rw [toOption_ofMembers_labelled members (show (empty schema).schema = schema from rfl)]
      | indexed schema =>
        simp only [labelledValue, toOption_map, toOption_entriesOfMembers_labelled _ _ members]
      | _ => simp only [labelledValue]
  | .array items => by
    rw [valueOfJson.eq_def, markedCode?_labelledValue, valueOfJson.eq_def spec (.array items)]
    obtain ⟨name, kind, default⟩ := spec
    cases kind with
    | indexed schema =>
      simp only [Json.markedCode?, labelledValue, toOption_map,
        toOption_entriesOfMembers_ofList_numbered, toOption_entriesOfItems_labelled _ _ items]
    | objectList schema =>
      simp only [Json.markedCode?, labelledValue, toOption_map,
        toOption_objectsOfItems_labelled _ items]
    | _ => simp only [labelledValue]
  | .null | .bool _ | .number _ | .text _ => by
    obtain ⟨name, kind, default⟩ := spec
    cases kind <;> simp only [labelledValue]
termination_by json => sizeOf json

/-- So are entries under labels. -/
theorem toOption_entriesOfMembers_labelled (spec : FieldSpec Schema) (schema : Schema) :
    (members : List (String × Json)) → (entries : List (UInt32 × Options)) →
      (entriesOfMembers spec schema entries (labelledEntries schema members)).toOption =
        (entriesOfMembers spec schema entries members).toOption
  | [], _ => by rw [labelledEntries]
  | (key, entry) :: rest, entries => by
    simp only [labelledEntries, toOption_entriesOfMembers_cons, toOption_ofJson_labelled schema entry,
      toOption_entriesOfMembers_labelled spec schema rest]
termination_by members => sizeOf members

/-- So are entries under positions. -/
theorem toOption_entriesOfItems_labelled (spec : FieldSpec Schema) (schema : Schema) :
    (items : List Json) → (position : Nat) → (entries : List (UInt32 × Options)) →
      (entriesOfItems spec schema position entries (labelledItems schema items)).toOption =
        (entriesOfItems spec schema position entries items).toOption
  | [], _, _ => by rw [labelledItems]
  | item :: rest, position, entries => by
    simp only [labelledItems, toOption_entriesOfItems_cons, toOption_ofJson_labelled schema item,
      toOption_entriesOfItems_labelled spec schema rest]
termination_by items => sizeOf items

/-- So are the objects of a list. -/
theorem toOption_objectsOfItems_labelled (schema : Schema) :
    (items : List Json) → (objectsOfItems schema (labelledItems schema items)).toOption =
      (objectsOfItems schema items).toOption
  | [] => by rw [labelledItems]
  | item :: rest => by
    rw [labelledItems, objectsOfItems, objectsOfItems, markedCode?_labelledNode]
    cases item.markedCode? with
    | some code => simp only [toOption_bind, toOption_objectsOfItems_labelled schema rest]
    | none =>
      simp only [toOption_bind, toOption_map, toOption_ofJson_labelled schema item,
        toOption_objectsOfItems_labelled schema rest]
termination_by items => sizeOf items

end

end Options

end ChartScript
