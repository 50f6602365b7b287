import ChartScript.Options.Import
import ChartScript.Proofs.Json.Content
import ChartScript.Proofs.Options.Import
import ChartScript.Proofs.Options.Leaves
import ChartScript.Proofs.Schema.Plain
import ChartScript.Proofs.Text.Identifier

/-!
# The leaves of a JSON object

An import descends into nested objects and into the entries of labelled collections. Whatever else
it meets is a leaf: a single value, code, a list of single values or a list of objects, converted as
a whole. The tree that is imported is the one that writing the leaves leads to, each at its address.
For a nested object and for an entry there has to be something to write, or writing leaves would not
bring it into the tree.
-/

namespace ChartScript

/-- No field of a schema that is mentioned has a dot in its name. -/
def Schema.DotFree : Schema → Prop :=
  Throughout fun own => ∀ spec ∈ own, '.' ∉ spec.name.toList

/-- A field that a schema declares has no dot in its name. -/
theorem Schema.DotFree.name {s : Schema} (h : s.DotFree) {name : String} {spec : FieldSpec Schema}
    (hspec : s.field? name = some spec) : '.' ∉ spec.name.toList := by
  obtain ⟨t, ht, hmem⟩ := exists_mem_own_of_field? hspec
  exact h.of_mem_lineage ht spec hmem

/-- The fields of a plain schema are named by identifiers, in which no dot stands. -/
theorem Schema.Plain.dotFree {s : Schema} (h : s.Plain) : s.DotFree := by
  intro t ht spec hspec hdot
  obtain ⟨_, _, _, _, _, htail⟩ :=
    Text.identifierTail_of_isIdentifier ((h t ht).2 spec hspec).1
  exact absurd (htail '.' hdot) (by decide)

namespace Json

/-- No object repeats a key. -/
inductive Distinct : Json → Prop
  | null : Distinct .null
  | bool (value : Bool) : Distinct (.bool value)
  | number (value : JsonNumber) : Distinct (.number value)
  | text (value : String) : Distinct (.text value)
  | array {items : List Json} (h : ∀ item ∈ items, Distinct item) : Distinct (.array items)
  | object {members : List (String × Json)} (hkeys : (members.map (·.1)).Nodup)
    (h : ∀ member ∈ members, Distinct member.2) : Distinct (.object members)

/-- What the library keeps of JSON repeats no key. -/
theorem distinct_canonical : (json : Json) → json.canonical.Distinct
  | .null => .null
  | .bool value => .bool value
  | .number value => .number value
  | .text value => .text value
  | .array items => by
    rw [canonical, canonicalItems_eq_map]
    refine .array fun item hitem => ?_
    obtain ⟨found, hfound, rfl⟩ := List.mem_map.mp hitem
    exact distinct_canonical found
  | .object members => by
    rw [canonical, canonicalMembers_eq_map]
    refine .object (Keyed.nodup_keys_of_ascending (Keyed.ascending_ofList _))
      fun member hmember => ?_
    obtain ⟨⟨key, value⟩, hfound, rfl⟩ := List.mem_map.mp (Keyed.mem_ofList hmember)
    exact distinct_canonical value
termination_by json => sizeOf json
decreasing_by
  · exact sizeOf_item_lt hfound
  · exact sizeOf_member_lt hfound

end Json

namespace Options

mutual

/-- The leaves below a node of a schema. -/
def nodeLeaves (schema : Schema) : Json → List Leaf
  | .object members => memberLeaves schema members
  | _ => []

/-- The leaves of members that are imported into a node of a schema. -/
def memberLeaves (schema : Schema) : List (String × Json) → List Leaf
  | [] => []
  | (key, member) :: rest =>
    (match schema.field? key with
      | some spec => valueLeaves spec member
      | none => []) ++ memberLeaves schema rest

/-- The leaves of what is imported into a field: those of a nested object or of the entries of a
collection, else the value itself. -/
def valueLeaves (spec : FieldSpec Schema) (json : Json) : List Leaf :=
  match json.markedCode? with
  | some code => [⟨⟨[], spec.name⟩, .code code⟩]
  | none =>
    match spec.kind, json with
    | .object schema, .object members =>
      (memberLeaves schema members).map (.under (.object spec.name))
    | .scalarOrObject _ schema, .object members =>
      (memberLeaves schema members).map (.under (.object spec.name))
    | .indexed schema, .object members => entryLeaves spec.name schema members
    | .indexed schema, .array items => itemLeaves spec.name schema 0 items
    | _, json =>
      match valueOfJson spec json with
      | .ok value => [⟨⟨[], spec.name⟩, value⟩]
      | .error _ => []

/-- The leaves of a collection whose labels are keys. -/
def entryLeaves (field : String) (schema : Schema) : List (String × Json) → List Leaf
  | [] => []
  | (key, entry) :: rest =>
    (match Label.ofText? key with
      | some label => (nodeLeaves schema entry).map (.under (.entry field label))
      | none => []) ++ entryLeaves field schema rest

/-- The leaves of a collection whose labels are positions. -/
def itemLeaves (field : String) (schema : Schema) (position : Nat) : List Json → List Leaf
  | [] => []
  | item :: rest =>
    (match Label.ofPosition? position with
      | some label => (nodeLeaves schema item).map (.under (.entry field label))
      | none => []) ++ itemLeaves field schema (position + 1) rest

end

/-- Some member is not null. -/
def HasMember (members : List (String × Json)) : Prop :=
  ∃ member ∈ members, member.2 ≠ .null

/-- A first member that is not null is one. -/
theorem HasMember.head {key : String} {member : Json} (h : member ≠ .null)
    (rest : List (String × Json)) : HasMember ((key, member) :: rest) :=
  ⟨_, List.mem_cons_self, h⟩

mutual

/-- An entry of a collection holds a member that is not null, and so does what is below it. -/
def NodePopulated (schema : Schema) : Json → Prop
  | .object members => HasMember members ∧ MembersPopulated schema members
  | _ => True

/-- The values of members are populated. -/
def MembersPopulated (schema : Schema) : List (String × Json) → Prop
  | [] => True
  | (key, member) :: rest =>
    (match schema.field? key with
      | some spec => ValuePopulated spec member
      | none => True) ∧ MembersPopulated schema rest

/-- Nested objects have a member that is not null, collections have an entry, and labels are spelled
in decimal, at every depth to which an import descends. -/
def ValuePopulated (spec : FieldSpec Schema) (json : Json) : Prop :=
  match json.markedCode? with
  | some _ => True
  | none =>
    match spec.kind, json with
    | .object schema, .object members => HasMember members ∧ MembersPopulated schema members
    | .scalarOrObject _ schema, .object members =>
      HasMember members ∧ MembersPopulated schema members
    | .indexed schema, .object members => members ≠ [] ∧ EntriesPopulated schema members
    | .indexed schema, .array items => items ≠ [] ∧ ItemsPopulated schema items
    | _, _ => True

/-- The entries under labels are populated. -/
def EntriesPopulated (schema : Schema) : List (String × Json) → Prop
  | [] => True
  | (key, entry) :: rest =>
    (∃ n, key = Label.text n) ∧ NodePopulated schema entry ∧ EntriesPopulated schema rest

/-- The entries under positions are populated. -/
def ItemsPopulated (schema : Schema) : List Json → Prop
  | [] => True
  | item :: rest => NodePopulated schema item ∧ ItemsPopulated schema rest

end

/-- How a value is imported into a field, together with its leaves and with what it means that the
value is populated. -/
inductive ImportForm (spec : FieldSpec Schema) : Json → OptionValue → Prop
  /-- The value is a leaf. -/
  | leaf {json : Json} {value : OptionValue}
    (hleaves : valueLeaves spec json = [⟨⟨[], spec.name⟩, value⟩]) : ImportForm spec json value
  /-- The value is a nested object. -/
  | object {members : List (String × Json)} {schema : Schema} {node : Options}
    (hopens : (Step.object spec.name).opens? spec.kind = some schema)
    (hnode : ofMembers (empty schema) members = .ok node)
    (hleaves : valueLeaves spec (.object members) =
      (memberLeaves schema members).map (.under (.object spec.name)))
    (hpopulated : ValuePopulated spec (.object members) →
      HasMember members ∧ MembersPopulated schema members) :
    ImportForm spec (.object members) (.object node)
  /-- The value is a collection with keys as labels. -/
  | entries {members : List (String × Json)} {schema : Schema}
    {entries : List (UInt32 × Options)} (hkind : spec.kind = .indexed schema)
    (hentries : entriesOfMembers spec schema [] members = .ok entries)
    (hleaves : valueLeaves spec (.object members) = entryLeaves spec.name schema members)
    (hpopulated : ValuePopulated spec (.object members) →
      members ≠ [] ∧ EntriesPopulated schema members) :
    ImportForm spec (.object members) (.indexed entries)
  /-- The value is a collection with positions as labels. -/
  | items {items : List Json} {schema : Schema} {entries : List (UInt32 × Options)}
    (hkind : spec.kind = .indexed schema)
    (hentries : entriesOfItems spec schema 0 [] items = .ok entries)
    (hleaves : valueLeaves spec (.array items) = itemLeaves spec.name schema 0 items)
    (hpopulated : ValuePopulated spec (.array items) →
      items ≠ [] ∧ ItemsPopulated schema items) :
    ImportForm spec (.array items) (.indexed entries)

/-- What is imported has one of the forms. -/
theorem importForm_of_valueOfJson {spec : FieldSpec Schema} {json : Json} {value : OptionValue}
    (h : valueOfJson spec json = .ok value) : ImportForm spec json value := by
  have hleaves := valueLeaves.eq_def spec json
  have hpopulated := ValuePopulated.eq_def spec json
  have hvalue := h
  rw [valueOfJson.eq_def] at hvalue
  cases hmarked : json.markedCode? with
  | some code =>
    rw [hmarked] at hleaves hvalue
    cases hvalue
    exact .leaf hleaves
  | none =>
    rw [hmarked] at hleaves hpopulated hvalue
    obtain ⟨name, kind, default⟩ := spec
    have hobject {schema : Schema} {members : List (String × Json)}
        (hjson : json = .object members)
        (hopens : (Step.object name).opens? kind = some schema)
        (hmap : (ofMembers (empty schema) members).map .object = .ok value)
        (hbelow : valueLeaves ⟨name, kind, default⟩ json =
          (memberLeaves schema members).map (.under (.object name)))
        (hmembers : ValuePopulated ⟨name, kind, default⟩ json =
          (HasMember members ∧ MembersPopulated schema members)) :
        ImportForm ⟨name, kind, default⟩ json value := by
      subst hjson
      obtain ⟨node, hnode, rfl⟩ := map_eq_ok.mp hmap
      exact .object hopens hnode hbelow hmembers.mp
    cases kind with
    | object schema =>
      cases json with
      | object members => exact hobject rfl rfl hvalue hleaves hpopulated
      | _ => cases hvalue
    | scalarOrObject scalar schema =>
      cases json with
      | object members => exact hobject rfl rfl hvalue hleaves hpopulated
      | _ => exact .leaf (by simpa only [h] using hleaves)
    | indexed schema =>
      cases json with
      | object members =>
        obtain ⟨entries, hentries, rfl⟩ := map_eq_ok.mp hvalue
        exact .entries rfl hentries hleaves hpopulated.mp
      | array items =>
        obtain ⟨entries, hentries, rfl⟩ := map_eq_ok.mp hvalue
        exact .items rfl hentries hleaves hpopulated.mp
      | _ => cases hvalue
    | _ => exact .leaf (by simpa only [h] using hleaves)

/-- A null member has no leaves. -/
theorem valueLeaves_null (spec : FieldSpec Schema) : valueLeaves spec .null = [] := by
  obtain ⟨name, kind, default⟩ := spec
  rw [valueLeaves.eq_def]
  cases kind <;> simp [Json.markedCode?, valueOfJson, scalarOfJson, misshapen]

/-- The leaves of a collection whose labels are keys start with its field. -/
theorem head_of_mem_entryLeaves {field : String} {schema : Schema}
    {members : List (String × Json)} {leaf : Leaf} (h : leaf ∈ entryLeaves field schema members) :
    leaf.address.head = field := by
  induction members with
  | nil => exact absurd h (by rw [entryLeaves]; exact List.not_mem_nil)
  | cons member rest ih =>
    rw [entryLeaves] at h
    rcases List.mem_append.mp h with hfirst | hrest
    · cases hlabel : Label.ofText? member.1 with
      | none => simp [hlabel] at hfirst
      | some label =>
        rw [hlabel] at hfirst
        obtain ⟨_, _, rfl⟩ := List.mem_map.mp hfirst
        rfl
    · exact ih hrest

/-- So do those of a collection whose labels are positions. -/
theorem head_of_mem_itemLeaves {field : String} {schema : Schema} {position : Nat}
    {items : List Json} {leaf : Leaf} (h : leaf ∈ itemLeaves field schema position items) :
    leaf.address.head = field := by
  induction items generalizing position with
  | nil => exact absurd h (by rw [itemLeaves]; exact List.not_mem_nil)
  | cons item rest ih =>
    rw [itemLeaves] at h
    rcases List.mem_append.mp h with hfirst | hrest
    · cases hlabel : Label.ofPosition? position with
      | none => simp [hlabel] at hfirst
      | some label =>
        rw [hlabel] at hfirst
        obtain ⟨_, _, rfl⟩ := List.mem_map.mp hfirst
        rfl
    · exact ih hrest

/-- The leaves of a field start with its name. -/
theorem head_of_mem_valueLeaves {spec : FieldSpec Schema} {json : Json} {leaf : Leaf}
    (h : leaf ∈ valueLeaves spec json) : leaf.address.head = spec.name := by
  have hobject {members : List (String × Json)} {schema : Schema}
      (h : leaf ∈ (memberLeaves schema members).map (.under (.object spec.name))) :
      leaf.address.head = spec.name := by
    obtain ⟨_, _, rfl⟩ := List.mem_map.mp h
    rfl
  rw [valueLeaves.eq_def] at h
  split at h
  · obtain rfl := List.mem_singleton.mp h
    rfl
  · split at h
    · exact hobject h
    · exact hobject h
    · exact head_of_mem_entryLeaves h
    · exact head_of_mem_itemLeaves h
    · split at h
      · obtain rfl := List.mem_singleton.mp h
        rfl
      · exact absurd h List.not_mem_nil

/-- The leaves of members start with their keys. -/
theorem head_mem_of_mem_memberLeaves {schema : Schema} {members : List (String × Json)} {leaf : Leaf}
    (h : leaf ∈ memberLeaves schema members) : leaf.address.head ∈ members.map (·.1) := by
  induction members with
  | nil => exact absurd h (by rw [memberLeaves]; exact List.not_mem_nil)
  | cons member rest ih =>
    rw [memberLeaves] at h
    rcases List.mem_append.mp h with hfirst | hrest
    · cases hspec : schema.field? member.1 with
      | none => simp [hspec] at hfirst
      | some spec =>
        rw [hspec] at hfirst
        rw [head_of_mem_valueLeaves hfirst, Schema.name_of_field? hspec]
        exact List.mem_cons_self
    · exact List.mem_cons_of_mem _ (ih hrest)

/-- The labels of populated entries are spelled in decimal. -/
theorem exists_text_of_entriesPopulated {schema : Schema} {members : List (String × Json)}
    (h : EntriesPopulated schema members) : ∀ member ∈ members, ∃ n, member.1 = Label.text n := by
  induction members with
  | nil => exact fun _ hmem => absurd hmem List.not_mem_nil
  | cons member rest ih =>
    rw [EntriesPopulated] at h
    exact List.forall_mem_cons.mpr ⟨h.1, ih h.2.2⟩

/-- Keys that are spelled in decimal and different are different labels. -/
theorem nodup_labels {schema : Schema} {members : List (String × Json)}
    (hkeys : (members.map (·.1)).Nodup) (hpopulated : EntriesPopulated schema members)
    {labels : List UInt32}
    (h : members.map (fun member => Label.ofText? member.1) = labels.map some) : labels.Nodup := by
  have hdifferent : (labels.map some).Nodup := by
    rw [← h]
    refine List.pairwise_map.mpr (List.Pairwise.imp_of_mem (fun {a b} ha hb hne hsame => hne ?_)
      (List.pairwise_map.mp hkeys))
    have hmem : Label.ofText? a.1 ∈ labels.map some := h ▸ List.mem_map_of_mem ha
    obtain ⟨label, _, hlabel⟩ := List.mem_map.mp hmem
    obtain ⟨m, hm⟩ := exists_text_of_entriesPopulated hpopulated a ha
    obtain ⟨n, hn⟩ := exists_text_of_entriesPopulated hpopulated b hb
    have hfirst : Label.ofText? (Label.text m) = some label := hm ▸ hlabel.symm
    have hsecond : Label.ofText? (Label.text n) = some label := hn ▸ hsame ▸ hlabel.symm
    rw [hm, hn, Label.eq_of_ofText?_text hfirst hsecond]
  exact (List.pairwise_map.mp hdifferent).imp fun hne heq => hne (congrArg some heq)

/-- Labels that are the positions in a row are different. -/
theorem nodup_labels_of_range' {labels : List UInt32} {position length : Nat}
    (h : labels.map UInt32.toNat = List.range' position length) : labels.Nodup := by
  have hdifferent : (labels.map UInt32.toNat).Nodup := h ▸ List.nodup_range'
  exact (List.pairwise_map.mp hdifferent).imp fun hne heq => hne (congrArg UInt32.toNat heq)

/-- A step leads to an empty node where nothing is assigned to its field. -/
theorem nodeAt_of_get?_eq_none {options : Options} {step : Step}
    (h : options.get? step.field = none) (declared : Schema) :
    options.nodeAt declared step = empty declared := by
  rw [nodeAt_eq, below?, h]
  rfl

/-- The labels of a field that a collection has just been stored in. -/
theorem entriesAt_store_self (options : Options) (field : String)
    (entries : List (UInt32 × Options)) :
    (options.store field (.indexed entries)).entriesAt field = entries := by
  rw [entriesAt, get?_store_self]

/-- An entry of a collection, with the leaves that fill it. -/
structure FilledEntry (schema : Schema) where
  label : UInt32
  leaves : List Leaf
  node : Options
  fills : (empty schema).Fills leaves node
  leaves_ne_nil : leaves ≠ []

namespace FilledEntry

variable {schema : Schema}

/-- The leaves of an entry, from where its collection stands. -/
def below (field : String) (entry : FilledEntry schema) : List Leaf :=
  entry.leaves.map (.under (.entry field entry.label))

/-- A collection with entries added to it, one after another. -/
def insertAll (entries : List (UInt32 × Options)) (added : List (FilledEntry schema)) :
    List (UInt32 × Options) :=
  added.foldl (fun all entry => Keyed.insert entry.label entry.node all) entries

/-- The first entry has leaves. -/
theorem flatMap_below_ne_nil (field : String) {added : List (FilledEntry schema)}
    (h : added ≠ []) : added.flatMap (below field) ≠ [] := by
  obtain ⟨entry, rest, rfl⟩ := List.exists_cons_of_ne_nil h
  exact List.append_ne_nil_of_left_ne_nil (mt List.map_eq_nil_iff.mp entry.leaves_ne_nil) _

variable {options : Options} {spec : FieldSpec Schema}

/-- An entry under a new label is filled with its leaves. -/
theorem fills_insert (entry : FilledEntry schema)
    (hspec : options.schema.field? spec.name = some spec) (hkind : spec.kind = .indexed schema)
    (hname : '.' ∉ spec.name.toList)
    (hfresh : Keyed.find? entry.label (options.entriesAt spec.name) = none) :
    options.Fills (entry.below spec.name)
      (options.store spec.name
        (.indexed (Keyed.insert entry.label entry.node (options.entriesAt spec.name)))) := by
  have hat : options.nodeAt schema (.entry spec.name entry.label) = empty schema := by
    rw [nodeAt, hfresh]
    rfl
  have hfills := entry.fills
  rw [← hat] at hfills
  exact hfills.under entry.leaves_ne_nil hspec (Step.opens?_entry.mpr hkind) hname

/-- Entries under different new labels are filled one after another. -/
theorem fills_insertAll {added : List (FilledEntry schema)} (hne : added ≠ [])
    (hlabels : (added.map (·.label)).Nodup)
    (hspec : options.schema.field? spec.name = some spec) (hkind : spec.kind = .indexed schema)
    (hname : '.' ∉ spec.name.toList)
    (hfresh : ∀ entry ∈ added, Keyed.find? entry.label (options.entriesAt spec.name) = none) :
    options.Fills (added.flatMap (below spec.name))
      (options.store spec.name (.indexed (insertAll (options.entriesAt spec.name) added))) := by
  induction added generalizing options with
  | nil => exact absurd rfl hne
  | cons entry rest ih =>
    obtain ⟨hlabel, hothers⟩ := List.nodup_cons.mp hlabels
    obtain ⟨hunused, hrestfresh⟩ := List.forall_mem_cons.mp hfresh
    have hfirst := entry.fills_insert hspec hkind hname hunused
    rw [List.flatMap_cons]
    -- the collection that the last entry is put in is stored once, not stored again
    by_cases hlast : rest = []
    · subst hlast
      rw [List.flatMap_nil, List.append_nil]
      exact hfirst
    · have hdifferent : ∀ other ∈ rest, other.label ≠ entry.label := fun other hother heq =>
        hlabel (List.mem_map.mpr ⟨other, hother, heq⟩)
      have hstored : (options.store spec.name (.indexed
          (Keyed.insert entry.label entry.node (options.entriesAt spec.name)))).schema.field?
            spec.name = some spec := hspec
      have hrest := ih hlast hothers hstored fun other hother => by
        rw [entriesAt_store_self, Keyed.find?_insert_of_ne (hdifferent other hother),
          hrestfresh other hother]
      rw [store_store_self, entriesAt_store_self] at hrest
      refine hfirst.append hrest fun a ha b hb => ?_
      obtain ⟨inner, _, rfl⟩ := List.mem_map.mp ha
      obtain ⟨other, hother, hb⟩ := List.mem_flatMap.mp hb
      obtain ⟨below, _, rfl⟩ := List.mem_map.mp hb
      exact Address.independent_under_of_ne
        (fun heq => hdifferent other hother (Step.entry.inj heq).2.symm) _ _

/-- A field without entries is filled with those of a collection, if it has any. -/
theorem fills_collection {added : List (FilledEntry schema)} (hne : added ≠ [])
    (hlabels : (added.map (·.label)).Nodup)
    (hspec : options.schema.field? spec.name = some spec) (hkind : spec.kind = .indexed schema)
    (hname : '.' ∉ spec.name.toList) (hnone : options.entriesAt spec.name = []) :
    options.Fills (added.flatMap (below spec.name))
        (options.store spec.name (.indexed (insertAll [] added))) ∧
      added.flatMap (below spec.name) ≠ [] := by
  have hfills := fills_insertAll hne hlabels hspec hkind hname fun entry _ => by
    rw [hnone]
    rfl
  rw [hnone] at hfills
  exact ⟨hfills, flatMap_below_ne_nil _ hne⟩

end FilledEntry

mutual

/-- An entry is what filling an empty node with its leaves leads to. -/
theorem fills_ofJson {schema : Schema} (hdots : schema.DotFree) :
    (json : Json) → json.Distinct → NodePopulated schema json → {node : Options} →
      ofJson schema json = .ok node →
        (empty schema).Fills (nodeLeaves schema json) node ∧ nodeLeaves schema json ≠ []
  | .object members, hdistinct, hpopulated, node, h => by
    cases hdistinct with
    | object hkeys hmembers =>
      rw [NodePopulated] at hpopulated
      rw [ofJson] at h
      rw [nodeLeaves]
      obtain ⟨hfills, hne⟩ := fills_ofMembers hdots members hkeys hmembers hpopulated.2 rfl
        (fun _ _ => rfl) h
      exact ⟨hfills, hne hpopulated.1⟩
  | .null, _, _, _, h | .bool _, _, _, _, h | .number _, _, _, _, h | .text _, _, _, _, h
  | .array _, _, _, _, h => by
    simp [ofJson, misshapen] at h
termination_by json => sizeOf json

/-- Members that a node does not have yet fill it with their leaves. -/
theorem fills_ofMembers {schema : Schema} (hdots : schema.DotFree) :
    (members : List (String × Json)) → (members.map (·.1)).Nodup →
      (∀ member ∈ members, member.2.Distinct) → MembersPopulated schema members →
      {options changed : Options} → options.schema = schema →
      (∀ member ∈ members, options.get? member.1 = none) →
      ofMembers options members = .ok changed →
        options.Fills (memberLeaves schema members) changed ∧
          (HasMember members → memberLeaves schema members ≠ [])
  | [], _, _, _, options, changed, _, _, h => by
    cases h
    rw [memberLeaves]
    exact ⟨.nil, fun ⟨_, hmem, _⟩ => absurd hmem List.not_mem_nil⟩
  | (key, member) :: rest, hkeys, hdistinct, hpopulated, options, changed, hschema, hget, h => by
    obtain ⟨hkey, hothers⟩ := List.nodup_cons.mp hkeys
    obtain ⟨hmember, hrest⟩ := List.forall_mem_cons.mp hdistinct
    obtain ⟨hnone, hunset⟩ := List.forall_mem_cons.mp hget
    obtain ⟨spec, hspec, himport⟩ := ofMembers_cons_eq_ok.mp h
    have hfield : schema.field? key = some spec := hschema ▸ hspec
    obtain rfl : spec.name = key := Schema.name_of_field? hfield
    rw [MembersPopulated, hfield] at hpopulated
    rw [memberLeaves, hfield]
    simp only
    rcases himport with ⟨rfl, hafter⟩ | ⟨_, value, hvalue, hfits, hafter⟩
    · -- a null member is passed over, and has no leaves
      obtain ⟨hfills, hne⟩ :=
        fills_ofMembers hdots rest hothers hrest hpopulated.2 hschema hunset hafter
      rw [valueLeaves_null, List.nil_append]
      refine ⟨hfills, fun ⟨found, hfound, hvalue⟩ => hne ⟨found, ?_, hvalue⟩⟩
      exact (List.mem_cons.mp hfound).resolve_left fun heq => hvalue (congrArg Prod.snd heq)
    · obtain ⟨hfirst, hne⟩ := fills_valueOfJson member hmember hpopulated.1 (hschema ▸ hdots) hspec
        hnone hfits hvalue
      have hunset' : ∀ found ∈ rest, (options.store spec.name value).get? found.1 = none := by
        intro found hfound
        have hne : found.1 ≠ spec.name := fun heq => hkey (List.mem_map.mpr ⟨found, hfound, heq⟩)
        rw [get?_store_of_ne hne, hunset found hfound]
      have hschema' : (options.store spec.name value).schema = schema := hschema
      obtain ⟨hfills, _⟩ :=
        fills_ofMembers hdots rest hothers hrest hpopulated.2 hschema' hunset' hafter
      refine ⟨hfirst.append hfills fun a ha b hb => ?_,
        fun _ => List.append_ne_nil_of_left_ne_nil hne _⟩
      refine Address.independent_of_head_ne fun heq => hkey ?_
      rw [← head_of_mem_valueLeaves ha, heq]
      exact head_mem_of_mem_memberLeaves hb
termination_by members => sizeOf members

/-- A value fills a field that has none with its leaves. -/
theorem fills_valueOfJson {spec : FieldSpec Schema} :
    (json : Json) → json.Distinct → ValuePopulated spec json → {options : Options} →
      {value : OptionValue} → options.schema.DotFree →
      options.schema.field? spec.name = some spec → options.get? spec.name = none →
      value.fits spec.kind = true → valueOfJson spec json = .ok value →
        options.Fills (valueLeaves spec json) (options.store spec.name value) ∧
          valueLeaves spec json ≠ []
  | json, hdistinct, hpopulated, options, value, hdots, hspec, hget, hfits, h => by
    have hname := hdots.name hspec
    have hnested {schema : Schema} (h : spec.kind.nested? = some schema) : schema.DotFree :=
      Schema.Throughout.nested hdots hspec h
    have hnone : options.entriesAt spec.name = [] := by
      rw [entriesAt, hget]
    cases importForm_of_valueOfJson h with
    | leaf hleaves =>
      rw [hleaves]
      refine ⟨⟨.cons (.here hspec hfits) .nil, List.pairwise_singleton _ _, ?_⟩, List.cons_ne_nil _ _⟩
      intro leaf hleaf
      obtain rfl := List.mem_singleton.mp hleaf
      simpa [Address.DotFree, Address.segments] using hname
    | @object members schema node hopens hnode hleaves hbelow =>
      obtain ⟨hsome, hbelow⟩ := hbelow hpopulated
      cases hdistinct with
      | object hkeys hmembers =>
        obtain ⟨hfills, hne⟩ := fills_ofMembers (hnested (Step.nested?_of_opens? hopens)) members
          hkeys hmembers hbelow rfl (fun _ _ => rfl) hnode
        have hat : options.nodeAt schema (.object spec.name) = empty schema :=
          nodeAt_of_get?_eq_none hget schema
        rw [← hat] at hfills
        rw [hleaves]
        exact ⟨hfills.under (hne hsome) hspec hopens hname, mt List.map_eq_nil_iff.mp (hne hsome)⟩
    | @entries members schema entries hkind hentries hleaves hbelow =>
      obtain ⟨hsome, hbelow⟩ := hbelow hpopulated
      cases hdistinct with
      | object hkeys hmembers =>
        obtain ⟨added, hlabels, hfilled, rfl⟩ := exists_filledEntries_of_members
          (hnested (by rw [hkind]; rfl)) spec.name members hmembers hbelow hentries
        have hadded : added ≠ [] := by
          rintro rfl
          exact hsome (List.map_eq_nil_iff.mp hlabels)
        rw [hleaves, hfilled]
        exact FilledEntry.fills_collection hadded (nodup_labels hkeys hbelow hlabels) hspec hkind
          hname hnone
    | @items items schema entries hkind hentries hleaves hbelow =>
      obtain ⟨hsome, hbelow⟩ := hbelow hpopulated
      cases hdistinct with
      | array hitems =>
        obtain ⟨added, hlabels, hfilled, rfl⟩ := exists_filledEntries_of_items
          (hnested (by rw [hkind]; rfl)) spec.name items hitems hbelow hentries
        have hadded : added ≠ [] := by
          rintro rfl
          exact hsome (List.length_eq_zero_iff.mp (List.range'_eq_nil_iff.mp hlabels.symm))
        rw [hleaves, hfilled]
        exact FilledEntry.fills_collection hadded (nodup_labels_of_range' hlabels) hspec hkind
          hname hnone
termination_by json => sizeOf json

/-- The entries under keys are filled with their leaves, and their labels are read from the keys. -/
theorem exists_filledEntries_of_members {spec : FieldSpec Schema} {schema : Schema}
    (hdots : schema.DotFree) (field : String) :
    (members : List (String × Json)) → (∀ member ∈ members, member.2.Distinct) →
      EntriesPopulated schema members → {before entries : List (UInt32 × Options)} →
      entriesOfMembers spec schema before members = .ok entries →
        ∃ added : List (FilledEntry schema),
          members.map (fun member => Label.ofText? member.1) = (added.map (·.label)).map some ∧
          entryLeaves field schema members = added.flatMap (·.below field) ∧
          entries = FilledEntry.insertAll before added
  | [], _, _, _, _, h => by
    cases h
    exact ⟨[], rfl, by rw [entryLeaves]; rfl, rfl⟩
  | (key, entry) :: rest, hdistinct, hpopulated, before, entries, h => by
    obtain ⟨hentry, hrest⟩ := List.forall_mem_cons.mp hdistinct
    rw [EntriesPopulated] at hpopulated
    obtain ⟨_, hnode, hbelow⟩ := hpopulated
    obtain ⟨label, node, hread, hjson, hafter⟩ := entriesOfMembers_cons_eq_ok.mp h
    obtain ⟨hfills, hne⟩ := fills_ofJson hdots entry hentry hnode hjson
    obtain ⟨added, hlabels, hleaves, rfl⟩ :=
      exists_filledEntries_of_members hdots field rest hrest hbelow hafter
    refine ⟨⟨label, _, node, hfills, hne⟩ :: added, ?_, ?_, rfl⟩
    · rw [List.map_cons, List.map_cons, List.map_cons, hlabels, hread]
    · rw [entryLeaves, hread, hleaves]
      rfl
termination_by members => sizeOf members

/-- So are the entries under positions, which are their labels. -/
theorem exists_filledEntries_of_items {spec : FieldSpec Schema} {schema : Schema}
    (hdots : schema.DotFree) (field : String) :
    (items : List Json) → (∀ item ∈ items, item.Distinct) → ItemsPopulated schema items →
      {position : Nat} → {before entries : List (UInt32 × Options)} →
      entriesOfItems spec schema position before items = .ok entries →
        ∃ added : List (FilledEntry schema),
          (added.map (·.label)).map UInt32.toNat = List.range' position items.length ∧
          itemLeaves field schema position items = added.flatMap (·.below field) ∧
          entries = FilledEntry.insertAll before added
  | [], _, _, _, _, _, h => by
    cases h
    exact ⟨[], rfl, by rw [itemLeaves]; rfl, rfl⟩
  | item :: rest, hdistinct, hpopulated, position, before, entries, h => by
    obtain ⟨hitem, hrest⟩ := List.forall_mem_cons.mp hdistinct
    rw [ItemsPopulated] at hpopulated
    obtain ⟨hnode, hbelow⟩ := hpopulated
    obtain ⟨label, node, hread, hjson, hafter⟩ := entriesOfItems_cons_eq_ok.mp h
    obtain ⟨hfills, hne⟩ := fills_ofJson hdots item hitem hnode hjson
    obtain ⟨added, hlabels, hleaves, rfl⟩ :=
      exists_filledEntries_of_items hdots field rest hrest hbelow hafter
    refine ⟨⟨label, _, node, hfills, hne⟩ :: added, ?_, ?_, rfl⟩
    · rw [List.map_cons, List.map_cons, hlabels, Label.toNat_of_ofPosition? hread]
      rfl
    · rw [itemLeaves, hread, hleaves]
      rfl
termination_by items => sizeOf items

end

end Options

end ChartScript
