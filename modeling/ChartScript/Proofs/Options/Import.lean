import ChartScript.Options.Import
import ChartScript.Proofs.Options.Typing
import ChartScript.Proofs.Outcome

/-!
# What importing keeps

Members and entries are imported one by one, and what one of them takes is said once. An import
makes trees and values in a few ways only, and `ImportInvariant` lists them: what holds of all that
they make holds of the imported tree. That is proved once, along the functions of `Options.Import`.

One such invariant is being well-typed. Members are stored through checked assignments, so the tree
is well-typed as long as the values are: a nested object because it is imported the same way, a
labelled collection because its entries are inserted in order.
-/

namespace ChartScript

namespace Json

/-- The code that JSON is marked as is the text of its only member. -/
theorem markedCode?_eq_some {json : Json} {code : String} :
    json.markedCode? = some code ↔ json = .object [(codeKey, .text code)] := by
  constructor
  · unfold markedCode?
    split
    · split <;> simp_all
    · simp
  · rintro rfl
    simp [markedCode?]

end Json

namespace OptionValue

variable {P : Schema → Prop}

/-- A value without nodes and labels asks for nothing. -/
theorem Given.of_nodes_nil {value : OptionValue} (hordered : value.Ordered)
    (hnodes : value.nodes = []) : value.Given P := by
  refine ⟨hordered, fun node hnode => ?_⟩
  rw [hnodes] at hnode
  exact absurd hnode List.not_mem_nil

/-- An object is given with its tree. -/
theorem Given.object {node : Options} (h : node.WellTypedOver P) : (object node).Given P := by
  refine ⟨trivial, fun child hchild => ?_⟩
  obtain rfl := List.mem_singleton.mp hchild
  exact h

/-- No entries are given for free. -/
theorem Given.indexed_nil : (indexed []).Given P :=
  .of_nodes_nil Keyed.ascending_nil rfl

/-- One more entry is given with its tree. -/
theorem Given.indexed_insert {entries : List (UInt32 × Options)} (h : (indexed entries).Given P)
    (label : UInt32) {node : Options} (hnode : node.WellTypedOver P) :
    (indexed (Keyed.insert label node entries)).Given P := by
  refine ⟨Keyed.ascending_insert label node h.1, fun child hchild => ?_⟩
  obtain ⟨entry, hentry, rfl⟩ := List.mem_map.mp hchild
  rcases Keyed.mem_insert hentry with rfl | hold
  · exact hnode
  · exact h.2 _ (List.mem_map_of_mem hold)

/-- A list is given with its items. -/
theorem Given.list {items : List OptionValue} (h : ∀ item ∈ items, item.Given P) :
    (list items).Given P := by
  refine ⟨trivial, fun node hnode => ?_⟩
  obtain ⟨item, hitem, hnode⟩ := mem_nodes_list.mp hnode
  exact (h item hitem).2 node hnode

end OptionValue

namespace Options

variable {P : Schema → Prop}

/-- A single value is a truth value, a number, a text or a moment. -/
theorem single_of_scalarOfJson {field : String} {kind : ScalarKind} {json : Json}
    {value : OptionValue} (h : scalarOfJson field kind json = .ok value) :
    (∃ b, value = .flag b) ∨ (∃ x, value = .number x) ∨ (∃ text, value = .text text) ∨
      ∃ m, value = .moment m := by
  have hmisshapen (expected : String) : misshapen field expected json ≠ .ok value := by
    simp [misshapen]
  unfold scalarOfJson at h
  split at h
  · exact .inl ⟨_, (Except.ok.inj h).symm⟩
  · exact .inr (.inl ⟨_, (Except.ok.inj h).symm⟩)
  · split at h
    · split at h
      · exact .inr (.inr (.inr ⟨_, (Except.ok.inj h).symm⟩))
      · exact absurd h (hmisshapen _)
    · split at h
      · exact .inr (.inr (.inr ⟨_, (Except.ok.inj h).symm⟩))
      · exact absurd h (hmisshapen _)
    · exact .inr (.inr (.inl ⟨_, (Except.ok.inj h).symm⟩))
  · exact absurd h (hmisshapen _)

/-- A single value has no nodes below it. -/
theorem given_of_scalarOfJson {field : String} {kind : ScalarKind} {json : Json}
    {value : OptionValue} (h : scalarOfJson field kind json = .ok value) : value.Given P := by
  rcases single_of_scalarOfJson h with ⟨_, rfl⟩ | ⟨_, rfl⟩ | ⟨_, rfl⟩ | ⟨_, rfl⟩ <;>
    exact .of_nodes_nil trivial rfl

/-- Members are imported one by one: the key is a field, and the value is null, or it is imported as
one that fits and is stored before the others are imported. -/
theorem ofMembers_cons_eq_ok {options changed : Options} {key : String} {json : Json}
    {rest : List (String × Json)} :
    ofMembers options ((key, json) :: rest) = .ok changed ↔
      ∃ spec, options.schema.field? key = some spec ∧
        (json = .null ∧ ofMembers options rest = .ok changed ∨ json ≠ .null ∧
          ∃ value, valueOfJson spec json = .ok value ∧ value.fits spec.kind = true ∧
            ofMembers (options.store key value) rest = .ok changed) := by
  have hnotNull (hnull : json ≠ .null) : ofMembers options ((key, json) :: rest) = (do
      let spec ← options.spec key
      let value ← valueOfJson spec json
      let stored ← options.set spec.name value
      ofMembers stored rest) := by
    cases json with
    | null => exact absurd rfl hnull
    | _ => rw [ofMembers]
  by_cases hnull : json = .null
  · subst hnull
    rw [ofMembers, bind_eq_ok]
    simp [spec_eq_ok]
  · rw [hnotNull hnull, bind_eq_ok]
    refine exists_congr fun spec => ?_
    rw [spec_eq_ok]
    refine and_congr_right fun hspec => ?_
    have hname := Schema.name_of_field? hspec
    simp only [hnull, false_and, false_or, ne_eq, not_false_eq_true, true_and, bind_eq_ok,
      set_eq_ok, hname, hspec, Option.some.injEq]
    refine exists_congr fun value => and_congr_right fun _ => ?_
    constructor
    · rintro ⟨_, ⟨_, rfl, hfits, rfl⟩, h⟩
      exact ⟨hfits, h⟩
    · rintro ⟨hfits, h⟩
      exact ⟨_, ⟨spec, rfl, hfits, rfl⟩, h⟩

/-- Entries are imported one by one: the key is a label, and the value is a tree that is inserted
before the others are imported. -/
theorem entriesOfMembers_cons_eq_ok {spec : FieldSpec Schema} {schema : Schema}
    {before entries : List (UInt32 × Options)} {key : String} {json : Json}
    {rest : List (String × Json)} :
    entriesOfMembers spec schema before ((key, json) :: rest) = .ok entries ↔
      ∃ label node, Label.ofText? key = some label ∧ ofJson schema json = .ok node ∧
        entriesOfMembers spec schema (Keyed.insert label node before) rest = .ok entries := by
  rw [entriesOfMembers]
  cases Label.ofText? key with
  | none => simp
  | some label => simp [bind_eq_ok]

/-- So are the items of an array, whose labels are their positions. -/
theorem entriesOfItems_cons_eq_ok {spec : FieldSpec Schema} {schema : Schema} {position : Nat}
    {before entries : List (UInt32 × Options)} {item : Json} {rest : List Json} :
    entriesOfItems spec schema position before (item :: rest) = .ok entries ↔
      ∃ label node, Label.ofPosition? position = some label ∧ ofJson schema item = .ok node ∧
        entriesOfItems spec schema (position + 1) (Keyed.insert label node before) rest =
          .ok entries := by
  rw [entriesOfItems]
  cases Label.ofPosition? position with
  | none => simp
  | some label => simp [bind_eq_ok]

/-- A property of trees and a property of values that importing keeps, from JSON of a class that
passes to what is inside, over a class of schemas that passes to nested ones. Each of the later
fields is a way in which the import makes a tree or a value. -/
structure ImportInvariant (P : Schema → Prop) (J : Json → Prop) (tree : Options → Prop)
    (value : OptionValue → Prop) : Prop where
  hereditary : Schema.Hereditary P
  items : ∀ {items : List Json}, J (.array items) → ∀ item ∈ items, J item
  members : ∀ {members : List (String × Json)}, J (.object members) →
    ∀ member ∈ members, J member.2
  schema : ∀ {options : Options}, tree options → P options.schema
  empty : ∀ {schema : Schema}, P schema → tree (.empty schema)
  set : ∀ {options changed : Options} {field : String} {v : OptionValue}, tree options → value v →
    options.set field v = .ok changed → tree changed
  marked : ∀ {json : Json} {source : String}, J json → json.markedCode? = some source →
    value (.code source)
  coded : ∀ {schema : Schema} {name : String} {spec : FieldSpec Schema} (source : String),
    P schema → schema.field? name = some spec → spec.kind = .code → value (.code source)
  scalar : ∀ {field : String} {kind : ScalarKind} {json : Json} {v : OptionValue},
    scalarOfJson field kind json = .ok v → value v
  object : ∀ {node : Options}, tree node → value (.object node)
  noEntries : value (.indexed [])
  entry : ∀ {entries : List (UInt32 × Options)} {node : Options} (label : UInt32),
    value (.indexed entries) → tree node → value (.indexed (Keyed.insert label node entries))
  list : ∀ {items : List OptionValue}, (∀ item ∈ items, value item) → value (.list items)

namespace ImportInvariant

variable {J : Json → Prop} {tree : Options → Prop} {value : OptionValue → Prop}

/-- A single value that may be marked as code has the property. -/
theorem markedScalarOfJson (inv : ImportInvariant P J tree value) {field : String}
    {kind : ScalarKind} {json : Json} (hjson : J json) {v : OptionValue}
    (h : Options.markedScalarOfJson field kind json = .ok v) : value v := by
  unfold Options.markedScalarOfJson at h
  split at h
  · rename_i hmarked
    cases h
    exact inv.marked hjson hmarked
  · exact inv.scalar h

mutual

/-- A tree from JSON has the property. -/
theorem ofJson (inv : ImportInvariant P J tree value) {schema : Schema} (hschema : P schema) :
    (json : Json) → J json → {options : Options} → Options.ofJson schema json = .ok options →
      tree options
  | .object members, hjson, options, h => by
    rw [Options.ofJson] at h
    exact inv.ofMembers (inv.empty hschema) members (inv.members hjson) h
  | .null, _, _, h | .bool _, _, _, h | .number _, _, _, h | .text _, _, _, h
  | .array _, _, _, h => by
    simp [Options.ofJson, misshapen] at h
termination_by json => sizeOf json

/-- Members keep the property of a tree. -/
theorem ofMembers (inv : ImportInvariant P J tree value) {options : Options}
    (hoptions : tree options) :
    (members : List (String × Json)) → (∀ member ∈ members, J member.2) → {changed : Options} →
      Options.ofMembers options members = .ok changed → tree changed
  | [], _, changed, h => by
    cases h
    exact hoptions
  | (key, member) :: rest, hmembers, changed, h => by
    obtain ⟨hmember, hrest⟩ := List.forall_mem_cons.mp hmembers
    rw [Options.ofMembers] at h
    obtain ⟨spec, hspec, h⟩ := bind_eq_ok.mp h
    split at h
    · exact inv.ofMembers hoptions rest hrest h
    · obtain ⟨v, hvalue, h⟩ := bind_eq_ok.mp h
      obtain ⟨stored, hset, h⟩ := bind_eq_ok.mp h
      have hv := inv.valueOfJson (inv.schema hoptions) (spec_eq_ok.mp hspec) member hmember hvalue
      exact inv.ofMembers (inv.set hoptions hv hset) rest hrest h
termination_by members => sizeOf members

/-- The value of a field from JSON has the property. -/
theorem valueOfJson (inv : ImportInvariant P J tree value) {owner : Schema} (howner : P owner)
    {name : String} {spec : FieldSpec Schema} (hspec : owner.field? name = some spec) :
    (json : Json) → J json → {v : OptionValue} → Options.valueOfJson spec json = .ok v → value v
  | json, hjson, v, h => by
    have hnested {declared : Schema} (h : spec.kind.nested? = some declared) : P declared :=
      inv.hereditary _ _ howner _ _ hspec h
    rw [valueOfJson.eq_def] at h
    split at h
    · rename_i hmarked
      cases h
      exact inv.marked hjson hmarked
    · split at h
      · rename_i schema members hkind _
        obtain ⟨node, hnode, rfl⟩ := map_eq_ok.mp h
        have hschema : P schema := hnested (by rw [hkind]; rfl)
        exact inv.object (inv.ofMembers (inv.empty hschema) members (inv.members hjson) hnode)
      · rename_i schema members hkind _
        obtain ⟨node, hnode, rfl⟩ := map_eq_ok.mp h
        have hschema : P schema := hnested (by rw [hkind]; rfl)
        exact inv.object (inv.ofMembers (inv.empty hschema) members (inv.members hjson) hnode)
      · exact inv.scalar h
      · exact inv.scalar h
      · rename_i schema members hkind _
        obtain ⟨entries, hentries, rfl⟩ := map_eq_ok.mp h
        have hschema : P schema := hnested (by rw [hkind]; rfl)
        exact inv.entriesOfMembers hschema inv.noEntries members (inv.members hjson) hentries
      · rename_i schema items hkind _
        obtain ⟨entries, hentries, rfl⟩ := map_eq_ok.mp h
        have hschema : P schema := hnested (by rw [hkind]; rfl)
        exact inv.entriesOfItems hschema inv.noEntries items (inv.items hjson) hentries
      · rename_i schema items hkind _
        obtain ⟨objects, hobjects, rfl⟩ := map_eq_ok.mp h
        have hschema : P schema := hnested (by rw [hkind]; rfl)
        exact inv.list (inv.objectsOfItems hschema items (inv.items hjson) hobjects)
      · obtain ⟨values, hvalues, rfl⟩ := map_eq_ok.mp h
        refine inv.list fun item hitem => ?_
        obtain ⟨source, hsource, hread⟩ := exists_mem_of_mapM_eq_ok hvalues hitem
        exact inv.markedScalarOfJson (inv.items hjson source hsource) hread
      · rename_i source hkind _
        cases h
        exact inv.coded source howner hspec hkind
      · simp [misshapen] at h
termination_by json => sizeOf json

/-- Entries under labels have the property. -/
theorem entriesOfMembers (inv : ImportInvariant P J tree value) {spec : FieldSpec Schema}
    {schema : Schema} (hschema : P schema) {entries : List (UInt32 × Options)}
    (hentries : value (.indexed entries)) :
    (members : List (String × Json)) → (∀ member ∈ members, J member.2) →
      {result : List (UInt32 × Options)} →
        Options.entriesOfMembers spec schema entries members = .ok result →
          value (.indexed result)
  | [], _, result, h => by
    cases h
    exact hentries
  | (key, member) :: rest, hmembers, result, h => by
    obtain ⟨hmember, hrest⟩ := List.forall_mem_cons.mp hmembers
    obtain ⟨label, entry, _, hentry, h⟩ := entriesOfMembers_cons_eq_ok.mp h
    have hnode := inv.ofJson hschema member hmember hentry
    exact inv.entriesOfMembers hschema (inv.entry label hentries hnode) rest hrest h
termination_by members => sizeOf members

/-- Entries under positions have the property. -/
theorem entriesOfItems (inv : ImportInvariant P J tree value) {spec : FieldSpec Schema}
    {schema : Schema} (hschema : P schema) {position : Nat} {entries : List (UInt32 × Options)}
    (hentries : value (.indexed entries)) :
    (items : List Json) → (∀ item ∈ items, J item) → {result : List (UInt32 × Options)} →
      Options.entriesOfItems spec schema position entries items = .ok result →
        value (.indexed result)
  | [], _, result, h => by
    cases h
    exact hentries
  | item :: rest, hitems, result, h => by
    obtain ⟨hitem, hrest⟩ := List.forall_mem_cons.mp hitems
    obtain ⟨label, entry, _, hentry, h⟩ := entriesOfItems_cons_eq_ok.mp h
    have hnode := inv.ofJson hschema item hitem hentry
    exact inv.entriesOfItems hschema (inv.entry label hentries hnode) rest hrest h
termination_by items => sizeOf items

/-- The objects of a list have the property. -/
theorem objectsOfItems (inv : ImportInvariant P J tree value) {schema : Schema}
    (hschema : P schema) :
    (items : List Json) → (∀ item ∈ items, J item) → {result : List OptionValue} →
      Options.objectsOfItems schema items = .ok result → ∀ item ∈ result, value item
  | [], _, result, h => by
    cases h
    exact fun _ hitem => absurd hitem List.not_mem_nil
  | item :: rest, hitems, result, h => by
    obtain ⟨hitem, hrest⟩ := List.forall_mem_cons.mp hitems
    rw [Options.objectsOfItems] at h
    split at h
    · rename_i source hmarked
      obtain ⟨first, hfirst, h⟩ := bind_eq_ok.mp h
      obtain ⟨others, hothers, h⟩ := bind_eq_ok.mp h
      cases hfirst
      cases h
      exact List.forall_mem_cons.mpr ⟨inv.marked hitem hmarked,
        inv.objectsOfItems hschema rest hrest hothers⟩
    · obtain ⟨first, hfirst, h⟩ := bind_eq_ok.mp h
      obtain ⟨others, hothers, h⟩ := bind_eq_ok.mp h
      obtain ⟨node, hnode, rfl⟩ := map_eq_ok.mp hfirst
      cases h
      exact List.forall_mem_cons.mpr ⟨inv.object (inv.ofJson hschema item hitem hnode),
        inv.objectsOfItems hschema rest hrest hothers⟩
termination_by items => sizeOf items

end

end ImportInvariant

/-- Members leave the schema of a tree as it is. -/
theorem schema_of_ofMembers {options changed : Options} {members : List (String × Json)}
    (h : ofMembers options members = .ok changed) : changed.schema = options.schema := by
  induction members generalizing options with
  | nil =>
    cases h
    rfl
  | cons member rest ih =>
    obtain ⟨_, _, ⟨_, h⟩ | ⟨_, _, _, _, h⟩⟩ := ofMembers_cons_eq_ok.mp h
    · exact ih h
    · exact (ih h).trans rfl

/-- A tree from JSON has the schema asked for. -/
theorem schema_of_ofJson {schema : Schema} {json : Json} {options : Options}
    (h : ofJson schema json = .ok options) : options.schema = schema := by
  cases json with
  | object members => exact schema_of_ofMembers (by rwa [ofJson] at h)
  | _ => simp [ofJson, misshapen] at h

/-- Being well-typed is kept by importing. -/
theorem importInvariant_wellTypedOver (hP : Schema.Hereditary P) :
    ImportInvariant P (fun _ => True) (WellTypedOver P) (OptionValue.Given P) where
  hereditary := hP
  items _ _ _ := trivial
  members _ _ _ := trivial
  schema h := h.schema
  empty hschema := .empty hschema
  set h hvalue hset := (h.set hvalue hset).1
  marked _ _ := .of_nodes_nil trivial rfl
  coded _ _ _ _ := .of_nodes_nil trivial rfl
  scalar h := given_of_scalarOfJson h
  object h := .object h
  noEntries := .indexed_nil
  entry label h hnode := h.indexed_insert label hnode
  list h := .list h

/-- A tree from JSON is well-typed and has the schema asked for. -/
theorem wellTyped_of_ofJson (hP : Schema.Hereditary P) {schema : Schema} (hschema : P schema)
    (json : Json) {options : Options} (h : ofJson schema json = .ok options) :
    options.WellTypedOver P ∧ options.schema = schema :=
  ⟨(importInvariant_wellTypedOver hP).ofJson hschema json trivial h, schema_of_ofJson h⟩

end Options

end ChartScript
