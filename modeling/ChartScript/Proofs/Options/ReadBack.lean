import ChartScript.Proofs.Options.Building
import ChartScript.Proofs.Schema.Plain
import ChartScript.Proofs.Script.ReadBack

/-!
# Reading option trees back

The text of a well-typed tree without code is read back as the content of the tree, to the whole
millisecond, so trees with different contents have different texts. What the names of the fields
have to be for this is what a name of a chart has to be, and the fields of the catalog are named so.
-/

namespace ChartScript

/-- Neither a schema nor one of its bases declares a field twice in its own list, and the fields of
all of them are named by identifiers. -/
def Schema.Spellable (s : Schema) : Prop :=
  s.Unrepeated ∧
    ∀ t ∈ s.lineage, ∀ spec ∈ t.own, ∃ identifier, Identifier.ofText spec.name = .ok identifier

/-- Whether a schema is spellable is seen from the own lists of the schema and its bases. -/
theorem Schema.spellable_of_own {s : Schema}
    (h : ∀ t ∈ s.lineage, (t.own.map (·.name)).Nodup ∧
      ∀ spec ∈ t.own, Text.isIdentifier spec.name.toList = true) : s.Spellable :=
  ⟨fun t ht => (h t ht).1, fun t ht spec hspec =>
    (Identifier.ofText_isOk_iff spec.name).mpr ((h t ht).2 spec hspec)⟩

/-- The resolved fields of a spellable schema are named by identifiers. -/
theorem Schema.Spellable.isIdentifier {s : Schema} (h : s.Spellable) {spec : FieldSpec Schema}
    (hspec : spec ∈ s.fields) : Text.isIdentifier spec.name.toList = true := by
  obtain ⟨t, ht, hmem⟩ := Schema.exists_mem_own_of_field? (Schema.field?_of_mem_fields h.1 hspec)
  exact (Identifier.ofText_isOk_iff spec.name).mp (h.2 t ht spec hmem)

/-- A plain schema is spellable. -/
theorem Schema.Plain.spellable {s : Schema} (h : s.Plain) : s.Spellable :=
  spellable_of_own fun _ ht =>
    ⟨(h.of_mem_lineage ht).1, fun spec hspec => ((h.of_mem_lineage ht).2 spec hspec).1⟩

/-- The schemas of the catalog are spellable. -/
theorem Catalog.spellable_of_mem {s : Schema} (h : s ∈ Catalog.all) : s.Spellable :=
  (Catalog.plain_of_mem h).spellable

/-- A value is not code, and neither is an item of a list. -/
def OptionValue.CodeFree : OptionValue → Prop
  | .code _ => False
  | .list items => ∀ source, .code source ∉ items
  | _ => True

/-- No value that is assigned in a tree is code. -/
def Options.CodeFree (options : Options) : Prop :=
  options.All fun node => ∀ entry ∈ node.entries, entry.2.CodeFree

namespace OptionValue

/-- The content of a single value that is not code is readable. -/
theorem readable_content_of_fitsScalar {kind : ScalarKind} {value : OptionValue}
    (h : value.fitsScalar kind = true) : value.content.Readable := by
  cases value with
  | flag value => exact .bool value
  | text value => exact .text value
  | moment value => exact .moment value
  | number value =>
    cases value with
    | finite negative m => exact .number negative m
    | _ => cases kind <;> cases h
  | _ => cases h

/-- The content of a value that fits and is not code is readable, if the contents of the nodes below
are. -/
theorem readable_content {kind : FieldKind Schema} {value : OptionValue}
    (hfits : value.fits kind = true) (hcode : value.CodeFree)
    (hnodes : ∀ node ∈ value.nodes, node.content.Readable) : value.content.Readable := by
  cases value with
  | flag value => exact .bool value
  | text value => exact .text value
  | moment value => exact .moment value
  | code source => exact hcode.elim
  | number value =>
    cases kind with
    | scalar kind => exact readable_content_of_fitsScalar hfits
    | scalarOrObject kind declared => exact readable_content_of_fitsScalar hfits
    | _ => cases hfits
  | object node => exact hnodes node List.mem_cons_self
  | indexed entries =>
    rw [content, Options.entryContents_eq_map]
    refine .object ?_ ?_ <;> intro member hmember <;>
      obtain ⟨entry, hentry, rfl⟩ := List.mem_map.mp hmember
    · trivial
    · exact hnodes entry.2 (List.mem_map_of_mem hentry)
  | list items =>
    rw [content, itemContents_eq_map]
    refine .array fun literal hliteral => ?_
    obtain ⟨item, hitem, rfl⟩ := List.mem_map.mp hliteral
    cases kind with
    | objectList declared =>
      rcases fits_objectList.mp hfits item hitem with ⟨node, rfl, _⟩ | ⟨source, rfl⟩
      · exact hnodes node (mem_nodes_list.mpr ⟨_, hitem, List.mem_cons_self⟩)
      · exact absurd hitem (hcode source)
    | scalarList kind =>
      have hfits := List.all_eq_true.mp hfits item hitem
      cases item with
      | code source => exact absurd hitem (hcode source)
      | _ => exact readable_content_of_fitsScalar hfits
    | _ => cases hfits

end OptionValue

/-- A default is readable, since a number without a literal is written as `null`. -/
theorem FieldDefault.readable_literal (value : FieldDefault) : value.literal.Readable := by
  cases value with
  | flag value => exact .bool value
  | text value => exact .text value
  | number value =>
    cases value with
    | finite negative m => exact .number negative m
    | _ => exact .null

namespace Options

variable {options : Options}

/-- A node without assignments holds no code. -/
theorem codeFree_empty (schema : Schema) : (empty schema).CodeFree :=
  .intro (fun _ hentry => absurd hentry List.not_mem_nil)
    fun _ hchild => absurd hchild List.not_mem_nil

/-- Storing a value without code brings no code into a tree. -/
theorem CodeFree.store (h : options.CodeFree) (field : String) {value : OptionValue}
    (hvalue : value.CodeFree) (hnodes : ∀ node ∈ value.nodes, node.CodeFree) :
    (options.store field value).CodeFree := by
  refine .intro (fun entry hentry => ?_) fun child hchild => ?_
  · rcases Keyed.mem_insert hentry with rfl | hold
    · exact hvalue
    · exact h.here entry hold
  · rcases mem_children_store hchild with hnew | hold
    · exact hnodes child hnew
    · exact h.of_mem hold

/-- What a node has to say for a field: the content of the assigned value unless that is vacant, and
the default where nothing is assigned. -/
def said (options : Options) (spec : FieldSpec Schema) : Option (Key × Literal) :=
  match options.get? spec.name with
  | some value => if value.isVacant then none else some (.field spec.name, value.content)
  | none => spec.default.map fun value => (.field spec.name, value.literal)

/-- The content of a node is what it has to say for its fields, in the order of its schema. -/
theorem content_eq_object (options : Options) :
    options.content = .object (options.schema.fields.filterMap options.said) := by
  obtain ⟨schema, entries⟩ := options
  rw [content]
  congr 2
  funext spec
  rw [saying, find?_fieldContents, said, get?]
  cases Keyed.find? spec.name entries <;> rfl

/-- What is said for a field is said under its name: the content of its value, or its default. -/
theorem said_eq_some {spec : FieldSpec Schema} {member : Key × Literal}
    (h : options.said spec = some member) :
    member.1 = .field spec.name ∧
      ((∃ value, options.get? spec.name = some value ∧ member.2 = value.content) ∨
        ∃ value : FieldDefault, member.2 = value.literal) := by
  unfold said at h
  split at h
  · rename_i value hget
    split at h
    · cases h
    · cases h
      exact ⟨rfl, .inl ⟨value, hget, rfl⟩⟩
  · obtain ⟨value, _, rfl⟩ := Option.map_eq_some_iff.mp h
    exact ⟨rfl, .inr ⟨value, rfl⟩⟩

/-- The keys of what is said keep the order of the fields. -/
theorem keys_said_sublist (options : Options) (specs : List (FieldSpec Schema)) :
    ((specs.filterMap options.said).map (·.1)).Sublist
      (specs.map fun spec => Key.field spec.name) := by
  induction specs with
  | nil => exact .slnil
  | cons spec rest ih =>
    cases hsaid : options.said spec with
    | none =>
      rw [List.filterMap_cons_none hsaid]
      exact ih.cons _
    | some member =>
      rw [List.filterMap_cons_some hsaid, List.map_cons, (said_eq_some hsaid).1]
      exact ih.cons_cons _

/-- No key is said twice. -/
theorem nodup_keys_said (options : Options) :
    ((options.schema.fields.filterMap options.said).map (·.1)).Nodup := by
  refine (options.keys_said_sublist _).nodup ?_
  have hnames := List.Pairwise.map (S := fun a b : Key => a ≠ b) Key.field
    (fun _ _ hne heq => hne (Key.field.inj heq)) (Schema.nodup_names_fields options.schema)
  rw [List.map_map] at hnames
  exact hnames

/-- The content of a fitting node without code is readable, if the contents of the nodes directly
below are. -/
theorem Fitting.readable_content (h : options.Fitting) (hschema : options.schema.Spellable)
    (hcode : ∀ entry ∈ options.entries, entry.2.CodeFree)
    (hchildren : ∀ child ∈ options.children, child.content.Readable) :
    options.content.Readable := by
  rw [content_eq_object]
  refine .object (fun member hmember => ?_) fun member hmember => ?_ <;>
    obtain ⟨spec, hspec, hsaid⟩ := List.mem_filterMap.mp hmember <;>
    obtain ⟨hkey, hvalue⟩ := said_eq_some hsaid
  · rw [hkey]
    exact hschema.isIdentifier hspec
  · rcases hvalue with ⟨value, hget, hliteral⟩ | ⟨value, hliteral⟩ <;> rw [hliteral]
    · have hfield := Schema.field?_of_mem_fields hschema.1 hspec
      exact OptionValue.readable_content (h.get? hget hfield)
        (hcode _ (Keyed.mem_of_find?_eq_some hget))
        fun node hnode => hchildren node (mem_children_of_get? hget hnode)
    · exact value.readable_literal

/-- The content of a well-typed tree without code is readable. -/
theorem WellTypedOver.readable_content (h : options.WellTypedOver Schema.Spellable)
    (hcode : options.CodeFree) : options.content.Readable := by
  induction h with
  | intro here _ ih =>
    exact here.2.2.readable_content here.1 hcode.here fun child hchild =>
      ih child hchild (hcode.of_mem hchild)

/-- A well-typed tree without code has a text, which is read back as its content. -/
theorem WellTypedOver.exists_text (h : options.WellTypedOver Schema.Spellable)
    (hcode : options.CodeFree) :
    ∃ text, options.render = .ok text ∧ Literal.read? text = some options.content.rounded :=
  ⟨_, (h.mono fun _ hschema => hschema.1).render_eq_ok, (h.readable_content hcode).read?_spell⟩

/-- The content of a node as its schema and its keys lay it out: a member for each field that has
something to say, in the order of the schema and none twice, collections by ascending labels, lists
in their order. -/
structure LaidOut (node : Options) : Prop where
  members : node.content = .object (node.schema.fields.filterMap node.said)
  keys : ((node.schema.fields.filterMap node.said).map (·.1)).Nodup
  collections : ∀ field entries, node.get? field = some (.indexed entries) →
    (OptionValue.indexed entries).content =
        .object (entries.map fun entry => (.label entry.1, entry.2.content)) ∧
      Keyed.Ascending entries
  lists : ∀ field items, node.get? field = some (.list items) →
    (OptionValue.list items).content = .array (items.map OptionValue.content)

/-- The content of a node whose labels are in order is laid out. -/
theorem Ordered.laidOut (h : options.Ordered) : options.LaidOut where
  members := options.content_eq_object
  keys := options.nodup_keys_said
  collections _ entries hget :=
    ⟨congrArg Literal.object (entryContents_eq_map entries),
      h.2 _ (Keyed.mem_of_find?_eq_some hget)⟩
  lists _ items _ := congrArg Literal.array (OptionValue.itemContents_eq_map items)

/-- What is read back from the text of a well-typed tree without code, over schemas that name their
fields by identifiers and repeat none of them in a list of their own, as those of the catalog do, is
the content of the tree to the whole millisecond, and that content is laid out at every node. Two
such trees whose contents differ beyond fractions of milliseconds have different texts. -/
theorem render_read_back :
    (∀ schema ∈ Catalog.all, schema.Spellable) ∧
      (∀ options : Options, options.WellTypedOver Schema.Spellable → options.CodeFree →
        (∃ text, options.render = .ok text ∧
          Literal.read? text = some options.content.rounded) ∧ options.All LaidOut) ∧
      ∀ a b : Options, a.WellTypedOver Schema.Spellable → a.CodeFree →
        b.WellTypedOver Schema.Spellable → b.CodeFree →
          a.content.rounded ≠ b.content.rounded → a.render ≠ b.render := by
  refine ⟨fun schema hschema => Catalog.spellable_of_mem hschema, fun options h hcode => ?_,
    fun a b ha hacode hb hbcode => ?_⟩
  · exact ⟨h.exists_text hcode, h.imp fun _ hnode => hnode.2.1.laidOut⟩
  · obtain ⟨text, hatext, haread⟩ := ha.exists_text hacode
    obtain ⟨text', hbtext, hbread⟩ := hb.exists_text hbcode
    intro hne heq
    rw [hatext, hbtext, Except.ok.injEq] at heq
    rw [heq, hbread] at haread
    exact hne (Option.some.inj haread).symm

/-- A schema with defaults, one of which is not a finite number. -/
def sampleSchema : Schema :=
  ⟨.custom 0, "Sample", some Catalog.lineChart,
    [⟨"ratio", .scalar .number, some (.number .nan)⟩, ⟨"note", .scalar .text, some (.text "</")⟩]⟩

/-- The schema of the sample is spellable. -/
theorem spellable_sampleSchema : sampleSchema.Spellable :=
  Schema.spellable_of_own (by decide +kernel)

/-- A series of two points in width. -/
def sampleSeries : Options :=
  (Options.empty Catalog.series).store "lineWidth" (.number (.ofInt 2))

/-- A tree with text that looks like the end of an object, a labelled node, a vacant node and two
fields that are left to their defaults. -/
def sampleTree (title : String) : Options :=
  (((Options.empty sampleSchema).store "title" (.text title)).store "colors"
    (.list [.text "red", .text "\"\x7d,"])).store "series"
      (.indexed [(1, .empty Catalog.series), (4, sampleSeries)])

/-- The sample is well-typed. -/
theorem wellTypedOver_sampleTree (title : String) :
    (sampleTree title).WellTypedOver Schema.Spellable := by
  have hseries : (Options.empty Catalog.series).WellTypedOver Schema.Spellable :=
    .empty (Catalog.spellable_of_mem (by simp [Catalog.all]))
  have hwidth : sampleSeries.WellTypedOver Schema.Spellable :=
    hseries.store rfl (by decide +kernel) (.of_nodes_nil trivial rfl)
  refine WellTypedOver.store (WellTypedOver.store (WellTypedOver.store
    (.empty spellable_sampleSchema) rfl rfl ?_) rfl rfl ?_) rfl rfl ?_
  · exact .of_nodes_nil trivial rfl
  · exact .of_nodes_nil trivial rfl
  · refine ⟨List.pairwise_pair.mpr rfl, fun node hnode => ?_⟩
    rcases List.mem_cons.mp hnode with rfl | hnode
    · exact hseries
    · obtain rfl := List.mem_singleton.mp hnode
      exact hwidth

/-- No value of the sample is code. -/
theorem codeFree_sampleTree (title : String) : (sampleTree title).CodeFree := by
  have htext : (OptionValue.text title).CodeFree := trivial
  have hlist : (OptionValue.list [.text "red", .text "\"\x7d,"]).CodeFree := by
    simp [OptionValue.CodeFree]
  have hnone : ∀ node ∈ ([] : List Options), node.CodeFree :=
    fun _ hnode => absurd hnode List.not_mem_nil
  have hwidth : sampleSeries.CodeFree :=
    (codeFree_empty Catalog.series).store "lineWidth" trivial hnone
  have hroot := ((codeFree_empty sampleSchema).store "title" htext hnone).store "colors" hlist hnone
  refine hroot.store "series" trivial fun node hnode => ?_
  rcases List.mem_cons.mp hnode with rfl | hnode
  · exact codeFree_empty _
  · obtain rfl := List.mem_singleton.mp hnode
    exact hwidth

/-- The sample is read back, and another title gives another text. -/
theorem render_read_back_sampleTree :
    (∃ text, (sampleTree "</script>").render = .ok text ∧
      Literal.read? text = some (sampleTree "</script>").content.rounded) ∧
      (sampleTree "</script>").render ≠ (sampleTree "<\\/script>").render ∧
        (sampleTree "</script>").render.toOption =
          some ("\x7bcolors:[\"red\",\"\\\"\x7d,\"],title:\"<\\/script>\"," ++
            "series:\x7b1:\x7b\x7d,4:\x7blineWidth:2\x7d\x7d,ratio:null,note:\"<\\/\"\x7d") := by
  obtain ⟨_, hread, hdiffer⟩ := render_read_back
  refine ⟨(hread _ (wellTypedOver_sampleTree _) (codeFree_sampleTree _)).1, ?_, by decide +kernel⟩
  refine hdiffer _ _ (wellTypedOver_sampleTree _) (codeFree_sampleTree _)
    (wellTypedOver_sampleTree _) (codeFree_sampleTree _) fun heq => ?_
  have hspell : (sampleTree "</script>").content.rounded.spell ≠
      (sampleTree "<\\/script>").content.rounded.spell := by
    decide +kernel
  exact hspell (congrArg Literal.spell heq)

end Options

end ChartScript
