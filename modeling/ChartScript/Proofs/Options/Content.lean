import ChartScript.Options.Writing
import ChartScript.Proofs.Options.Typing
import ChartScript.Proofs.Outcome
import ChartScript.Script.Assembly

/-!
# The content of an option tree

What a tree has to say, as a literal: for each field of the schema, in the order of the schema, what
is assigned to it unless that is vacant, and its default where nothing is assigned. The content is
there for every tree, well-typed or not, and whatever is written of a tree is its content; writing a
well-typed tree never fails.

Writing looks a field up in the resolved list of the schema, an assignment looks it up from the
extension towards the base. The two agree for the schemas that repeat no name in an own list, so the
check made when writing accepts what the check made when assigning did.
-/

namespace ChartScript

namespace Options

/-- What a field has to say, given the assigned values and their contents. -/
def saying (contents : List (String × OptionValue × Literal)) (spec : FieldSpec Schema) :
    Option (Key × Literal) :=
  match Keyed.find? spec.name contents with
  | some (value, content) => if value.isVacant then none else some (.field spec.name, content)
  | none => spec.default.map fun value => (.field spec.name, value.literal)

end Options

mutual

/-- The content of a value. -/
def OptionValue.content : OptionValue → Literal
  | .flag value => .bool value
  | .number value => .number value
  | .text value => .text value
  | .moment value => .moment value
  | .code source => .code source
  | .list items => .array (OptionValue.itemContents items)
  | .object options => options.content
  | .indexed entries => .object (Options.entryContents entries)

/-- The content of a tree: what its fields have to say. -/
def Options.content : Options → Literal
  | ⟨schema, entries⟩ =>
    .object (schema.fields.filterMap (Options.saying (Options.fieldContents entries)))

/-- The contents of the items of a list. -/
def OptionValue.itemContents : List OptionValue → List Literal
  | [] => []
  | item :: rest => item.content :: OptionValue.itemContents rest

/-- The contents of labelled nodes, under their labels. -/
def Options.entryContents : List (UInt32 × Options) → List (Key × Literal)
  | [] => []
  | (label, options) :: rest => (.label label, options.content) :: Options.entryContents rest

/-- Each assigned value together with its content. -/
def Options.fieldContents : List (String × OptionValue) → List (String × OptionValue × Literal)
  | [] => []
  | (field, value) :: rest => (field, value, value.content) :: Options.fieldContents rest

end

/-- The contents of items, one by one. -/
theorem OptionValue.itemContents_eq_map (items : List OptionValue) :
    OptionValue.itemContents items = items.map OptionValue.content := by
  induction items with
  | nil => rfl
  | cons item rest ih => rw [OptionValue.itemContents, ih, List.map_cons]

namespace Options

/-- The contents of labelled nodes, one by one. -/
theorem entryContents_eq_map (entries : List (UInt32 × Options)) :
    entryContents entries = entries.map fun entry => (.label entry.1, entry.2.content) := by
  induction entries with
  | nil => rfl
  | cons entry rest ih => rw [entryContents, ih, List.map_cons]

/-- Values and contents are found under the same names. -/
theorem find?_fieldContents (field : String) (entries : List (String × OptionValue)) :
    Keyed.find? field (fieldContents entries) =
      (Keyed.find? field entries).map fun value => (value, value.content) := by
  induction entries with
  | nil => rfl
  | cons entry rest ih =>
    simp only [fieldContents, Keyed.find?]
    split
    · rfl
    · exact ih

end Options

/-- Writing a single value gives its content. -/
theorem OptionValue.literal_eq_ok_of_fitsScalar {kind : ScalarKind} {value : OptionValue}
    (h : value.fitsScalar kind = true) (field : String) :
    value.literal field = .ok value.content := by
  cases value with
  | number value =>
    have hfinite : value.isFinite = true := by
      cases kind <;> simp_all [fitsScalar]
    simp [literal, content, Literal.ofNumber, hfinite]
  | _ => first | rfl | simp [fitsScalar] at h

/-- Writing items gives their contents, if it does for each. -/
theorem OptionValue.itemLiterals_eq_ok {field : String} {items : List OptionValue}
    (h : ∀ item ∈ items, item.literal field = .ok item.content) :
    OptionValue.itemLiterals field items = .ok (OptionValue.itemContents items) := by
  induction items with
  | nil => rfl
  | cons item rest ih =>
    obtain ⟨hitem, hrest⟩ := List.forall_mem_cons.mp h
    rw [OptionValue.itemLiterals, hitem, ih hrest]
    rfl

/-- Writing labelled nodes gives their contents, if it does for each. -/
theorem Options.entryLiterals_eq_ok {entries : List (UInt32 × Options)}
    (h : ∀ entry ∈ entries, entry.2.literal = .ok entry.2.content) :
    Options.entryLiterals entries = .ok (Options.entryContents entries) := by
  induction entries with
  | nil => rfl
  | cons entry rest ih =>
    obtain ⟨hentry, hrest⟩ := List.forall_mem_cons.mp h
    rw [Options.entryLiterals, hentry, ih hrest]
    rfl

/-- Writing a value that fits gives its content, if it does for the nodes below. -/
theorem OptionValue.literal_eq_ok {kind : FieldKind Schema} {value : OptionValue}
    (hfits : value.fits kind = true)
    (hnodes : ∀ node ∈ value.nodes, node.literal = .ok node.content) (field : String) :
    value.literal field = .ok value.content := by
  have hsingle {kind : ScalarKind} (h : value.fitsScalar kind = true) :=
    literal_eq_ok_of_fitsScalar h field
  cases value with
  | flag value => rfl
  | text value => rfl
  | moment value => rfl
  | code source => rfl
  | number value =>
    cases kind with
    | scalar kind => exact hsingle hfits
    | scalarOrObject kind declared => exact hsingle hfits
    | _ => simp [fits] at hfits
  | object node =>
    rw [literal, content]
    exact hnodes node List.mem_cons_self
  | indexed entries =>
    rw [literal, content, Options.entryLiterals_eq_ok fun entry hentry =>
      hnodes entry.2 (List.mem_map_of_mem hentry)]
    rfl
  | list items =>
    have hitems : ∀ item ∈ items, item.literal field = .ok item.content := by
      intro item hitem
      cases kind with
      | objectList declared =>
        rcases fits_objectList.mp hfits item hitem with ⟨node, rfl, _⟩ | ⟨source, rfl⟩
        · rw [literal, content]
          exact hnodes node (mem_nodes_list.mpr ⟨_, hitem, List.mem_cons_self⟩)
        · rfl
      | scalarList kind =>
        have hitem := List.all_eq_true.mp hfits item hitem
        cases item with
        | code source => rfl
        | _ => exact literal_eq_ok_of_fitsScalar hitem field
      | _ => simp [fits, fitsScalar] at hfits
    rw [literal, content, itemLiterals_eq_ok hitems]
    rfl

namespace Options

variable {options : Options}

/-- What a field has to say is what writing finds for it, if the value passes its check and its
literal is its content. -/
theorem member_eq_ok {entries : List (String × OptionValue)} {spec : FieldSpec Schema}
    (h : ∀ value, Keyed.find? spec.name entries = some value →
      value.fits spec.kind = true ∧ value.literal spec.name = .ok value.content) :
    member (fieldLiterals entries) spec = .ok (saying (fieldContents entries) spec) := by
  simp only [member, saying, find?_fieldLiterals, find?_fieldContents]
  cases hfind : Keyed.find? spec.name entries with
  | none => rfl
  | some value =>
    obtain ⟨hfits, hliteral⟩ := h value hfind
    simp only [Option.map_some, FieldSpec.check, hfits, hliteral, if_true]
    by_cases hvacant : value.isVacant = true <;>
      simp [hvacant, bind, Except.bind, pure, Except.pure]

/-- Writing a list of fields gives what they have to say, if it does for each. -/
theorem members_eq_ok {entries : List (String × OptionValue)} {specs : List (FieldSpec Schema)}
    (h : ∀ spec ∈ specs,
      member (fieldLiterals entries) spec = .ok (saying (fieldContents entries) spec)) :
    members (fieldLiterals entries) specs =
      .ok (specs.filterMap (saying (fieldContents entries))) := by
  induction specs with
  | nil => rfl
  | cons spec rest ih =>
    obtain ⟨hspec, hrest⟩ := List.forall_mem_cons.mp h
    rw [members, hspec, ih hrest]
    cases hsaying : saying (fieldContents entries) spec with
    | none =>
      rw [List.filterMap_cons_none hsaying]
      rfl
    | some said =>
      rw [List.filterMap_cons_some hsaying]
      rfl

/-- Writing a node gives its content, if it does for the nodes directly below. -/
theorem Fitting.literal_eq_ok (h : options.Fitting) (hschema : options.schema.Unrepeated)
    (hchildren : ∀ child ∈ options.children, child.literal = .ok child.content) :
    options.literal = .ok options.content := by
  obtain ⟨schema, entries⟩ := options
  rw [Options.literal, Options.content, members_eq_ok fun spec hspec => member_eq_ok ?_]
  · rfl
  · intro value hvalue
    have hspec : schema.field? spec.name = some spec := Schema.field?_of_mem_fields hschema hspec
    have hfits : value.fits spec.kind = true := h.get? hvalue hspec
    exact ⟨hfits, OptionValue.literal_eq_ok hfits
      (fun node hnode => hchildren node (mem_children_of_get? hvalue hnode)) spec.name⟩

/-- Writing a well-typed tree gives its content. -/
theorem WellTypedOver.literal_eq_ok (h : options.WellTypedOver Schema.Unrepeated) :
    options.literal = .ok options.content := by
  induction h with
  | intro here _ ih => exact here.2.2.literal_eq_ok here.1 ih

/-- A well-typed tree has a text, which spells its content. -/
theorem WellTypedOver.render_eq_ok (h : options.WellTypedOver Schema.Unrepeated) :
    options.render = .ok options.content.spell := by
  rw [render, h.literal_eq_ok]
  rfl

/-- A well-typed tree can be bound to a variable. -/
theorem WellTypedOver.declaration_eq_ok (h : options.WellTypedOver Schema.Unrepeated)
    (name : String) :
    options.declaration name = .ok (.declare name (.options options.content)) := by
  rw [declaration, h.literal_eq_ok]
  rfl

end Options

namespace Options

/-- What a field contributes is what it has to say, if literals of the values are their contents. -/
theorem eq_saying_of_member {entries : List (String × OptionValue)} {spec : FieldSpec Schema}
    (hcontent : ∀ entry ∈ entries, ∀ field literal, entry.2.literal field = .ok literal →
      literal = entry.2.content) {said : Option (Key × Literal)}
    (h : member (fieldLiterals entries) spec = .ok said) :
    said = saying (fieldContents entries) spec := by
  simp only [member, saying, find?_fieldLiterals, find?_fieldContents] at h ⊢
  cases hfind : Keyed.find? spec.name entries with
  | none =>
    rw [hfind] at h
    exact (Except.ok.inj h).symm
  | some value =>
    rw [hfind] at h
    obtain ⟨_, _, h⟩ := bind_eq_ok.mp h
    simp only [Option.map_some]
    split at h
    · rename_i hvacant
      rw [if_pos hvacant]
      exact (Except.ok.inj h).symm
    · rename_i hvacant
      obtain ⟨literal, hliteral, h⟩ := bind_eq_ok.mp h
      rw [if_neg hvacant, ← hcontent _ (Keyed.mem_of_find?_eq_some hfind) _ literal hliteral]
      exact (Except.ok.inj h).symm

/-- What a list of fields contributes is what they have to say. -/
theorem eq_filterMap_of_members {entries : List (String × OptionValue)}
    (hcontent : ∀ entry ∈ entries, ∀ field literal, entry.2.literal field = .ok literal →
      literal = entry.2.content) {specs : List (FieldSpec Schema)} {written : List (Key × Literal)}
    (h : members (fieldLiterals entries) specs = .ok written) :
    written = specs.filterMap (saying (fieldContents entries)) := by
  induction specs generalizing written with
  | nil => exact (Except.ok.inj h).symm
  | cons spec rest ih =>
    obtain ⟨first, hfirst, h⟩ := bind_eq_ok.mp h
    obtain ⟨others, hothers, h⟩ := bind_eq_ok.mp h
    rw [← Except.ok.inj h, List.filterMap_cons, ← eq_saying_of_member hcontent hfirst, ← ih hothers]
    cases first <;> rfl

end Options

mutual

/-- What is written of a value is its content. -/
theorem OptionValue.eq_content_of_literal (field : String) : (value : OptionValue) →
    {literal : Literal} → value.literal field = .ok literal → literal = value.content
  | .flag _, _, h | .text _, _, h | .moment _, _, h | .code _, _, h => by
    rw [OptionValue.literal] at h
    rw [← Except.ok.inj h, OptionValue.content]
  | .number value, _, h => by
    rw [OptionValue.literal, Literal.ofNumber] at h
    split at h <;> cases h
    rw [OptionValue.content]
  | .list items, _, h => by
    rw [OptionValue.literal] at h
    obtain ⟨literals, hitems, rfl⟩ := map_eq_ok.mp h
    rw [OptionValue.content, OptionValue.eq_contents_of_itemLiterals field items hitems]
  | .object options, _, h => by
    rw [OptionValue.literal] at h
    rw [OptionValue.content, Options.eq_content_of_literal options h]
  | .indexed entries, _, h => by
    rw [OptionValue.literal] at h
    obtain ⟨members, hentries, rfl⟩ := map_eq_ok.mp h
    rw [OptionValue.content, Options.eq_contents_of_entryLiterals entries hentries]

/-- What is written of a tree is its content. -/
theorem Options.eq_content_of_literal : (options : Options) → {literal : Literal} →
    options.literal = .ok literal → literal = options.content
  | ⟨schema, entries⟩, _, h => by
    rw [Options.literal] at h
    obtain ⟨members, hmembers, rfl⟩ := map_eq_ok.mp h
    rw [Options.content, Options.eq_filterMap_of_members
      (Options.eq_content_of_fieldLiteral entries) hmembers]

/-- What is written of items are their contents. -/
theorem OptionValue.eq_contents_of_itemLiterals (field : String) : (items : List OptionValue) →
    {literals : List Literal} → OptionValue.itemLiterals field items = .ok literals →
      literals = OptionValue.itemContents items
  | [], _, h => by
    rw [OptionValue.itemLiterals] at h
    rw [← Except.ok.inj h, OptionValue.itemContents]
  | item :: rest, _, h => by
    rw [OptionValue.itemLiterals] at h
    obtain ⟨first, hfirst, h⟩ := bind_eq_ok.mp h
    obtain ⟨others, hothers, h⟩ := bind_eq_ok.mp h
    rw [← Except.ok.inj h, OptionValue.itemContents,
      ← OptionValue.eq_content_of_literal field item hfirst,
      ← OptionValue.eq_contents_of_itemLiterals field rest hothers]

/-- What is written of labelled nodes are their contents. -/
theorem Options.eq_contents_of_entryLiterals : (entries : List (UInt32 × Options)) →
    {members : List (Key × Literal)} → Options.entryLiterals entries = .ok members →
      members = Options.entryContents entries
  | [], _, h => by
    rw [Options.entryLiterals] at h
    rw [← Except.ok.inj h, Options.entryContents]
  | (label, node) :: rest, _, h => by
    rw [Options.entryLiterals] at h
    obtain ⟨first, hfirst, h⟩ := bind_eq_ok.mp h
    obtain ⟨others, hothers, h⟩ := bind_eq_ok.mp h
    rw [← Except.ok.inj h, Options.entryContents, ← Options.eq_content_of_literal node hfirst,
      ← Options.eq_contents_of_entryLiterals rest hothers]

/-- What is written of assigned values are their contents. -/
theorem Options.eq_content_of_fieldLiteral : (entries : List (String × OptionValue)) →
    ∀ entry ∈ entries, ∀ field literal, entry.2.literal field = .ok literal →
      literal = entry.2.content
  | [], _, hentry => absurd hentry List.not_mem_nil
  | (name, value) :: rest, entry, hentry => by
    intro field literal h
    rcases List.mem_cons.mp hentry with rfl | hrest
    · exact OptionValue.eq_content_of_literal field value h
    · exact Options.eq_content_of_fieldLiteral rest entry hrest field literal h

end

/-- The text of a tree spells its content. -/
theorem Options.eq_spell_of_render {options : Options} {text : String}
    (h : options.render = .ok text) : text = options.content.spell := by
  obtain ⟨literal, hliteral, rfl⟩ := map_eq_ok.mp h
  rw [options.eq_content_of_literal hliteral]

end ChartScript
