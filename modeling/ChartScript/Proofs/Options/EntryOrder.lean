import ChartScript.Options.Writing
import ChartScript.Proofs.Options.Nodes
import ChartScript.Proofs.Outcome

/-!
# The order of entries does not show

A node is written by looking its fields up in the order of the schema, so a tree whose nodes keep
their entries in another order, as a map does that remembers insertions, has the same text. The
canonical form of a tree has the entries of every node in ascending order; writing it writes the
tree.

The argument goes field by field: what a field contributes depends on the value that is found, and
on that only as far as writing looks at it.
-/

namespace ChartScript

/-- Nothing that writes a node tells two values apart. -/
structure OptionValue.LooksLike (v w : OptionValue) : Prop where
  fits : ∀ kind, v.fits kind = w.fits kind
  shape : v.shape = w.shape
  isVacant : v.isVacant = w.isVacant
  literal : v.isVacant = false → ∀ field, v.literal field = w.literal field

namespace Options

variable {a b : Options} {spec : FieldSpec Schema}

/-- A tree is written field by field. -/
theorem literal_eq (options : Options) : options.literal =
    (members (fieldLiterals options.entries) options.schema.fields).map .object := by
  obtain ⟨schema, entries⟩ := options
  rw [literal]

/-- What a field contributes depends on what is assigned to it. -/
theorem member_congr (h : a.get? spec.name = b.get? spec.name) :
    member (fieldLiterals a.entries) spec = member (fieldLiterals b.entries) spec := by
  rw [get?, get?] at h
  rw [member, member, find?_fieldLiterals, find?_fieldLiterals, h]

/-- Values that look alike contribute the same. -/
theorem member_eq_of_looksLike {v w : OptionValue} (h : v.LooksLike w)
    (hv : a.get? spec.name = some v) (hw : b.get? spec.name = some w) :
    member (fieldLiterals a.entries) spec = member (fieldLiterals b.entries) spec := by
  rw [get?] at hv hw
  simp only [member, find?_fieldLiterals, hv, hw, Option.map_some, FieldSpec.check, h.fits, h.shape,
    h.isVacant]
  by_cases hvacant : w.isVacant = true
  · simp only [hvacant, if_true]
  · rw [h.literal (by rw [h.isVacant, Bool.eq_false_iff.mpr hvacant])]

/-- Lists of fields contribute the same where each field does. -/
theorem members_congr {entries others : List (String × OptionValue × Except Error Literal)}
    {specs : List (FieldSpec Schema)}
    (h : ∀ spec ∈ specs, member entries spec = member others spec) :
    members entries specs = members others specs := by
  induction specs with
  | nil => rfl
  | cons spec rest ih =>
    obtain ⟨hspec, hrest⟩ := List.forall_mem_cons.mp h
    rw [members, members, hspec, ih hrest]

end Options

mutual

/-- Put the entries of every node of a value in ascending order. -/
def OptionValue.canonical : OptionValue → OptionValue
  | .list items => .list (OptionValue.canonicalItems items)
  | .object options => .object options.canonical
  | .indexed entries => .indexed (Options.canonicalLabelled entries)
  | value => value

/-- Put the entries of every node of a tree in ascending order. -/
def Options.canonical : Options → Options
  | ⟨schema, entries⟩ => ⟨schema, Keyed.ofList (Options.canonicalEntries entries)⟩

/-- Put the nodes of every item in order. -/
def OptionValue.canonicalItems : List OptionValue → List OptionValue
  | [] => []
  | item :: rest => item.canonical :: OptionValue.canonicalItems rest

/-- Put the nodes of a labelled collection in order. -/
def Options.canonicalLabelled : List (UInt32 × Options) → List (UInt32 × Options)
  | [] => []
  | (label, options) :: rest => (label, options.canonical) :: Options.canonicalLabelled rest

/-- Put the nodes of every assigned value in order. -/
def Options.canonicalEntries : List (String × OptionValue) → List (String × OptionValue)
  | [] => []
  | (field, value) :: rest => (field, value.canonical) :: Options.canonicalEntries rest

end

/-- Items are put in order one by one. -/
theorem OptionValue.canonicalItems_eq_map (items : List OptionValue) :
    OptionValue.canonicalItems items = items.map OptionValue.canonical := by
  induction items with
  | nil => rfl
  | cons item rest ih => rw [OptionValue.canonicalItems, ih, List.map_cons]

namespace Options

/-- Labelled nodes are put in order one by one. -/
theorem canonicalLabelled_eq_map (entries : List (UInt32 × Options)) :
    canonicalLabelled entries = entries.map fun entry => (entry.1, entry.2.canonical) := by
  induction entries with
  | nil => rfl
  | cons entry rest ih => rw [canonicalLabelled, ih, List.map_cons]

/-- Assigned values are put in order one by one. -/
theorem canonicalEntries_eq_map (entries : List (String × OptionValue)) :
    canonicalEntries entries = entries.map fun entry => (entry.1, entry.2.canonical) := by
  induction entries with
  | nil => rfl
  | cons entry rest ih => rw [canonicalEntries, ih, List.map_cons]

/-- The schema of a node stays. -/
theorem schema_canonical (options : Options) : options.canonical.schema = options.schema := by
  obtain ⟨schema, entries⟩ := options
  rw [canonical]

/-- No field is assigned twice. -/
def Distinct (options : Options) : Prop :=
  (options.entries.map (·.1)).Nodup

/-- A field holds its value, put in order. -/
theorem Distinct.get?_canonical {options : Options} (h : options.Distinct) (field : String) :
    options.canonical.get? field = (options.get? field).map OptionValue.canonical := by
  obtain ⟨schema, entries⟩ := options
  rw [canonical, get?, get?, canonicalEntries_eq_map, Keyed.find?_ofList, Keyed.find?_map]
  rwa [List.map_map]

end Options

namespace OptionValue

/-- A value fits the same kinds once it has been put in order. -/
theorem fits_canonical (kind : FieldKind Schema) (value : OptionValue) :
    value.canonical.fits kind = value.fits kind := by
  cases value with
  | object options =>
    cases kind <;> simp only [canonical, fits, fitsScalar, Options.schema_canonical]
  | indexed entries =>
    rw [canonical, Options.canonicalLabelled_eq_map]
    cases kind with
    | indexed declared =>
      simp only [fits, List.all_map, Function.comp_def, Options.schema_canonical]
    | _ => rfl
  | list items =>
    rw [canonical, canonicalItems_eq_map]
    cases kind with
    | objectList declared =>
      simp only [fits, List.all_map]
      congr 1
      funext item
      cases item <;> simp only [Function.comp_apply, canonical, Options.schema_canonical]
    | scalarList kind =>
      simp only [fits, List.all_map]
      congr 1
      funext item
      cases item <;> simp only [Function.comp_apply, canonical, fitsScalar]
    | _ => rfl
  | _ => simp only [canonical]

/-- And it is described by the same words. -/
theorem shape_canonical (value : OptionValue) : value.canonical.shape = value.shape := by
  cases value <;> simp only [canonical, shape, Options.schema_canonical]

end OptionValue

/-- Writing a tree, and whether it is vacant, do not depend on the order of its entries. -/
def Options.OrderFree (options : Options) : Prop :=
  options.canonical.literal = options.literal ∧ options.canonical.isVacant = options.isVacant

/-- Labelled nodes are written in the same way once they have been put in order, if each is. -/
theorem Options.entryLiterals_canonical {entries : List (UInt32 × Options)}
    (h : ∀ entry ∈ entries, entry.2.OrderFree) :
    Options.entryLiterals (Options.canonicalLabelled entries) = Options.entryLiterals entries := by
  induction entries with
  | nil => rw [canonicalLabelled]
  | cons entry rest ih =>
    obtain ⟨hentry, hrest⟩ := List.forall_mem_cons.mp h
    rw [canonicalLabelled, entryLiterals, entryLiterals, hentry.1, ih hrest]

mutual

/-- A value is written in the same way once it has been put in order, if the nodes below are. -/
theorem OptionValue.literal_canonical (field : String) :
    (value : OptionValue) → (∀ node ∈ value.nodes, node.OrderFree) →
      value.canonical.literal field = value.literal field
  | .list items, h => by
    rw [canonical, literal, literal, OptionValue.itemLiterals_canonical field items h]
  | .object options, h => by
    rw [canonical, literal, literal, (h options List.mem_cons_self).1]
  | .indexed entries, h => by
    rw [canonical, literal, literal, Options.entryLiterals_canonical fun entry hentry =>
      h entry.2 (List.mem_map_of_mem hentry)]
  | .flag _, _ | .number _, _ | .text _, _ | .moment _, _ | .code _, _ => by
    simp only [canonical]

/-- So are items. -/
theorem OptionValue.itemLiterals_canonical (field : String) :
    (items : List OptionValue) → (∀ node ∈ OptionValue.itemNodes items, node.OrderFree) →
      OptionValue.itemLiterals field (OptionValue.canonicalItems items) =
        OptionValue.itemLiterals field items
  | [], _ => by rw [canonicalItems]
  | item :: rest, h => by
    rw [itemNodes, List.forall_mem_append] at h
    rw [canonicalItems, itemLiterals, itemLiterals, literal_canonical field item h.1,
      itemLiterals_canonical field rest h.2]

end

/-- A value is as vacant once it has been put in order, if the nodes below are. -/
theorem OptionValue.isVacant_canonical {value : OptionValue}
    (h : ∀ node ∈ value.nodes, node.OrderFree) : value.canonical.isVacant = value.isVacant := by
  cases value with
  | object options =>
    rw [canonical, isVacant, isVacant]
    exact (h options List.mem_cons_self).2
  | indexed entries =>
    rw [canonical, isVacant, isVacant, Options.canonicalLabelled_eq_map, List.isEmpty_map]
  | _ => simp only [canonical, isVacant]

/-- So a value looks like itself put in order. -/
theorem OptionValue.looksLike_canonical {value : OptionValue}
    (h : ∀ node ∈ value.nodes, node.OrderFree) : value.canonical.LooksLike value where
  fits kind := fits_canonical kind value
  shape := shape_canonical value
  isVacant := isVacant_canonical h
  literal _ field := literal_canonical field value h

namespace Options

variable {options : Options}

/-- What a field contributes does not depend on the order of entries. -/
theorem Distinct.member_canonical (h : options.Distinct)
    (hnodes : ∀ child ∈ options.children, child.OrderFree) (spec : FieldSpec Schema) :
    member (fieldLiterals options.canonical.entries) spec =
      member (fieldLiterals options.entries) spec := by
  have hget := h.get?_canonical spec.name
  cases hvalue : options.get? spec.name with
  | none =>
    rw [hvalue, Option.map_none] at hget
    exact member_congr (hget.trans hvalue.symm)
  | some value =>
    rw [hvalue, Option.map_some] at hget
    exact member_eq_of_looksLike (OptionValue.looksLike_canonical fun node hnode =>
      hnodes node (mem_children_of_get? hvalue hnode)) hget hvalue

/-- A node whose fields are assigned once is written in the same way once it has been put in order,
if the nodes below are. -/
theorem Distinct.orderFree (h : options.Distinct)
    (hnodes : ∀ child ∈ options.children, child.OrderFree) : options.OrderFree := by
  constructor
  · rw [literal_eq, literal_eq, schema_canonical,
      members_congr fun spec _ => h.member_canonical hnodes spec]
  · obtain ⟨schema, entries⟩ := options
    rw [canonical, isVacant, isVacant, entriesVacant_eq_all, entriesVacant_eq_all,
      canonicalEntries_eq_map, Bool.eq_iff_iff, List.all_eq_true, List.all_eq_true]
    have hkeys : ((entries.map fun entry => (entry.1, entry.2.canonical)).map (·.1)).Nodup := by
      rwa [List.map_map]
    simp only [(Keyed.perm_ofList hkeys).mem_iff, List.forall_mem_map]
    refine forall₂_congr fun entry hentry => ?_
    rw [OptionValue.isVacant_canonical fun node hnode =>
      hnodes node (mem_children.mpr ⟨entry, hentry, hnode⟩)]

/-- Nothing of a tree whose fields are assigned once depends on the order of its entries. -/
theorem orderFree_of_distinct (h : options.All Distinct) : options.OrderFree := by
  induction h with
  | intro here _ ih => exact here.orderFree ih

/-- A tree whose fields are assigned once has the same text in whatever order its nodes keep their
entries. -/
theorem render_canonical (h : options.All Distinct) : options.canonical.render = options.render :=
  congrArg (·.map Literal.spell) (orderFree_of_distinct h).1

end Options

end ChartScript
