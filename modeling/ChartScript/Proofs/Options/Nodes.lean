import ChartScript.Options.Assignment
import ChartScript.Proofs.Keyed
import ChartScript.Proofs.Schema.Resolution

/-!
# The nodes of an option tree

The nodes directly below a value and below a node, and what it means that all nodes of a tree
satisfy a predicate. What an operation does to a tree is said here by the children it leaves: a
write brings in the nodes of the value written, a removal none, and opening a step leads to a child
that is there or to an empty node of the declared schema.
-/

namespace ChartScript

mutual

/-- The nodes directly below a value, also those inside a list. -/
def OptionValue.nodes : OptionValue → List Options
  | .list items => OptionValue.itemNodes items
  | .object options => [options]
  | .indexed entries => entries.map (·.2)
  | _ => []

/-- The nodes directly below the items of a list. -/
def OptionValue.itemNodes : List OptionValue → List Options
  | [] => []
  | item :: rest => item.nodes ++ OptionValue.itemNodes rest

end

/-- The nodes below items are those below each of them. -/
theorem OptionValue.mem_itemNodes {items : List OptionValue} {node : Options} :
    node ∈ OptionValue.itemNodes items ↔ ∃ item ∈ items, node ∈ item.nodes := by
  induction items with
  | nil => simp [OptionValue.itemNodes]
  | cons item rest ih => simp [OptionValue.itemNodes, ih]

/-- The nodes below a list are those below its items. -/
theorem OptionValue.mem_nodes_list {items : List OptionValue} {node : Options} :
    node ∈ (OptionValue.list items).nodes ↔ ∃ item ∈ items, node ∈ item.nodes :=
  OptionValue.mem_itemNodes

namespace Options

/-- The nodes directly below a node. -/
def children (options : Options) : List Options :=
  options.entries.flatMap fun entry => entry.2.nodes

/-- Every node of a tree satisfies a predicate: its root and what is below it. -/
inductive All (p : Options → Prop) : Options → Prop
  | intro {options : Options} (here : p options) (below : ∀ child ∈ options.children, All p child) :
    All p options

variable {p q : Options → Prop} {options child : Options}

/-- The root satisfies what all nodes satisfy. -/
theorem All.here (h : options.All p) : p options := by
  cases h with
  | intro here _ => exact here

/-- A child's nodes are among the nodes of a tree. -/
theorem All.of_mem (h : options.All p) (hchild : child ∈ options.children) : child.All p := by
  cases h with
  | intro _ below => exact below child hchild

/-- A weaker predicate holds as well. -/
theorem All.imp (hpq : ∀ node, p node → q node) (h : options.All p) : options.All q := by
  induction h with
  | intro here _ ih => exact .intro (hpq _ here) ih

/-- A child is below one of the assigned values. -/
theorem mem_children {node : Options} :
    node ∈ options.children ↔ ∃ entry ∈ options.entries, node ∈ entry.2.nodes := by
  simp [children]

/-- The nodes below an assigned value are children. -/
theorem mem_children_of_get? {field : String} {value : OptionValue} {node : Options}
    (h : options.get? field = some value) (hnode : node ∈ value.nodes) :
    node ∈ options.children :=
  mem_children.mpr ⟨_, Keyed.mem_of_find?_eq_some h, hnode⟩

/-- A write brings in the nodes below the value. -/
theorem mem_children_store {field : String} {value : OptionValue} {node : Options}
    (h : node ∈ (options.store field value).children) :
    node ∈ value.nodes ∨ node ∈ options.children := by
  obtain ⟨entry, hentry, hnode⟩ := mem_children.mp h
  rcases Keyed.mem_insert hentry with rfl | hentry
  · exact Or.inl hnode
  · exact Or.inr (mem_children.mpr ⟨entry, hentry, hnode⟩)

/-- A removal brings in nothing. -/
theorem mem_children_unset {field : String} {node : Options}
    (h : node ∈ (options.unset field).children) : node ∈ options.children := by
  obtain ⟨entry, hentry, hnode⟩ := mem_children.mp h
  exact mem_children.mpr ⟨entry, Keyed.mem_of_mem_erase hentry, hnode⟩

end Options

namespace Step

/-- The field that a step goes through. -/
def field : Step → String
  | .object field | .entry field _ | .item field _ => field

/-- The schema of the nodes that a step leads to through a field of a kind, if it may go through. -/
def opens? : Step → FieldKind Schema → Option Schema
  | .object _, .object declared | .object _, .scalarOrObject _ declared => some declared
  | .entry _ _, .indexed declared => some declared
  | .item _ position, .objectList declared =>
    if position < listLimit then some declared else none
  | _, _ => none

/-- A step leads to nodes of the schema that the kind nests. -/
theorem nested?_of_opens? {step : Step} {kind : FieldKind Schema} {declared : Schema}
    (h : step.opens? kind = some declared) : kind.nested? = some declared := by
  cases step <;> cases kind <;> simp_all [opens?, FieldKind.nested?]

end Step

namespace Options

/-- The node that a step leads to, once its field is known to nest nodes of a schema. -/
def nodeAt (options : Options) (declared : Schema) : Step → Options
  | .object field => options.objectAt field declared
  | .entry field label => (Keyed.find? label (options.entriesAt field)).getD (empty declared)
  | .item field position =>
    match (options.itemsAt field)[position]? with
    | some (.object found) => found
    | _ => empty declared

variable {options : Options}

/-- A declared field has its declaration. -/
theorem spec_eq_ok {field : String} {spec : FieldSpec Schema} :
    options.spec field = .ok spec ↔ options.schema.field? field = some spec := by
  unfold Options.spec
  cases options.schema.field? field <;> simp

/-- An assignment succeeds exactly when the field is declared and takes the value. -/
theorem set_eq_ok {field : String} {value : OptionValue} {changed : Options} :
    options.set field value = .ok changed ↔
      ∃ spec, options.schema.field? field = some spec ∧ value.fits spec.kind = true ∧
        options.store field value = changed := by
  unfold Options.set Options.spec
  cases hspec : options.schema.field? field with
  | none => simp [bind, Except.bind]
  | some spec =>
    rw [← Schema.name_of_field? hspec]
    by_cases hfits : value.fits spec.kind = true <;>
      simp [FieldSpec.check, hfits, bind, Except.bind, pure, Except.pure]

/-- A step that can be opened goes through a declared field of a kind that nests nodes, and leads to
the node there or to an empty one. -/
theorem exists_opens_of_reach {step : Step} {child : Options} (h : options.reach step = .ok child) :
    ∃ spec declared, options.schema.field? step.field = some spec ∧
      step.opens? spec.kind = some declared ∧ child = options.nodeAt declared step := by
  have hname {name : String} {spec : FieldSpec Schema} (hs : options.spec name = .ok spec) :
      spec.name = name := Schema.name_of_field? (spec_eq_ok.mp hs)
  cases step with
  | object field =>
    simp only [reach, notNested, bind, Except.bind] at h
    split at h
    · simp at h
    · rename_i spec hspec
      split at h <;> rename_i hkind <;> cases h <;>
        exact ⟨spec, _, spec_eq_ok.mp hspec, by rw [hkind]; rfl, by rw [hname hspec]; rfl⟩
  | entry field label =>
    simp only [reach, notNested, bind, Except.bind] at h
    split at h
    · simp at h
    · rename_i spec hspec
      split at h <;> rename_i hkind <;> cases h
      exact ⟨spec, _, spec_eq_ok.mp hspec, by rw [hkind]; rfl, by rw [hname hspec]; rfl⟩
  | item field position =>
    simp only [reach, notNested, bind, Except.bind] at h
    split at h
    · simp at h
    · rename_i spec hspec
      split at h
      · rename_i declared hkind
        split at h
        · simp at h
        · rename_i hlimit
          refine ⟨spec, declared, spec_eq_ok.mp hspec, ?_, ?_⟩
          · rw [hkind]
            exact if_pos (by omega)
          · rw [hname hspec] at h
            simp only [nodeAt]
            split at h <;> cases h <;> simp_all
      · simp at h

/-- Labelled entries of a field are those of its value. -/
theorem exists_get?_of_mem_entriesAt {field : String} {entry : UInt32 × Options}
    (h : entry ∈ options.entriesAt field) :
    ∃ entries, options.get? field = some (.indexed entries) ∧ entry ∈ entries := by
  unfold entriesAt at h
  split at h
  · rename_i entries hget
    exact ⟨entries, hget, h⟩
  · simp at h

/-- The items of a field are those of its value. -/
theorem exists_get?_of_mem_itemsAt {field : String} {item : OptionValue}
    (h : item ∈ options.itemsAt field) :
    ∃ items, options.get? field = some (.list items) ∧ item ∈ items := by
  unfold itemsAt at h
  split at h
  · rename_i items hget
    exact ⟨items, hget, h⟩
  · simp at h

/-- The node that a step leads to is below the value of the field, or has nothing assigned. -/
theorem nodeAt_mem (declared : Schema) (step : Step) :
    (∃ value, options.get? step.field = some value ∧
      options.nodeAt declared step ∈ value.nodes) ∨
        options.nodeAt declared step = empty declared := by
  cases step with
  | object field =>
    simp only [nodeAt, objectAt]
    split
    · rename_i found hget
      exact Or.inl ⟨_, hget, List.mem_cons_self⟩
    · exact Or.inr rfl
  | entry field label =>
    simp only [nodeAt]
    cases hfind : Keyed.find? label (options.entriesAt field) with
    | none => exact Or.inr rfl
    | some found =>
      obtain ⟨entries, hget, hmem⟩ :=
        exists_get?_of_mem_entriesAt (Keyed.mem_of_find?_eq_some hfind)
      exact Or.inl ⟨_, hget, List.mem_map_of_mem hmem⟩
  | item field position =>
    simp only [nodeAt]
    split
    · rename_i found hitem
      obtain ⟨items, hget, hmem⟩ := exists_get?_of_mem_itemsAt (List.mem_of_getElem? hitem)
      exact Or.inl ⟨_, hget, OptionValue.mem_nodes_list.mpr ⟨_, hmem, List.mem_cons_self⟩⟩
    · exact Or.inr rfl

/-- What a field holds once a node has been put where a step through it leads. -/
def placed (options : Options) (declared : Schema) (child : Options) : Step → OptionValue
  | .object _ => .object child
  | .entry field label => .indexed (Keyed.insert label child (options.entriesAt field))
  | .item field position =>
    .list ((padTo declared position (options.itemsAt field)).set position (.object child))

/-- Putting a node where a step leads writes one field. -/
theorem place_eq_store {step : Step} {spec : FieldSpec Schema} {declared : Schema}
    (child : Options) (hspec : options.schema.field? step.field = some spec)
    (hopens : step.opens? spec.kind = some declared) :
    options.place child step = options.store step.field (options.placed declared child step) := by
  cases step with
  | object field => rfl
  | entry field label => rfl
  | item field position =>
    obtain ⟨name, kind, default⟩ := spec
    cases kind <;> simp only [Step.opens?, reduceCtorEq, Option.ite_none_right_eq_some] at hopens
    obtain ⟨_, hdeclared⟩ := hopens
    obtain rfl := Option.some.inj hdeclared
    change options.schema.field? field = _ at hspec
    simp only [place, hspec]
    rfl

/-- Padding adds nothing but objects without assignments. -/
theorem mem_padTo {declared : Schema} {position : Nat} {items : List OptionValue}
    {item : OptionValue} (h : item ∈ padTo declared position items) :
    item ∈ items ∨ item = .object (empty declared) := by
  rcases List.mem_append.mp h with hitem | hpad
  · exact Or.inl hitem
  · exact Or.inr (List.mem_replicate.mp hpad).2

/-- An item of a list that a node was put into was there before, is padding, or is the node. -/
theorem mem_items_placed {field : String} {position : Nat} {child : Options}
    {schema : Schema} {item : OptionValue}
    (h : item ∈ (padTo schema position (options.itemsAt field)).set position (.object child)) :
    (∃ items, options.get? field = some (.list items) ∧ item ∈ items) ∨
      item = .object (empty schema) ∨ item = .object child := by
  rcases List.mem_or_eq_of_mem_set h with hpadded | rfl
  · rcases mem_padTo hpadded with hold | hpad
    · exact Or.inl (exists_get?_of_mem_itemsAt hold)
    · exact Or.inr (Or.inl hpad)
  · exact Or.inr (Or.inr rfl)

/-- Putting a node where a step leads brings in that node and perhaps empty ones. -/
theorem mem_nodes_placed {step : Step} {declared : Schema} {child node : Options}
    (h : node ∈ (options.placed declared child step).nodes) :
    node = child ∨ node ∈ options.children ∨ node = empty declared := by
  cases step with
  | object field => exact Or.inl (List.mem_singleton.mp h)
  | entry field label =>
    obtain ⟨entry, hentry, rfl⟩ := List.mem_map.mp h
    rcases Keyed.mem_insert hentry with rfl | hentry
    · exact Or.inl rfl
    · obtain ⟨entries, hget, hmem⟩ := exists_get?_of_mem_entriesAt hentry
      exact Or.inr (Or.inl (mem_children_of_get? hget (List.mem_map_of_mem hmem)))
  | item field position =>
    obtain ⟨item, hitem, hnode⟩ := OptionValue.mem_nodes_list.mp h
    rcases mem_items_placed hitem with ⟨items, hget, hmem⟩ | rfl | rfl
    · exact Or.inr (Or.inl (mem_children_of_get? hget
        (OptionValue.mem_nodes_list.mpr ⟨item, hmem, hnode⟩)))
    · exact Or.inr (Or.inr (List.mem_singleton.mp hnode))
    · exact Or.inl (List.mem_singleton.mp hnode)

end Options

end ChartScript
