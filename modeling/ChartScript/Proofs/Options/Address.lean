import ChartScript.Proofs.Options.Typing

/-!
# Addresses in an option tree

An address is a chain of steps and a field at its end. Reading along a chain says what stands where
in a tree, without creating anything, so what an operation does to a tree can be said by comparing
what is read before and after. One step that is opened and put back is the unit of all of this: it
leaves alone what is read along other steps, except that the padding of a list brings in empty
objects, below which nothing is read.
-/

namespace ChartScript

/-- Where a value stands in a tree: the steps to its node, and its field there. -/
structure Address where
  steps : List Step
  field : String
deriving DecidableEq

namespace Address

/-- The address that an address below a step has from above the step. -/
def under (step : Step) (a : Address) : Address := ⟨step :: a.steps, a.field⟩

/-- An address is a prefix of another one when both are the same, or when the steps of the other go
on through its field. -/
def IsPrefix (a b : Address) : Prop :=
  a = b ∨ ∃ step rest, b.steps = a.steps ++ step :: rest ∧ step.field = a.field

/-- Prefixes are prefixes also from above a step. -/
theorem IsPrefix.under {a b : Address} (h : a.IsPrefix b) (step : Step) :
    (a.under step).IsPrefix (b.under step) := by
  rcases h with rfl | ⟨next, rest, hsteps, hfield⟩
  · exact Or.inl rfl
  · refine Or.inr ⟨next, rest, ?_, hfield⟩
    rw [Address.under, Address.under, hsteps, List.cons_append]

/-- The first field that an address goes through. -/
def head : Address → String
  | ⟨[], field⟩ => field
  | ⟨step :: _, _⟩ => step.field

/-- A field is a prefix of every address that starts with it. -/
theorem isPrefix_of_head {a : Address} {field : String} (h : a.head = field) :
    (⟨[], field⟩ : Address).IsPrefix a := by
  obtain ⟨steps, last⟩ := a
  cases steps with
  | nil =>
    obtain rfl : last = field := h
    exact Or.inl rfl
  | cons step rest => exact Or.inr ⟨step, rest, rfl, h⟩

end Address

namespace Step

/-- Whether a step is of the sort that opens fields of a kind. -/
def GoesThrough : Step → FieldKind Schema → Prop
  | .object _, .object _ | .object _, .scalarOrObject _ _ => True
  | .entry _ _, .indexed _ | .item _ _, .objectList _ => True
  | _, _ => False

/-- An object is opened in a field that holds an object, perhaps instead of a single value. -/
theorem opens?_object {field : String} {kind : FieldKind Schema} {declared : Schema} :
    (object field).opens? kind = some declared ↔
      kind = .object declared ∨ ∃ scalar, kind = .scalarOrObject scalar declared := by
  cases kind <;> simp [opens?]

/-- An entry is opened in a field that holds a labelled collection. -/
theorem opens?_entry {field : String} {label : UInt32} {kind : FieldKind Schema}
    {declared : Schema} : (entry field label).opens? kind = some declared ↔
      kind = .indexed declared := by
  cases kind <;> simp [opens?]

/-- An item is opened in a field that holds a list of objects, at a position below the limit. -/
theorem opens?_item {field : String} {position : Nat} {kind : FieldKind Schema}
    {declared : Schema} : (item field position).opens? kind = some declared ↔
      kind = .objectList declared ∧ position < listLimit := by
  cases kind <;> simp [opens?, and_comm]

/-- Whether two steps are of one sort. -/
def Alike : Step → Step → Prop
  | .object _, .object _ | .entry _ _, .entry _ _ | .item _ _, .item _ _ => True
  | _, _ => False

/-- Steps through fields of one kind are of one sort. -/
theorem GoesThrough.alike {step through : Step} {kind : FieldKind Schema} {declared : Schema}
    (hthrough : through.GoesThrough kind) (hopens : step.opens? kind = some declared) :
    through.Alike step := by
  cases kind <;> cases through <;> cases step <;> trivial

end Step

namespace OptionValue

/-- The object that a value is, if it is one. -/
def object? : OptionValue → Option Options
  | .object node => some node
  | _ => none

/-- The node that a step leads to in the value of its field, if there is one. -/
def below? : OptionValue → Step → Option Options
  | value, .object _ => value.object?
  | .indexed entries, .entry _ label => Keyed.find? label entries
  | .list items, .item _ position => items[position]?.bind object?
  | _, _ => none

/-- The node that a step leads to in a value is one of the nodes below it. -/
theorem mem_nodes_of_below? {value : OptionValue} {step : Step} {node : Options}
    (h : value.below? step = some node) : node ∈ value.nodes := by
  cases step with
  | object field =>
    cases value with
    | object found =>
      obtain rfl := Option.some.inj h
      exact List.mem_cons_self
    | _ => cases h
  | entry field label =>
    cases value with
    | indexed entries => exact List.mem_map_of_mem (Keyed.mem_of_find?_eq_some h)
    | _ => cases h
  | item field position =>
    cases value with
    | list items =>
      obtain ⟨item, hitem, hobject⟩ := Option.bind_eq_some_iff.mp h
      refine mem_nodes_list.mpr ⟨item, List.mem_of_getElem? hitem, ?_⟩
      cases item with
      | object found =>
        obtain rfl := Option.some.inj hobject
        exact List.mem_cons_self
      | _ => cases hobject
    | _ => cases h

/-- A step that leads to a node in a value that fits is of the sort that opens the kind. -/
theorem goesThrough_of_fits {value : OptionValue} {kind : FieldKind Schema}
    (hfits : value.fits kind = true) {step : Step} {node : Options}
    (hnode : value.below? step = some node) : step.GoesThrough kind := by
  cases step with
  | object field =>
    cases value with
    | object found => cases kind <;> trivial
    | _ => cases hnode
  | entry field label =>
    cases value with
    | indexed entries => cases kind <;> trivial
    | _ => cases hnode
  | item field position =>
    cases value with
    | list items =>
      obtain ⟨item, hitem, hobject⟩ := Option.bind_eq_some_iff.mp hnode
      cases kind with
      | objectList declared => trivial
      | scalarList kind =>
        -- a list of single values has no objects for a step to lead to
        have hitem := List.all_eq_true.mp hfits item (List.mem_of_getElem? hitem)
        cases item with
        | object found => cases hitem
        | _ => cases hobject
      | _ => cases hfits
    | _ => cases hnode

end OptionValue

namespace Options

/-- The node that a step leads to, if there is one. -/
def below? (options : Options) (step : Step) : Option Options :=
  (options.get? step.field).bind (·.below? step)

/-- The node that steps lead to one after another, if there is one. -/
def descend? (options : Options) : List Step → Option Options
  | [] => some options
  | step :: rest => (options.below? step).bind fun node => node.descend? rest

/-- The value at an address, if one is assigned there. -/
def read? (options : Options) (a : Address) : Option OptionValue :=
  (options.descend? a.steps).bind fun node => node.get? a.field

variable {options other : Options}

/-- Reading under a step is reading in the node below. -/
theorem read?_under (options : Options) (step : Step) (a : Address) :
    options.read? (a.under step) = (options.below? step).bind fun node => node.read? a := by
  rw [read?, Address.under, descend?, Option.bind_assoc]
  rfl

/-- A node that a step leads to is directly below. -/
theorem mem_children_of_below? {step : Step} {child : Options}
    (h : options.below? step = some child) : child ∈ options.children := by
  obtain ⟨value, hget, hvalue⟩ := Option.bind_eq_some_iff.mp h
  exact mem_children_of_get? hget (OptionValue.mem_nodes_of_below? hvalue)

/-- A node that steps lead to satisfies what all nodes satisfy, and so do the nodes below it. -/
theorem All.of_descend? {p : Options → Prop} {steps : List Step} {node : Options}
    (h : options.All p) (hnode : options.descend? steps = some node) : node.All p := by
  induction steps generalizing options with
  | nil => exact Option.some.inj hnode ▸ h
  | cons step rest ih =>
    obtain ⟨child, hbelow, hrest⟩ := Option.bind_eq_some_iff.mp hnode
    exact ih (h.of_mem (mem_children_of_below? hbelow)) hrest

/-- What is below a step depends on the value of its field. -/
theorem below?_congr {step : Step} (h : other.get? step.field = options.get? step.field) :
    other.below? step = options.below? step := by
  rw [below?, below?, h]

/-- What is read at an address depends on the value of its first field. -/
theorem read?_congr {a : Address} (h : other.get? a.head = options.get? a.head) :
    other.read? a = options.read? a := by
  obtain ⟨steps, field⟩ := a
  cases steps with
  | nil => exact h
  | cons step rest =>
    change other.read? (Address.under step ⟨rest, field⟩) =
      options.read? (Address.under step ⟨rest, field⟩)
    rw [read?_under, read?_under, below?_congr h]

/-- Nothing is read in a node without assignments. -/
theorem read?_empty (schema : Schema) (a : Address) : (empty schema).read? a = none := by
  obtain ⟨steps, field⟩ := a
  cases steps <;> rfl

/-- What is below a labelled step is an entry of the field. -/
theorem below?_entry (options : Options) (field : String) (label : UInt32) :
    options.below? (.entry field label) = Keyed.find? label (options.entriesAt field) := by
  rw [below?, entriesAt, Step.field]
  cases options.get? field with
  | none => rfl
  | some value => cases value <;> rfl

/-- What is below a positional step is an item of the field. -/
theorem below?_item (options : Options) (field : String) (position : Nat) :
    options.below? (.item field position) =
      (options.itemsAt field)[position]?.bind OptionValue.object? := by
  rw [below?, itemsAt, Step.field]
  cases options.get? field with
  | none => rfl
  | some value => cases value <;> rfl

/-- A step is opened at the node below it, or at an empty one. -/
theorem nodeAt_eq (options : Options) (declared : Schema) (step : Step) :
    options.nodeAt declared step = (options.below? step).getD (empty declared) := by
  cases step with
  | object field =>
    rw [nodeAt, objectAt, below?, Step.field]
    cases options.get? field with
    | none => rfl
    | some value => cases value <;> rfl
  | entry field label => rw [nodeAt, below?_entry]
  | item field position =>
    rw [nodeAt, below?_item]
    cases (options.itemsAt field)[position]? with
    | none => rfl
    | some item => cases item <;> rfl

/-- What is read in the node that a step opens is read under the step. -/
theorem read?_nodeAt (options : Options) (declared : Schema) (step : Step) (a : Address) :
    (options.nodeAt declared step).read? a = options.read? (a.under step) := by
  rw [nodeAt_eq, read?_under]
  cases options.below? step with
  | none => exact read?_empty declared a
  | some node => rfl

/-- In a fitting node, a step that leads to a node is of the sort that opens its field. -/
theorem Fitting.goesThrough (h : options.Fitting) {step : Step} {spec : FieldSpec Schema}
    (hspec : options.schema.field? step.field = some spec) {node : Options}
    (hnode : options.below? step = some node) : step.GoesThrough spec.kind := by
  obtain ⟨value, hvalue, hnode⟩ := Option.bind_eq_some_iff.mp hnode
  exact OptionValue.goesThrough_of_fits (h.get? hvalue hspec) hnode

/-- Padding keeps the items of a list, and what it adds are empty objects. -/
theorem getElem?_padTo (declared : Schema) (position : Nat) (items : List OptionValue) (i : Nat) :
    (padTo declared position items)[i]? = items[i]? ∨
      items[i]? = none ∧ (padTo declared position items)[i]? = some (.object (empty declared)) := by
  by_cases hi : i < items.length
  · exact Or.inl (List.getElem?_append_left hi)
  · have hnone : items[i]? = none := List.getElem?_eq_none (Nat.le_of_not_lt hi)
    rw [hnone, padTo, List.getElem?_append_right (Nat.le_of_not_lt hi), List.getElem?_replicate]
    split
    · exact Or.inr ⟨rfl, rfl⟩
    · exact Or.inl rfl

section Place

variable {step through : Step} {spec : FieldSpec Schema} {declared : Schema}

/-- Putting a node back writes the field of the step. -/
theorem get?_place_self (hspec : options.schema.field? step.field = some spec)
    (hopens : step.opens? spec.kind = some declared) (child : Options) :
    (options.place child step).get? step.field = some (options.placed declared child step) := by
  rw [place_eq_store child hspec hopens]
  exact get?_store_self options step.field _

/-- Putting a node back leaves the other fields alone. -/
theorem get?_place_of_ne (hspec : options.schema.field? step.field = some spec)
    (hopens : step.opens? spec.kind = some declared) (child : Options) {field : String}
    (hne : field ≠ step.field) : (options.place child step).get? field = options.get? field := by
  rw [place_eq_store child hspec hopens]
  exact get?_store_of_ne hne options _

/-- What is put where a step leads is below the step in the new value of its field. -/
theorem below?_placed_self (options : Options) (declared : Schema) (child : Options) (step : Step) :
    (options.placed declared child step).below? step = some child := by
  cases step with
  | object field => rfl
  | entry field label => exact Keyed.find?_insert_self label child _
  | item field position =>
    have hlength : position < (padTo declared position (options.itemsAt field)).length := by
      rw [length_padTo]
      omega
    change ((padTo declared position (options.itemsAt field)).set position _)[position]?.bind _ = _
    rw [List.getElem?_set_self hlength]
    rfl

/-- What is put where a step leads is below the step. -/
theorem below?_place_self (hspec : options.schema.field? step.field = some spec)
    (hopens : step.opens? spec.kind = some declared) (child : Options) :
    (options.place child step).below? step = some child := by
  rw [below?, get?_place_self hspec hopens]
  exact below?_placed_self options declared child step

/-- A node below another step is left alone when a node is put back. Where there was none there is
none, or an empty one that pads a list. -/
theorem below?_place_of_ne (hfitting : options.Fitting)
    (hspec : options.schema.field? step.field = some spec)
    (hopens : step.opens? spec.kind = some declared) (child : Options) (hne : through ≠ step) :
    (options.place child step).below? through = options.below? through ∨
      options.below? through = none ∧
        (options.place child step).below? through = some (empty declared) := by
  by_cases hfield : through.field = step.field
  · have hafter : (options.place child step).below? through =
        (options.placed declared child step).below? through := by
      rw [below?, hfield, get?_place_self hspec hopens]
      rfl
    have hunlike (hsort : ¬ through.Alike step)
        (hnone : (options.placed declared child step).below? through = none) :
        (options.place child step).below? through = options.below? through := by
      cases hbefore : options.below? through with
      | none => rw [hafter, hnone]
      | some node =>
        exact absurd ((hfitting.goesThrough (hfield ▸ hspec) hbefore).alike hopens) hsort
    cases step with
    | object field =>
      cases through with
      | object other => exact absurd (congrArg Step.object hfield) hne
      | entry other label => exact Or.inl (hunlike id rfl)
      | item other position => exact Or.inl (hunlike id rfl)
    | entry field label =>
      cases through with
      | entry other label' =>
        obtain rfl : other = field := hfield
        have hlabel : label' ≠ label := fun h => hne (congrArg (Step.entry other) h)
        refine Or.inl (hafter.trans ?_)
        rw [below?_entry]
        exact Keyed.find?_insert_of_ne hlabel child _
      | object other => exact Or.inl (hunlike id rfl)
      | item other position => exact Or.inl (hunlike id rfl)
    | item field position =>
      cases through with
      | item other position' =>
        obtain rfl : other = field := hfield
        have hposition : position ≠ position' := fun h => hne (congrArg (Step.item other) h.symm)
        have hitem : ((options.placed declared child (.item other position)).below?
            (.item other position')) =
              (padTo declared position (options.itemsAt other))[position']?.bind
                OptionValue.object? :=
          congrArg (fun item => item.bind OptionValue.object?) (List.getElem?_set_ne hposition)
        rw [hafter, hitem, below?_item]
        rcases getElem?_padTo declared position (options.itemsAt other) position' with
          hkept | ⟨hnone, hpad⟩
        · rw [hkept]
          exact Or.inl rfl
        · refine Or.inr ⟨?_, ?_⟩
          · rw [hnone]
            rfl
          · rw [hpad]
            rfl
      | object other => exact Or.inl (hunlike id rfl)
      | entry other label => exact Or.inl (hunlike id rfl)
  · refine Or.inl ?_
    exact below?_congr (get?_place_of_ne hspec hopens child hfield)

end Place

end Options

end ChartScript
