import ChartScript.Proofs.Options.Path

/-!
# Well-typed option trees

A node is fitting when each of its values fits the kind that the node's own schema declares for the
field, and a tree is well-typed when every node of it is fitting and its keys are in order. Each
operation keeps a tree well-typed: a write because it checks the value, a step because what it opens
has the declared schema or extends it, and a path because it is made of steps and one write. The
schemas of the nodes may be asked to satisfy a predicate that passes to nested schemas, which the
operations keep as well.
-/

namespace ChartScript

/-- The labels of a labelled collection ascend. -/
def OptionValue.Ordered : OptionValue → Prop
  | .indexed entries => Keyed.Ascending entries
  | _ => True

namespace Options

/-- The fields of a node ascend, and so do the labels of its collections. -/
def Ordered (options : Options) : Prop :=
  Keyed.Ascending options.entries ∧ ∀ entry ∈ options.entries, entry.2.Ordered

/-- Each value of a node fits the kind that the schema of the node declares for its field. -/
def Fitting (options : Options) : Prop :=
  ∀ entry ∈ options.entries, ∃ spec, options.schema.field? entry.1 = some spec ∧
    entry.2.fits spec.kind = true

/-- A tree whose nodes are in order and fitting. -/
def WellTyped (options : Options) : Prop :=
  options.All fun node => node.Ordered ∧ node.Fitting

/-- A well-typed tree whose nodes have schemas of a class. -/
def WellTypedOver (P : Schema → Prop) (options : Options) : Prop :=
  options.All fun node => P node.schema ∧ node.Ordered ∧ node.Fitting

end Options

/-- A class of schemas that passes to the schemas nested in fields. -/
def Schema.Hereditary (P : Schema → Prop) : Prop :=
  ∀ s n : Schema, P s → ∀ name spec, s.field? name = some spec →
    spec.kind.nested? = some n → P n

/-- What holds throughout a schema is such a class. -/
theorem Schema.hereditary_throughout (p : List (FieldSpec Schema) → Prop) :
    Schema.Hereditary (Schema.Throughout p) :=
  fun _ _ h _ _ hspec hnested => h.nested hspec hnested

/-- Schemas that mention no repetition are such a class. -/
theorem Schema.hereditary_repeatFree : Schema.Hereditary Schema.RepeatFree :=
  Schema.hereditary_throughout _

/-- A value given to an operation: its labels ascend and the nodes below it are well-typed. -/
def OptionValue.Given (P : Schema → Prop) (value : OptionValue) : Prop :=
  value.Ordered ∧ ∀ node ∈ value.nodes, node.WellTypedOver P

namespace Options

variable {P : Schema → Prop} {options : Options}

/-- A node without assignments is fitting. -/
theorem WellTypedOver.empty {schema : Schema} (h : P schema) :
    (Options.empty schema).WellTypedOver P := by
  refine .intro ⟨h, ⟨Keyed.ascending_nil, ?_⟩, ?_⟩ ?_ <;> intro _ hmem <;>
    exact absurd hmem List.not_mem_nil

/-- The schemas of a tree over a class belong to it. -/
theorem WellTypedOver.schema (h : options.WellTypedOver P) : P options.schema := h.here.1

/-- What is well-typed over a class is well-typed. -/
theorem WellTypedOver.wellTyped (h : options.WellTypedOver P) : options.WellTyped :=
  h.imp fun _ hnode => hnode.2

/-- What is well-typed over a class is well-typed over a larger one. -/
theorem WellTypedOver.mono {Q : Schema → Prop} (hPQ : ∀ schema, P schema → Q schema)
    (h : options.WellTypedOver P) : options.WellTypedOver Q :=
  h.imp fun _ hnode => ⟨hPQ _ hnode.1, hnode.2⟩

/-- A value found in a fitting node fits the declaration of its field. -/
theorem Fitting.get? (h : options.Fitting) {field : String} {value : OptionValue}
    (hget : options.get? field = some value) {spec : FieldSpec Schema}
    (hspec : options.schema.field? field = some spec) : value.fits spec.kind = true := by
  obtain ⟨found, hfound, hfits⟩ := h _ (Keyed.mem_of_find?_eq_some hget)
  obtain rfl := Option.some.inj (hfound.symm.trans hspec)
  exact hfits

/-- Storing a value that fits keeps a tree well-typed. -/
theorem WellTypedOver.store (h : options.WellTypedOver P) {field : String} {value : OptionValue}
    {spec : FieldSpec Schema} (hspec : options.schema.field? field = some spec)
    (hfits : value.fits spec.kind = true) (hvalue : value.Given P) :
    (options.store field value).WellTypedOver P := by
  obtain ⟨hschema, ⟨hkeys, hlabels⟩, hfitting⟩ := h.here
  refine .intro ⟨hschema, ⟨Keyed.ascending_insert _ _ hkeys, ?_⟩, ?_⟩ ?_
  · intro entry hentry
    rcases Keyed.mem_insert hentry with rfl | hold
    · exact hvalue.1
    · exact hlabels entry hold
  · intro entry hentry
    rcases Keyed.mem_insert hentry with rfl | hold
    · exact ⟨spec, hspec, hfits⟩
    · exact hfitting entry hold
  · intro child hchild
    rcases mem_children_store hchild with hnew | hold
    · exact hvalue.2 child hnew
    · exact h.of_mem hold

/-- A checked assignment keeps a tree well-typed. -/
theorem WellTypedOver.set (h : options.WellTypedOver P) {field : String} {value : OptionValue}
    (hvalue : value.Given P) {changed : Options} (hset : options.set field value = .ok changed) :
    changed.WellTypedOver P ∧ changed.schema = options.schema := by
  obtain ⟨spec, hspec, hfits, rfl⟩ := set_eq_ok.mp hset
  exact ⟨h.store hspec hfits hvalue, rfl⟩

/-- A removal keeps a tree well-typed. -/
theorem WellTypedOver.unset (h : options.WellTypedOver P) (field : String) :
    (options.unset field).WellTypedOver P := by
  obtain ⟨hschema, ⟨hkeys, hlabels⟩, hfitting⟩ := h.here
  refine .intro ⟨hschema, ⟨Keyed.ascending_erase _ hkeys, ?_⟩, ?_⟩ ?_
  · exact fun entry hentry => hlabels entry (Keyed.mem_of_mem_erase hentry)
  · exact fun entry hentry => hfitting entry (Keyed.mem_of_mem_erase hentry)
  · exact fun child hchild => h.of_mem (mem_children_unset hchild)

end Options

namespace OptionValue

/-- A list fits a list of objects when its items are objects of the schema or code. -/
theorem fits_objectList {items : List OptionValue} {declared : Schema} :
    (list items).fits (.objectList declared) = true ↔ ∀ item ∈ items,
      (∃ node, item = .object node ∧ node.schema.isA declared = true) ∨
        ∃ source, item = .code source := by
  simp only [fits, List.all_eq_true]
  refine forall_congr' fun item => forall_congr' fun _ => ?_
  cases item <;> simp

/-- An object fits a kind of field that may be opened as an object. -/
theorem fits_object {field : String} {kind : FieldKind Schema} {declared : Schema}
    {node : Options} (hopens : (Step.object field).opens? kind = some declared)
    (hisA : node.schema.isA declared = true) : (object node).fits kind = true := by
  cases kind <;> simp_all [Step.opens?, fits]

/-- A collection still fits with one more entry that may stand there. -/
theorem fits_indexed_insert {entries : List (UInt32 × Options)} {declared : Schema}
    (hfits : (indexed entries).fits (.indexed declared) = true) (label : UInt32) {node : Options}
    (hisA : node.schema.isA declared = true) :
    (indexed (Keyed.insert label node entries)).fits (.indexed declared) = true := by
  refine List.all_eq_true.mpr fun entry hentry => ?_
  rcases Keyed.mem_insert hentry with rfl | hold
  · exact hisA
  · exact List.all_eq_true.mp hfits entry hold

/-- The nodes below a value that fits have the nested schema or extend it. -/
theorem isA_of_mem_nodes {value : OptionValue} {kind : FieldKind Schema} {declared : Schema}
    (hfits : value.fits kind = true) (hnested : kind.nested? = some declared) {node : Options}
    (hnode : node ∈ value.nodes) : node.schema.isA declared = true := by
  cases value with
  | object found =>
    obtain rfl := List.mem_singleton.mp hnode
    cases kind <;> simp_all [FieldKind.nested?, fits]
  | indexed entries =>
    obtain ⟨entry, hentry, rfl⟩ := List.mem_map.mp hnode
    cases kind <;> simp_all [FieldKind.nested?, fits, fitsScalar]
    exact hfits _ _ hentry
  | list items =>
    obtain ⟨item, hitem, hnode⟩ := mem_nodes_list.mp hnode
    cases kind with
    | objectList schema =>
      obtain rfl := Option.some.inj hnested
      rcases fits_objectList.mp hfits item hitem with ⟨found, rfl, hisA⟩ | ⟨source, rfl⟩
      · obtain rfl := List.mem_singleton.mp hnode
        exact hisA
      · simp [nodes] at hnode
    | _ => simp_all [FieldKind.nested?, fits, fitsScalar]
  | _ => simp [nodes] at hnode

end OptionValue

namespace Options

variable {P : Schema → Prop} {options : Options}

/-- The node that a step leads to has the declared schema or extends it. -/
theorem Fitting.isA_nodeAt (h : options.Fitting) {step : Step} {spec : FieldSpec Schema}
    {declared : Schema} (hspec : options.schema.field? step.field = some spec)
    (hopens : step.opens? spec.kind = some declared) :
    (options.nodeAt declared step).schema.isA declared = true := by
  rcases options.nodeAt_mem declared step with ⟨value, hget, hnode⟩ | hempty
  · exact OptionValue.isA_of_mem_nodes (h.get? hget hspec) (Step.nested?_of_opens? hopens) hnode
  · rw [hempty]
    exact Schema.isA_self declared

/-- The node that a step leads to is well-typed. -/
theorem WellTypedOver.nodeAt (hP : Schema.Hereditary P) (h : options.WellTypedOver P)
    {step : Step} {spec : FieldSpec Schema} {declared : Schema}
    (hspec : options.schema.field? step.field = some spec)
    (hopens : step.opens? spec.kind = some declared) :
    (options.nodeAt declared step).WellTypedOver P := by
  rcases options.nodeAt_mem declared step with ⟨value, hget, hnode⟩ | hempty
  · exact h.of_mem (mem_children_of_get? hget hnode)
  · rw [hempty]
    exact .empty (hP _ _ h.schema _ _ hspec (Step.nested?_of_opens? hopens))

/-- In a well-typed tree the node that a step leads to is well-typed. -/
theorem WellTyped.nodeAt (h : options.WellTyped) {step : Step} {spec : FieldSpec Schema}
    {declared : Schema} (hspec : options.schema.field? step.field = some spec)
    (hopens : step.opens? spec.kind = some declared) :
    (options.nodeAt declared step).WellTyped := by
  have hover : options.WellTypedOver fun _ => True := h.imp fun _ hnode => ⟨trivial, hnode⟩
  exact (hover.nodeAt (fun _ _ _ _ _ _ _ => trivial) hspec hopens).wellTyped

/-- What a field holds after a node has been put below it fits the field. -/
theorem Fitting.fits_placed (h : options.Fitting) {step : Step} {spec : FieldSpec Schema}
    {declared : Schema} {child : Options} (hspec : options.schema.field? step.field = some spec)
    (hopens : step.opens? spec.kind = some declared)
    (hisA : child.schema.isA declared = true) :
    (options.placed declared child step).fits spec.kind = true := by
  cases step with
  | object field => exact OptionValue.fits_object hopens hisA
  | entry field label =>
    obtain ⟨name, kind, default⟩ := spec
    cases kind <;> simp only [Step.opens?, reduceCtorEq, Option.some.injEq] at hopens
    subst hopens
    refine OptionValue.fits_indexed_insert (List.all_eq_true.mpr fun entry hentry => ?_) label hisA
    obtain ⟨entries, hget, hmem⟩ := exists_get?_of_mem_entriesAt hentry
    exact List.all_eq_true.mp (h.get? hget hspec) entry hmem
  | item field position =>
    obtain ⟨name, kind, default⟩ := spec
    cases kind <;> simp only [Step.opens?, reduceCtorEq, Option.ite_none_right_eq_some] at hopens
    obtain ⟨_, hdeclared⟩ := hopens
    obtain rfl := Option.some.inj hdeclared
    refine OptionValue.fits_objectList.mpr fun item hitem => ?_
    rcases mem_items_placed hitem with ⟨items, hget, hmem⟩ | rfl | rfl
    · exact OptionValue.fits_objectList.mp (h.get? hget hspec) item hmem
    · exact Or.inl ⟨_, rfl, Schema.isA_self _⟩
    · exact Or.inl ⟨child, rfl, hisA⟩

/-- Labels still ascend after a node has been put below a field. -/
theorem Ordered.placed (h : options.Ordered) (declared : Schema) (child : Options) (step : Step) :
    (options.placed declared child step).Ordered := by
  cases step with
  | object field => trivial
  | entry field label =>
    refine Keyed.ascending_insert label child ?_
    unfold entriesAt
    split
    · rename_i entries hget
      exact h.2 _ (Keyed.mem_of_find?_eq_some hget)
    · exact Keyed.ascending_nil
  | item field position => trivial

/-- Working on the node that a step leads to keeps a tree well-typed, if the work keeps the node
well-typed and its schema as it was. -/
theorem WellTypedOver.place (hP : Schema.Hereditary P) (h : options.WellTypedOver P)
    {step : Step} {child changed : Options} (hreach : options.reach step = .ok child)
    (hwork : child.WellTypedOver P → changed.WellTypedOver P ∧ changed.schema = child.schema) :
    (options.place changed step).WellTypedOver P := by
  obtain ⟨spec, declared, hspec, hopens, rfl⟩ := exists_opens_of_reach hreach
  obtain ⟨_, hordered, hfitting⟩ := h.here
  obtain ⟨hchanged, hschema⟩ := hwork (h.nodeAt hP hspec hopens)
  have hisA : changed.schema.isA declared = true := by
    rw [hschema]
    exact hfitting.isA_nodeAt hspec hopens
  rw [place_eq_store changed hspec hopens]
  refine h.store hspec (hfitting.fits_placed hspec hopens hisA)
    ⟨hordered.placed declared changed step, fun node hnode => ?_⟩
  rcases mem_nodes_placed hnode with rfl | hold | rfl
  · exact hchanged
  · exact h.of_mem hold
  · exact .empty (hP _ _ h.schema _ _ hspec (Step.nested?_of_opens? hopens))

/-- Working below a step keeps a tree well-typed, also when the step cannot be opened. -/
theorem WellTypedOver.within (hP : Schema.Hereditary P) (h : options.WellTypedOver P) (step : Step)
    {work : Options → Except Error Unit × Options}
    (hwork : ∀ child : Options, child.WellTypedOver P →
      (work child).2.WellTypedOver P ∧ (work child).2.schema = child.schema) :
    (options.within step work).2.WellTypedOver P ∧
      (options.within step work).2.schema = options.schema := by
  unfold Options.within
  split
  · exact ⟨h, rfl⟩
  · rename_i child hreach
    exact ⟨h.place hP hreach (hwork child), schema_place ..⟩

/-- A write keeps a tree well-typed, also when it is refused. -/
theorem WellTypedOver.write (h : options.WellTypedOver P) (field : String) {value : OptionValue}
    (hvalue : value.Given P) :
    (options.write field value).2.WellTypedOver P ∧
      (options.write field value).2.schema = options.schema := by
  unfold Options.write
  split
  · rename_i changed hset
    exact h.set hvalue hset
  · exact ⟨h, rfl⟩

/-- An assignment below the segments of a path keeps a tree well-typed, whether or not it
succeeds. -/
theorem WellTypedOver.assignAt (hP : Schema.Hereditary P) {path : String} {value : OptionValue}
    (hvalue : value.Given P) (segments : List String) {options : Options}
    (h : options.WellTypedOver P) :
    (options.assignAt path value segments).2.WellTypedOver P ∧
      (options.assignAt path value segments).2.schema = options.schema := by
  rw [assignAt_eq]
  cases hturn : options.schema.turn path segments with
  | stop e => exact ⟨h, rfl⟩
  | write field => exact h.write field hvalue
  | go step rest =>
    have := Schema.length_lt_of_turn hturn
    exact h.within hP step fun child hchild => hchild.assignAt hP hvalue rest
termination_by segments.length

/-- An assignment by path keeps a tree well-typed, whether or not it succeeds. -/
theorem WellTypedOver.assign (hP : Schema.Hereditary P) (h : options.WellTypedOver P)
    (path : String) {value : OptionValue} (hvalue : value.Given P) :
    (options.assign path value).2.WellTypedOver P ∧
      (options.assign path value).2.schema = options.schema :=
  h.assignAt hP hvalue (pathSegments path)

end Options

end ChartScript
