import ChartScript.Proofs.Options.Building
import ChartScript.Proofs.Options.EntryOrder
import ChartScript.Proofs.Options.Independence
import ChartScript.Proofs.Options.Vacancy
import ChartScript.Proofs.Schema.Agreement

/-!
# Replacing a node

The node that steps lead to, replaced by another. Around it nothing changes, which is said twice
here. Where the two nodes cannot be told apart by what writes them, or are left out for being
vacant, the trees are written alike, errors included. And where the node is written, the content of
the tree is spelled by characters before and after those of the node, and these do not depend on it.

Both go by one step: what stands around a node in the value of its field is data, an object alone, a
labelled collection or a list with a gap, and putting a node there fills the gap.
-/

namespace ChartScript

/-- What stands around a node in the value of a field. -/
inductive Surroundings where
  /-- The node is the value. -/
  | object
  /-- The label of the node, and the entries before and after it. -/
  | indexed (before : List (UInt32 × Options)) (label : UInt32) (after : List (UInt32 × Options))
  /-- The items before and after the node. -/
  | list (before after : List OptionValue)

/-- The value with a node in it. -/
def Surroundings.fill : Surroundings → Options → OptionValue
  | .object, node => .object node
  | .indexed before label after, node => .indexed (before ++ (label, node) :: after)
  | .list before after, node => .list (before ++ .object node :: after)

namespace Options

/-- Put a node where steps lead, if they lead to a node. -/
def replaceAt (options : Options) : List Step → Options → Options
  | [], node => node
  | step :: rest, node =>
    match options.below? step with
    | some child => options.place (child.replaceAt rest node) step
    | none => options

/-- Whether the node at the end of steps is written: the root is, and so is an entry or an item,
while an object in a field has to hold something. -/
def ShownAt (steps : List Step) (node : Options) : Prop :=
  ∀ field, steps.getLast? = some (.object field) → node.isVacant = false

variable {options node child a b : Options} {step : Step}

/-- Replacing below a step puts back what became of the node of the step. -/
theorem replaceAt_cons (h : options.below? step = some child) (rest : List Step) (node : Options) :
    options.replaceAt (step :: rest) node = options.place (child.replaceAt rest node) step := by
  rw [replaceAt, h]

/-- The root is written. -/
theorem shownAt_nil (node : Options) : node.ShownAt [] :=
  fun _ hlast => nomatch hlast

/-- A node that steps lead to is written if it is written below the first of them. -/
theorem shownAt_cons_cons (step next : Step) (rest : List Step) (node : Options) :
    node.ShownAt (step :: next :: rest) ↔ node.ShownAt (next :: rest) := by
  rw [ShownAt, List.getLast?_cons_cons, ShownAt]

/-- What a step leads to in a fitting node fills a gap in the value of the field, and putting a node
there fills the same gap. -/
theorem Fitting.exists_fill (hfitting : options.Fitting) (hordered : options.Ordered)
    (hbelow : options.below? step = some child) :
    ∃ s : Surroundings, options.get? step.field = some (s.fill child) ∧
      (∀ node, options.place node step = options.store step.field (s.fill node)) ∧
        (s = .object ↔ step = .object step.field) := by
  obtain ⟨value, hget, hvalue⟩ := Option.bind_eq_some_iff.mp hbelow
  cases step with
  | object field =>
    cases value with
    | object found =>
      obtain rfl := Option.some.inj hvalue
      exact ⟨.object, hget, fun _ => rfl, iff_of_true rfl rfl⟩
    | _ => cases hvalue
  | entry field label =>
    cases value with
    | indexed entries =>
      obtain ⟨before, after, hentries, hinsert⟩ := Keyed.exists_append_of_find?
        (hordered.2 _ (Keyed.mem_of_find?_eq_some hget)) hvalue
      refine ⟨.indexed before label after, ?_, fun node => ?_, by simp⟩
      · rw [hget, hentries]
        rfl
      · change options.get? field = _ at hget
        rw [place, entriesAt, hget, Surroundings.fill, ← hinsert node]
        rfl
    | _ => cases hvalue
  | item field position =>
    obtain ⟨spec, hspec, _⟩ := hfitting _ (Keyed.mem_of_find?_eq_some hget)
    have hkind := hfitting.goesThrough hspec hbelow
    cases value with
    | list items =>
      obtain ⟨item, hitem, hobject⟩ := Option.bind_eq_some_iff.mp hvalue
      obtain ⟨hlt, hget'⟩ := List.getElem?_eq_some_iff.mp hitem
      have hchild : items[position] = .object child := by
        rw [hget']
        cases item <;> cases hobject
        rfl
      refine ⟨.list (items.take position) (items.drop (position + 1)), ?_, fun node => ?_, by simp⟩
      · rw [hget, Surroundings.fill, ← hchild, List.getElem_cons_drop, List.take_append_drop]
      · change options.get? field = _ at hget
        obtain ⟨name, kind, default⟩ := spec
        cases kind <;> cases hkind
        change options.schema.field? field = _ at hspec
        simp only [place, hspec, itemsAt, hget, padTo_of_lt hlt,
          List.set_eq_take_append_cons_drop, if_pos hlt]
        rfl
    | _ => cases hvalue

end Options

/-- Nothing that writes the tree around them tells two nodes apart. -/
structure Options.LooksLike (a b : Options) : Prop where
  schema : a.schema = b.schema
  isVacant : a.isVacant = b.isVacant
  literal : a.literal = b.literal

namespace Options

variable {options node child a b : Options} {step : Step} {steps : List Step}

/-- Entries are written alike if the one that differs is. -/
theorem entryLiterals_append_cons (hliteral : a.literal = b.literal)
    (before after : List (UInt32 × Options)) (label : UInt32) :
    entryLiterals (before ++ (label, a) :: after) =
      entryLiterals (before ++ (label, b) :: after) := by
  induction before with
  | nil => rw [List.nil_append, List.nil_append, entryLiterals, entryLiterals, hliteral]
  | cons entry rest ih => rw [List.cons_append, List.cons_append, entryLiterals, entryLiterals, ih]

/-- So are items. -/
theorem itemLiterals_append_cons (hliteral : a.literal = b.literal) (field : String)
    (before after : List OptionValue) :
    OptionValue.itemLiterals field (before ++ .object a :: after) =
      OptionValue.itemLiterals field (before ++ .object b :: after) := by
  induction before with
  | nil =>
    rw [List.nil_append, List.nil_append, OptionValue.itemLiterals, OptionValue.itemLiterals,
      OptionValue.literal, OptionValue.literal, hliteral]
  | cons item rest ih =>
    rw [List.cons_append, List.cons_append, OptionValue.itemLiterals, OptionValue.itemLiterals, ih]

/-- What holds a node is vacant if it is nothing but the node, and the node is vacant. -/
theorem isVacant_fill (s : Surroundings) (node : Options) :
    (s.fill node).isVacant = true ↔ s = .object ∧ node.isVacant = true := by
  cases s <;> simp [Surroundings.fill, OptionValue.isVacant]

/-- Nodes of one schema and equally vacant look alike in what is around them, if they are written
alike or are vacant objects. -/
theorem looksLike_fill (hschema : a.schema = b.schema) (hvacant : a.isVacant = b.isVacant)
    (s : Surroundings) (hliteral : a.literal = b.literal ∨ (s = .object ∧ a.isVacant = true)) :
    (s.fill a).LooksLike (s.fill b) where
  fits kind := by
    cases s <;> cases kind <;>
      simp only [Surroundings.fill, OptionValue.fits, OptionValue.fitsScalar, List.all_append,
        List.all_cons, hschema]
  shape := by
    cases s <;> simp only [Surroundings.fill, OptionValue.shape, hschema]
  isVacant := by
    rw [Bool.eq_iff_iff, isVacant_fill, isVacant_fill, hvacant]
  literal hshown field := by
    have hsame : a.literal = b.literal :=
      hliteral.resolve_right fun hleft =>
        Bool.eq_false_iff.mp hshown ((isVacant_fill s a).mpr hleft)
    cases s with
    | object => exact hsame
    | indexed before label after =>
      rw [Surroundings.fill, Surroundings.fill, OptionValue.literal, OptionValue.literal,
        entryLiterals_append_cons hsame]
    | list before after =>
      rw [Surroundings.fill, Surroundings.fill, OptionValue.literal, OptionValue.literal,
        itemLiterals_append_cons hsame]

/-- So nodes look alike that hold values in a field that do. -/
theorem looksLike_store (hordered : options.Ordered) {field : String} {v w : OptionValue}
    (h : v.LooksLike w) : (options.store field v).LooksLike (options.store field w) where
  schema := rfl
  isVacant := by
    rw [Bool.eq_iff_iff, isVacant_store_iff hordered.1, isVacant_store_iff hordered.1, h.isVacant]
  literal := by
    rw [literal_eq, literal_eq, members_congr fun spec _ => ?_]
    · rfl
    · by_cases hname : spec.name = field
      · subst hname
        exact member_eq_of_looksLike h (get?_store_self ..) (get?_store_self ..)
      · exact member_congr ((get?_store_of_ne hname options v).trans
          (get?_store_of_ne hname options w).symm)

/-- Storing what is there changes nothing. -/
theorem store_get? (hordered : options.Ordered) {field : String} {value : OptionValue}
    (hget : options.get? field = some value) : options.store field value = options := by
  obtain ⟨schema, entries⟩ := options
  obtain ⟨before, after, hentries, hinsert⟩ := Keyed.exists_append_of_find? hordered.1 hget
  exact congrArg (Options.mk schema) ((hinsert value).trans hentries.symm)

/-- A tree is what it is after a node has been replaced by itself. -/
theorem WellTyped.replaceAt_self (h : options.WellTyped)
    (hnode : options.descend? steps = some node) : options.replaceAt steps node = options := by
  induction steps generalizing options with
  | nil => exact (Option.some.inj hnode).symm
  | cons step rest ih =>
    obtain ⟨child, hbelow, hrest⟩ := Option.bind_eq_some_iff.mp hnode
    obtain ⟨s, hget, hplace, _⟩ := h.here.2.exists_fill h.here.1 hbelow
    rw [replaceAt_cons hbelow, ih (h.of_mem (mem_children_of_below? hbelow)) hrest, hplace,
      store_get? h.here.1 hget]

/-- Trees look alike in which nodes of one schema and equally vacant stand in one place, if these
nodes are written alike or are not written there. -/
theorem WellTyped.looksLike_replaceAt (h : options.WellTyped)
    (hnode : options.descend? steps = some node) (hschema : a.schema = b.schema)
    (hvacant : a.isVacant = b.isVacant) (hliteral : a.literal = b.literal ∨ ¬ a.ShownAt steps) :
    (options.replaceAt steps a).LooksLike (options.replaceAt steps b) := by
  induction steps generalizing options with
  | nil => exact ⟨hschema, hvacant, hliteral.resolve_right fun hhidden => hhidden (shownAt_nil a)⟩
  | cons step rest ih =>
    obtain ⟨child, hbelow, hrest⟩ := Option.bind_eq_some_iff.mp hnode
    obtain ⟨s, _, hplace, hobject⟩ := h.here.2.exists_fill h.here.1 hbelow
    rw [replaceAt_cons hbelow, replaceAt_cons hbelow, hplace, hplace]
    refine looksLike_store h.here.1 ?_
    cases rest with
    | nil =>
      -- nodes that differ are vacant objects here, and these are left out
      refine looksLike_fill hschema hvacant s (hliteral.imp_right fun hhidden => ?_)
      simp only [ShownAt, List.getLast?_singleton, Option.some.injEq, not_forall] at hhidden
      obtain ⟨field, hstep, ha⟩ := hhidden
      exact ⟨hobject.mpr (by rw [hstep]; rfl), Bool.eq_true_of_not_eq_false ha⟩
    | cons next more =>
      rw [shownAt_cons_cons] at hliteral
      obtain ⟨hsame, hsameVacant, hsameLiteral⟩ :=
        ih (h.of_mem (mem_children_of_below? hbelow)) hrest hliteral
      exact looksLike_fill hsame hsameVacant s (.inl hsameLiteral)

end Options

namespace Literal

/-- Further items one after another. -/
theorem restChars_append (items others : List Literal) :
    restChars (items ++ others) = restChars items ++ restChars others := by
  induction items with
  | nil => rfl
  | cons item rest ih => simp [restChars, ih]

/-- Further members one after another. -/
theorem restMemberChars_append (members others : List (Key × Literal)) :
    restMemberChars (members ++ others) = restMemberChars members ++ restMemberChars others := by
  induction members with
  | nil => rfl
  | cons member rest ih => simp [restMemberChars, ih]

/-- What is around an item is written in the same way whatever the item is. -/
theorem exists_chars_array (before after : List Literal) : ∃ pre post : List Char, ∀ item : Literal,
    (Literal.array (before ++ item :: after)).chars = pre ++ item.chars ++ post := by
  cases before with
  | nil =>
    refine ⟨['['], restChars after ++ [']'], fun item => ?_⟩
    simp [chars]
  | cons first rest =>
    refine ⟨'[' :: (first.chars ++ (restChars rest ++ [','])), restChars after ++ [']'],
      fun item => ?_⟩
    simp [chars, restChars_append, restChars]

/-- What is around the value of a member is written in the same way whatever the value is. -/
theorem exists_chars_object (before after : List (Key × Literal)) (key : Key) :
    ∃ pre post : List Char, ∀ value : Literal,
      (Literal.object (before ++ (key, value) :: after)).chars = pre ++ value.chars ++ post := by
  cases before with
  | nil =>
    refine ⟨'\x7b' :: (key.chars ++ [':']), restMemberChars after ++ ['\x7d'], fun value => ?_⟩
    simp [chars]
  | cons first rest =>
    refine ⟨'\x7b' :: (first.1.chars ++ ':' :: (first.2.chars ++ (restMemberChars rest ++
      ',' :: (key.chars ++ [':'])))), restMemberChars after ++ ['\x7d'], fun value => ?_⟩
    simp [chars, restMemberChars_append, restMemberChars]

end Literal

namespace Options

variable {options node child : Options} {step : Step} {steps : List Step}

/-- What is around a node in the value of a field is written in the same way whatever the node. -/
theorem exists_chars_fill (s : Surroundings) : ∃ pre post : List Char, ∀ node,
    (s.fill node).content.chars = pre ++ node.content.chars ++ post := by
  cases s with
  | object => exact ⟨[], [], fun node => by simp [Surroundings.fill, OptionValue.content]⟩
  | indexed before label after =>
    obtain ⟨pre, post, hchars⟩ := Literal.exists_chars_object
      (entryContents before) (entryContents after) (.label label)
    refine ⟨pre, post, fun node => ?_⟩
    rw [← hchars, Surroundings.fill, OptionValue.content]
    simp only [entryContents_eq_map, List.map_append, List.map_cons]
  | list before after =>
    obtain ⟨pre, post, hchars⟩ := Literal.exists_chars_array
      (OptionValue.itemContents before) (OptionValue.itemContents after)
    refine ⟨pre, post, fun node => ?_⟩
    rw [← hchars, Surroundings.fill, OptionValue.content]
    simp only [OptionValue.itemContents_eq_map, List.map_append, List.map_cons, OptionValue.content]

/-- What is around the value of a field is written in the same way whatever the value, as long as it
is written. -/
theorem exists_chars_store {spec : FieldSpec Schema} (hspec : spec ∈ options.schema.fields) :
    ∃ pre post : List Char, ∀ value, value.isVacant = false →
      (options.store spec.name value).content.chars = pre ++ value.content.chars ++ post := by
  obtain ⟨before, after, hfields, hbefore, hafter⟩ := Schema.exists_fields_append hspec
  obtain ⟨pre, post, hchars⟩ := Literal.exists_chars_object (before.filterMap options.said)
    (after.filterMap options.said) (.field spec.name)
  refine ⟨pre, post, fun value hvalue => ?_⟩
  have hothers {specs : List (FieldSpec Schema)} (hne : ∀ other ∈ specs, other.name ≠ spec.name) :
      specs.filterMap (options.store spec.name value).said = specs.filterMap options.said :=
    filterMap_said_congr fun other hother => get?_store_of_ne (hne other hother) options value
  have hsaid : (options.store spec.name value).said spec =
      some (.field spec.name, value.content) := by
    rw [said_of_get? (get?_store_self ..), hvalue, if_neg Bool.false_ne_true]
  rw [content_eq_object, ← hchars]
  change (Literal.object (options.schema.fields.filterMap _)).chars = _
  rw [hfields, List.filterMap_append, List.filterMap_cons_some hsaid, hothers hbefore,
    hothers hafter]

/-- What is around a node that is written is spelled in the same way whatever the node; and then the
tree has something to write. -/
theorem WellTyped.exists_chars_replaceAt (h : options.WellTyped)
    (hnode : options.descend? steps = some node) :
    ∃ pre post : List Char, ∀ other : Options, other.ShownAt steps →
      (options.replaceAt steps other).content.chars = pre ++ other.content.chars ++ post ∧
        (steps ≠ [] → (options.replaceAt steps other).isVacant = false) := by
  induction steps generalizing options with
  | nil => exact ⟨[], [], fun other _ => ⟨by simp [replaceAt], fun hne => absurd rfl hne⟩⟩
  | cons step rest ih =>
    obtain ⟨child, hbelow, hrest⟩ := Option.bind_eq_some_iff.mp hnode
    obtain ⟨hordered, hfitting⟩ := h.here
    obtain ⟨s, hget, hplace, hobject⟩ := hfitting.exists_fill hordered hbelow
    obtain ⟨pre, post, hbelowChars⟩ := ih (h.of_mem (mem_children_of_below? hbelow)) hrest
    obtain ⟨preFill, postFill, hfill⟩ := exists_chars_fill s
    obtain ⟨declared, hdeclared, _⟩ := hfitting _ (Keyed.mem_of_find?_eq_some hget)
    obtain ⟨spec, hspec, hname⟩ : ∃ spec ∈ options.schema.fields, spec.name = step.field :=
      Schema.exists_mem_fields_of_field? hdeclared
    obtain ⟨preStore, postStore, hstore⟩ := exists_chars_store hspec
    refine ⟨preStore ++ preFill ++ pre, post ++ postFill ++ postStore, fun other hother => ?_⟩
    have hshown : (s.fill (child.replaceAt rest other)).isVacant = false ∧
        (child.replaceAt rest other).content.chars = pre ++ other.content.chars ++ post := by
      rw [← Bool.not_eq_true, isVacant_fill, hobject]
      -- what is below the step is written for itself, or because it is not vacant
      cases rest with
      | nil =>
        refine ⟨fun ⟨hstep, hvacant⟩ => ?_, (hbelowChars other (shownAt_nil other)).1⟩
        have hfull := hother step.field (by rw [List.getLast?_singleton, ← hstep])
        rw [replaceAt, hfull] at hvacant
        cases hvacant
      | cons next more =>
        obtain ⟨hchars, hvacant⟩ := hbelowChars other ((shownAt_cons_cons ..).mp hother)
        refine ⟨fun h => ?_, hchars⟩
        rw [hvacant (List.cons_ne_nil _ _)] at h
        cases h.2
    rw [replaceAt_cons hbelow, hplace, ← hname]
    constructor
    · rw [hstore _ hshown.1, hfill, hshown.2]
      simp only [List.append_assoc]
    · refine fun _ => Bool.eq_false_iff.mpr fun hvacant => ?_
      rw [((isVacant_store_iff hordered.1).mp hvacant).1] at hshown
      cases hshown.1

end Options

/-- Edits of the node that steps lead to. -/
def Edit.along : List Step → List Edit → List Edit
  | [], edits => edits
  | step :: rest, edits => [.within step (Edit.along rest edits)]

/-- A step of the sort that opens a kind opens it, at positions below the limit. -/
theorem Step.GoesThrough.exists_opens {step : Step} {kind : FieldKind Schema}
    (h : step.GoesThrough kind)
    (hlimit : ∀ field position, step = .item field position → position < listLimit) :
    ∃ declared, step.opens? kind = some declared := by
  cases step with
  | object field =>
    cases kind <;> first | exact h.elim | exact ⟨_, rfl⟩
  | entry field label =>
    cases kind <;> first | exact h.elim | exact ⟨_, rfl⟩
  | item field position =>
    cases kind <;> first | exact h.elim | exact ⟨_, if_pos (hlimit _ _ rfl)⟩

namespace Options

variable {options node : Options} {steps : List Step}

/-- Editing a node below replaces it by what the edits make of it. -/
theorem WellTyped.runAll_along (h : options.WellTyped) (hnode : options.descend? steps = some node)
    (hlimit : ∀ field position, .item field position ∈ steps → position < listLimit)
    (edits : List Edit) : Edit.runAll (Edit.along steps edits) options =
      options.replaceAt steps (Edit.runAll edits node) := by
  induction steps generalizing options with
  | nil =>
    obtain rfl := Option.some.inj hnode
    rfl
  | cons step rest ih =>
    obtain ⟨child, hbelow, hrest⟩ := Option.bind_eq_some_iff.mp hnode
    obtain ⟨value, hget, _⟩ := Option.bind_eq_some_iff.mp hbelow
    obtain ⟨spec, hspec, _⟩ := h.here.2 _ (Keyed.mem_of_find?_eq_some hget)
    obtain ⟨declared, hopens⟩ := (h.here.2.goesThrough hspec hbelow).exists_opens
      fun field position hstep => hlimit field position (hstep ▸ List.mem_cons_self)
    have hreach : options.reach step = .ok child := by
      rw [reach_eq_ok hspec hopens, nodeAt_eq, hbelow, Option.getD_some]
    rw [Edit.along, Edit.runAll, Edit.runAll, Edit.run, within_eq hreach, replaceAt_cons hbelow,
      ih (h.of_mem (mem_children_of_below? hbelow)) hrest fun field position hmem =>
        hlimit field position (List.mem_cons_of_mem _ hmem)]

end Options

end ChartScript
