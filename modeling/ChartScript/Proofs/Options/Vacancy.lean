import ChartScript.Proofs.Options.ReadBack

/-!
# Vacant trees and empty literals

Whether a tree is vacant is decided on the tree, and what is written of it by its schema. Where the
schema gives no defaults the two say the same: an assigned field is written exactly when its value
is not vacant, at every node, so a tree is vacant exactly when its literal is empty. A collection
with an entry is not vacant even if the entry is, nor is a list, and both are written.
-/

namespace ChartScript

/-- No field of the objects of a schema has a default. -/
def Schema.Defaultless (s : Schema) : Prop :=
  ∀ spec ∈ s.fields, spec.default = none

/-- The schemas of the catalog give no defaults. -/
theorem Catalog.defaultless_of_mem {s : Schema} (h : s ∈ Catalog.all) : s.Defaultless := by
  have hall : (Catalog.all.all fun s => s.fields.all fun spec => spec.default.isNone) = true := by
    decide +kernel
  intro spec hspec
  exact Option.isNone_iff_eq_none.mp (List.all_eq_true.mp (List.all_eq_true.mp hall s h) spec hspec)

/-- An object literal is empty exactly when it has no members. -/
theorem Literal.spell_object_eq_iff {members : List (Key × Literal)} :
    (Literal.object members).spell = "\x7b\x7d" ↔ members = [] := by
  constructor
  · intro h
    cases members with
    | nil => rfl
    | cons member rest =>
      -- a member takes more room than there is between the braces
      have hlength := congrArg (fun text => text.toList.length) h
      simp only [spell, chars, String.toList_ofList, List.length_cons,
        List.length_append] at hlength
      have hbraces : "\x7b\x7d".toList.length = 2 := rfl
      omega
  · rintro rfl
    rfl

namespace Options

variable {options : Options}

/-- A node whose fields ascend is vacant when all values found in it are. -/
theorem isVacant_iff (h : Keyed.Ascending options.entries) :
    options.isVacant = true ↔
      ∀ field value, options.get? field = some value → value.isVacant = true := by
  obtain ⟨schema, entries⟩ := options
  rw [isVacant, entriesVacant_eq_all, List.all_eq_true]
  constructor
  · intro hall field value hget
    exact hall _ (Keyed.mem_of_find?_eq_some hget)
  · rintro hall ⟨field, value⟩ hmem
    exact hall field value (Keyed.find?_of_mem h hmem)

/-- Whether a node is vacant after a field has been assigned. -/
theorem isVacant_store_iff (h : Keyed.Ascending options.entries) {field : String}
    {value : OptionValue} : (options.store field value).isVacant = true ↔
      value.isVacant = true ∧ ∀ other found, other ≠ field → options.get? other = some found →
        found.isVacant = true := by
  rw [isVacant_iff (Keyed.ascending_insert field value h)]
  constructor
  · intro hall
    refine ⟨hall field value (get?_store_self ..), fun other found hne hget => ?_⟩
    exact hall other found ((get?_store_of_ne hne options value).trans hget)
  · rintro ⟨hvalue, hothers⟩ other found hget
    by_cases hne : other = field
    · subst hne
      rw [get?_store_self] at hget
      cases hget
      exact hvalue
    · exact hothers other found hne ((get?_store_of_ne hne options value).symm.trans hget)

/-- What is said for an assigned field. -/
theorem said_of_get? {spec : FieldSpec Schema} {value : OptionValue}
    (hget : options.get? spec.name = some value) :
    options.said spec =
      if value.isVacant then none else some (.field spec.name, value.content) := by
  rw [said, hget]

/-- What is said for a field to which nothing is assigned. -/
theorem said_of_get?_eq_none {spec : FieldSpec Schema} (hget : options.get? spec.name = none) :
    options.said spec = spec.default.map fun value => (.field spec.name, value.literal) := by
  rw [said, hget]

/-- What is said for fields depends on what is assigned to them. -/
theorem filterMap_said_congr {other : Options} {specs : List (FieldSpec Schema)}
    (h : ∀ spec ∈ specs, options.get? spec.name = other.get? spec.name) :
    specs.filterMap options.said = specs.filterMap other.said :=
  List.filterMap_congr fun spec hspec => by rw [said, said, h spec hspec]

/-- A member that is said for an assigned field is said under its name exactly when the value is not
vacant, and holds the content of the value. -/
theorem Fitting.mem_said_iff (h : options.Fitting) (hschema : options.schema.Unrepeated)
    {field : String} {value : OptionValue} (hget : options.get? field = some value)
    (content : Literal) :
    (Key.field field, content) ∈ options.schema.fields.filterMap options.said ↔
      value.isVacant = false ∧ content = value.content := by
  rw [List.mem_filterMap]
  constructor
  · rintro ⟨spec, _, hsaid⟩
    obtain rfl : field = spec.name := Key.field.inj (said_eq_some hsaid).1
    rw [said_of_get? hget] at hsaid
    split at hsaid
    · cases hsaid
    · rename_i hvacant
      cases hsaid
      exact ⟨Bool.eq_false_iff.mpr hvacant, rfl⟩
  · rintro ⟨hvacant, rfl⟩
    obtain ⟨spec, hspec, _⟩ := h _ (Keyed.mem_of_find?_eq_some hget)
    obtain rfl : spec.name = field := Schema.name_of_field? hspec
    refine ⟨spec, Schema.mem_fields_of_field? hschema hspec, ?_⟩
    rw [said_of_get? hget, hvacant, if_neg Bool.false_ne_true]

/-- A fitting node of a schema without defaults is vacant exactly when it has nothing to say. -/
theorem Fitting.isVacant_iff_said_eq_nil (h : options.Fitting) (hordered : options.Ordered)
    (hschema : options.schema.Unrepeated) (hdefaults : options.schema.Defaultless) :
    options.isVacant = true ↔ options.schema.fields.filterMap options.said = [] := by
  rw [isVacant_iff hordered.1, List.filterMap_eq_nil_iff]
  constructor
  · intro hall spec hspec
    cases hget : options.get? spec.name with
    | none => rw [said_of_get?_eq_none hget, hdefaults spec hspec, Option.map_none]
    | some value => rw [said_of_get? hget, if_pos (hall _ _ hget)]
  · intro hall field value hget
    by_contra hvacant
    obtain ⟨spec, hspec, hsaid⟩ := List.mem_filterMap.mp
      ((h.mem_said_iff hschema hget value.content).mpr ⟨Bool.eq_false_iff.mpr hvacant, rfl⟩)
    cases (hall spec hspec).symm.trans hsaid

/-- A well-typed tree over schemas without defaults that repeat no field in a list of their own, as
those of the catalog are, is vacant exactly when its text is the empty literal; and at every node of
it, an assigned field is a member of the literal exactly when its value is not vacant, and then the
member is the literal of the value. -/
theorem isVacant_iff_render_eq_empty :
    (∀ schema ∈ Catalog.all, schema.Unrepeated ∧ schema.Defaultless) ∧
      ∀ options : Options,
        options.WellTypedOver (fun schema => schema.Unrepeated ∧ schema.Defaultless) →
          (options.isVacant = true ↔ options.render = .ok "\x7b\x7d") ∧
            options.All fun node => ∃ members, node.literal = .ok (.object members) ∧
              ∀ field value, node.get? field = some value →
                (Key.field field ∈ members.map (·.1) ↔ value.isVacant = false) ∧
                  ∀ content, (Key.field field, content) ∈ members →
                    value.literal field = .ok content := by
  refine ⟨fun schema hschema => ⟨(Catalog.repeatFree_of_mem hschema).unrepeated,
    Catalog.defaultless_of_mem hschema⟩, fun options h => ⟨?_, ?_⟩⟩
  · obtain ⟨⟨hschema, hdefaults⟩, hordered, hfitting⟩ := h.here
    rw [(h.mono fun _ => And.left).render_eq_ok, Except.ok.injEq, content_eq_object,
      Literal.spell_object_eq_iff]
    exact hfitting.isVacant_iff_said_eq_nil hordered hschema hdefaults
  · induction h with
    | @intro node here below ih =>
      have hnode : node.WellTypedOver Schema.Unrepeated :=
        WellTypedOver.mono (fun _ => And.left) (.intro here below)
      obtain ⟨⟨hschema, _⟩, _, hfitting⟩ := here
      refine .intro ⟨_, hnode.literal_eq_ok.trans (congrArg _ node.content_eq_object), ?_⟩ ih
      intro field value hget
      have hmem := hfitting.mem_said_iff hschema hget
      refine ⟨?_, fun content hcontent => ?_⟩
      · rw [List.mem_map]
        constructor
        · rintro ⟨⟨key, content⟩, hcontent, rfl⟩
          exact ((hmem content).mp hcontent).1
        · intro hvacant
          exact ⟨_, (hmem value.content).mpr ⟨hvacant, rfl⟩, rfl⟩
      · obtain ⟨_, rfl⟩ := (hmem content).mp hcontent
        obtain ⟨spec, _, hfits⟩ := hfitting _ (Keyed.mem_of_find?_eq_some hget)
        refine OptionValue.literal_eq_ok hfits (fun child hchild => ?_) field
        exact WellTypedOver.literal_eq_ok (hnode.of_mem (mem_children_of_get? hget hchild))

/-- A line chart below which the horizontal axis has been opened, and nothing assigned. -/
def openedLine : Options :=
  (Options.empty Catalog.lineChart).store "hAxis" (.object (.empty Catalog.hAxis))

/-- The same with a series opened, and nothing assigned to that either. -/
def openedSeries : Options :=
  openedLine.store "series" (.indexed [(0, .empty Catalog.series)])

/-- With the axis alone the chart is vacant and its text empty. With the series it is neither: the
collection is a member, and the axis is none. -/
theorem isVacant_iff_render_eq_empty_opened :
    (openedLine.isVacant = true ∧ openedLine.render = .ok "\x7b\x7d") ∧
      (openedSeries.isVacant = false ∧ openedSeries.render ≠ .ok "\x7b\x7d") ∧
        ∃ members, openedSeries.literal = .ok (.object members) ∧
          Key.field "series" ∈ members.map (·.1) ∧ Key.field "hAxis" ∉ members.map (·.1) := by
  obtain ⟨hcatalog, hvacant⟩ := isVacant_iff_render_eq_empty
  have hempty {schema : Schema} (hschema : schema ∈ Catalog.all) :
      (Options.empty schema).WellTypedOver fun schema => schema.Unrepeated ∧ schema.Defaultless :=
    .empty (hcatalog schema hschema)
  have hline : openedLine.WellTypedOver fun schema => schema.Unrepeated ∧ schema.Defaultless :=
    (hempty (by simp [Catalog.all])).store rfl rfl (.object (hempty (by simp [Catalog.all])))
  have hseries : openedSeries.WellTypedOver fun schema => schema.Unrepeated ∧ schema.Defaultless :=
    hline.store rfl rfl (.indexed_insert .indexed_nil 0 (hempty (by simp [Catalog.all])))
  obtain ⟨hiff, hnodes⟩ := hvacant _ hseries
  obtain ⟨members, hliteral, hmembers⟩ := hnodes.here
  refine ⟨⟨rfl, (hvacant _ hline).1.mp rfl⟩, ⟨rfl, fun h => ?_⟩, members, hliteral,
    (hmembers "series" _ rfl).1.mpr rfl, fun h => ?_⟩
  · cases hiff.mpr h
  · cases (hmembers "hAxis" _ rfl).1.mp h

end Options

end ChartScript
