import ChartScript.Proofs.Options.Replacement

/-!
# Vacant values and unset fields

A vacant value is left out when its node is written, and so is an unset field, unless it has a
default: the default is written where nothing is assigned, and a value that is assigned stands in
its way even if it is vacant itself. So a tree with a vacant value has the text of the tree without
it, if the field has no default or if the node of the field is not written; otherwise the second
tree has one member more, and the texts differ.
-/

namespace ChartScript

/-- An object literal is longer with one more member in it. -/
theorem Literal.length_chars_object_lt (before after : List (Key × Literal))
    (member : Key × Literal) :
    (Literal.object (before ++ after)).chars.length <
      (Literal.object (before ++ member :: after)).chars.length := by
  cases before with
  | nil =>
    cases after with
    | nil =>
      simp only [chars, List.nil_append, List.length_cons, List.length_append]
      omega
    | cons next rest =>
      simp only [chars, restMemberChars, List.nil_append, List.length_cons, List.length_append]
      omega
  | cons first rest =>
    simp only [chars, restMemberChars, restMemberChars_append, List.cons_append, List.length_cons,
      List.length_append]
    omega

/-- A value that fits what look-up gives for a field stands for a declaration of the resolved list,
and fits it if the schema repeats no field. -/
theorem Schema.exists_fits_resolved {s : Schema} {declared : FieldSpec Schema} {field : String}
    {value : OptionValue} (hdeclared : s.field? field = some declared)
    (hfits : value.fits declared.kind = true) :
    ∃ spec ∈ s.fields, spec.name = field ∧ (s.Unrepeated → value.fits spec.kind = true) := by
  obtain ⟨spec, hspec, rfl⟩ := Schema.exists_mem_fields_of_field? hdeclared
  refine ⟨spec, hspec, rfl, fun hschema => ?_⟩
  rw [Schema.field?_of_mem_fields hschema hspec, Option.some.injEq] at hdeclared
  rwa [hdeclared]

namespace Options

/-- Two nodes of one schema differ in one field: the first holds a vacant value there, and nothing
is assigned to the field of the second. -/
structure VacantIn (full bare : Options) (field : String) (value : OptionValue) : Prop where
  schema : bare.schema = full.schema
  ascending : Keyed.Ascending full.entries ∧ Keyed.Ascending bare.entries
  held : full.get? field = some value
  vacant : value.isVacant = true
  unset : bare.get? field = none
  others : ∀ other, other ≠ field → bare.get? other = full.get? other

variable {options node full bare : Options} {steps : List Step} {field : String}
  {value : OptionValue} {spec : FieldSpec Schema}

/-- Removing a vacant value makes such a pair of nodes. -/
theorem Ordered.vacantIn_unset (h : node.Ordered) (hget : node.get? field = some value)
    (hvacant : value.isVacant = true) : VacantIn node (node.unset field) field value where
  schema := rfl
  ascending := ⟨h.1, Keyed.ascending_erase field h.1⟩
  held := hget
  vacant := hvacant
  unset := Keyed.find?_erase_self h.1
  others _ hne := Keyed.find?_erase_of_ne hne node.entries

/-- So does assigning a vacant value. -/
theorem Ordered.vacantIn_store (h : node.Ordered) (hget : node.get? field = none)
    (hvacant : value.isVacant = true) : VacantIn (node.store field value) node field value where
  schema := rfl
  ascending := ⟨Keyed.ascending_insert field value h.1, h.1⟩
  held := get?_store_self node field value
  vacant := hvacant
  unset := hget
  others _ hne := (get?_store_of_ne hne node value).symm

namespace VacantIn

/-- The nodes are equally vacant. -/
theorem isVacant_eq (h : VacantIn full bare field value) : full.isVacant = bare.isVacant := by
  rw [Bool.eq_iff_iff, isVacant_iff h.ascending.1, isVacant_iff h.ascending.2]
  constructor
  · intro hall other found hget
    have hne : other ≠ field := by
      rintro rfl
      cases h.unset.symm.trans hget
    exact hall other found ((h.others other hne).symm.trans hget)
  · intro hall other found hget
    by_cases hne : other = field
    · subst hne
      obtain rfl := Option.some.inj (h.held.symm.trans hget)
      exact h.vacant
    · exact hall other found ((h.others other hne).trans hget)

/-- Without a default they are written alike. -/
theorem literal_eq (h : VacantIn full bare field value) (hspec : spec ∈ full.schema.fields)
    (hname : spec.name = field) (hfits : value.fits spec.kind = true)
    (hdefault : spec.default = none) : full.literal = bare.literal := by
  rw [Options.literal_eq, Options.literal_eq, h.schema, members_congr fun other hother => ?_]
  by_cases hne : other.name = field
  · have hfound := Schema.find?_fields_eq_some_iff.mpr ⟨hother, hne⟩
    rw [Schema.find?_fields_eq_some_iff.mpr ⟨hspec, hname⟩] at hfound
    obtain rfl := Option.some.inj hfound
    subst hne
    have hheld := h.held
    have hunset := h.unset
    rw [get?] at hheld hunset
    simp only [member, find?_fieldLiterals, hheld, hunset, Option.map_some, Option.map_none,
      FieldSpec.check, hfits, h.vacant, hdefault, if_true]
    rfl
  · exact member_congr (h.others other.name hne).symm

/-- With a default the second node has one member more. -/
theorem length_content_lt (h : VacantIn full bare field value) (hspec : spec ∈ full.schema.fields)
    (hname : spec.name = field) (hdefault : spec.default ≠ none) :
    full.content.chars.length < bare.content.chars.length := by
  subst hname
  obtain ⟨before, after, hfields, hbefore, hafter⟩ := Schema.exists_fields_append hspec
  obtain ⟨default, hdefault⟩ := Option.ne_none_iff_exists'.mp hdefault
  have hothers {specs : List (FieldSpec Schema)} (hne : ∀ other ∈ specs, other.name ≠ spec.name) :
      specs.filterMap bare.said = specs.filterMap full.said :=
    filterMap_said_congr fun other hother => h.others other.name (hne other hother)
  have hfull : full.said spec = none := by
    rw [said_of_get? h.held, if_pos h.vacant]
  have hbare : bare.said spec = some (.field spec.name, default.literal) := by
    rw [said_of_get?_eq_none h.unset, hdefault, Option.map_some]
  rw [content_eq_object, content_eq_object, h.schema, hfields, List.filterMap_append,
    List.filterMap_append, List.filterMap_cons_none hfull, List.filterMap_cons_some hbare,
    hothers hbefore, hothers hafter]
  exact Literal.length_chars_object_lt _ _ _

/-- In one place of a tree they give the same text or error, if the field has no default or the
nodes are not written there. -/
theorem render_eq (h : VacantIn full bare field value) (hwell : options.WellTyped)
    (hnode : options.descend? steps = some node) (hspec : spec ∈ full.schema.fields)
    (hname : spec.name = field) (hfits : value.fits spec.kind = true)
    (hleft : spec.default = none ∨ ¬ full.ShownAt steps) :
    (options.replaceAt steps full).render = (options.replaceAt steps bare).render := by
  have halike := hwell.looksLike_replaceAt hnode h.schema.symm h.isVacant_eq
    (hleft.imp_left (h.literal_eq hspec hname hfits))
  rw [render, render, halike.literal]

/-- They give different texts, if the field has a default and the nodes are written. -/
theorem render_ne (h : VacantIn full bare field value) (hwell : options.WellTyped)
    (hnode : options.descend? steps = some node) (hspec : spec ∈ full.schema.fields)
    (hname : spec.name = field) (hdefault : spec.default ≠ none) (hshown : full.ShownAt steps)
    {text : String} (hfull : (options.replaceAt steps full).render = .ok text) :
    (options.replaceAt steps bare).render ≠ .ok text := by
  intro hbare
  obtain ⟨pre, post, hchars⟩ := hwell.exists_chars_replaceAt hnode
  have hshown' : bare.ShownAt steps := fun name hlast => h.isVacant_eq ▸ hshown name hlast
  have hspell := (eq_spell_of_render hfull).symm.trans (eq_spell_of_render hbare)
  have hsame := String.ofList_injective hspell
  rw [(hchars full hshown).1, (hchars bare hshown').1] at hsame
  have hlength := congrArg List.length hsame
  have hlt := h.length_content_lt hspec hname hdefault
  simp only [List.length_append] at hlength
  omega

end VacantIn

/-- What the text of a tree shows of a vacant value in a field of the node that steps lead to, by
the declaration of the field: `other` is the tree without the value, or the tree with it. -/
structure CountsAsUnset (options other : Options) (steps : List Step) (node : Options)
    (spec : FieldSpec Schema) : Prop where
  /-- Nothing, if the field has no default or the node is not written. -/
  render_eq : spec.default = none ∨ ¬ node.ShownAt steps → other.render = options.render
  /-- That the default is not written, if there is one and the node is. -/
  render_ne : spec.default ≠ none → node.ShownAt steps →
    ∀ text, options.render = .ok text → other.render ≠ .ok text

/-- A vacant value counts as unset when it is removed. -/
theorem VacantIn.countsAsUnset (h : VacantIn node bare field value) (hwell : options.WellTyped)
    (hnode : options.descend? steps = some node) (hspec : spec ∈ node.schema.fields)
    (hname : spec.name = field) (hfits : value.fits spec.kind = true) :
    CountsAsUnset options (options.replaceAt steps bare) steps node spec := by
  have hself := hwell.replaceAt_self hnode
  refine ⟨fun hleft => ?_, fun hdefault hshown text htext => ?_⟩
  · rw [← h.render_eq hwell hnode hspec hname hfits hleft, hself]
  · exact h.render_ne hwell hnode hspec hname hdefault hshown (hself.symm ▸ htext)

/-- And when it is assigned. -/
theorem VacantIn.countsAsUnset_full (h : VacantIn full node field value) (hwell : options.WellTyped)
    (hnode : options.descend? steps = some node) (hspec : spec ∈ node.schema.fields)
    (hname : spec.name = field) (hfits : value.fits spec.kind = true) :
    CountsAsUnset options (options.replaceAt steps full) steps node spec := by
  have hself := hwell.replaceAt_self hnode
  have hshown : full.ShownAt steps ↔ node.ShownAt steps := by
    rw [ShownAt, ShownAt, h.isVacant_eq]
  rw [h.schema] at hspec
  refine ⟨fun hleft => ?_, fun hdefault hnodeShown text htext hfull => ?_⟩
  · rw [← hshown] at hleft
    rw [h.render_eq hwell hnode hspec hname hfits hleft, hself]
  · exact h.render_ne hwell hnode hspec hname hdefault (hshown.mpr hnodeShown) hfull
      (hself.symm ▸ htext)

/-- In a well-typed tree, a vacant value that is assigned to a field, in any node, counts as unset:
if the field has no default or its node is not written, the tree without the value has the same text
or the same error. A default is kept from being written by the value, and then the texts differ. The
same holds of opening an object in an unset field. Only that the value fits the resolved declaration
is required, which it does in trees over schemas that repeat no field in a list of their own. -/
theorem vacant_counts_as_unset :
    (∀ (options : Options) (steps : List Step) (node : Options) (field : String)
        (value : OptionValue), options.WellTyped → options.descend? steps = some node →
      node.get? field = some value → value.isVacant = true →
        ∃ spec ∈ node.schema.fields, spec.name = field ∧
          (value.fits spec.kind = true →
            CountsAsUnset options (options.replaceAt steps (node.unset field)) steps node spec) ∧
          (options.WellTypedOver Schema.Unrepeated →
            value.fits spec.kind = true ∧ ∃ text, options.render = .ok text)) ∧
      ∀ (options : Options) (steps : List Step) (node : Options) (field : String)
        (entered child : Options), options.WellTyped → options.descend? steps = some node →
      node.get? field = none → node.enter (.object field) = .ok (entered, child) →
        ∃ spec ∈ node.schema.fields, spec.name = field ∧
          ((OptionValue.object child).fits spec.kind = true →
            CountsAsUnset options (options.replaceAt steps entered) steps node spec) ∧
          (options.WellTypedOver Schema.Unrepeated →
            (OptionValue.object child).fits spec.kind = true ∧
              ∃ text, options.render = .ok text) := by
  constructor
  · intro options steps node field value hwell hnode hget hvacant
    obtain ⟨hordered, hfitting⟩ := (All.of_descend? hwell hnode).here
    obtain ⟨declared, hdeclared, hfits⟩ := hfitting _ (Keyed.mem_of_find?_eq_some hget)
    obtain ⟨spec, hspec, hname, hresolved⟩ := Schema.exists_fits_resolved hdeclared hfits
    have hpair := hordered.vacantIn_unset hget hvacant
    exact ⟨spec, hspec, hname, hpair.countsAsUnset hwell hnode hspec hname, fun hover =>
      ⟨hresolved (All.of_descend? hover hnode).here.1, _, hover.render_eq_ok⟩⟩
  · intro options steps node field entered child hwell hnode hget henter
    obtain ⟨hordered, _⟩ := (All.of_descend? hwell hnode).here
    obtain ⟨opened, hreach, hentered⟩ := bind_eq_ok.mp henter
    obtain ⟨declared, schema, hdeclared, hopens, hopened⟩ := exists_opens_of_reach hreach
    obtain ⟨rfl, rfl⟩ := Prod.mk.inj (Except.ok.inj hentered)
    change node.schema.field? field = _ at hdeclared
    have hempty : opened = .empty schema := by
      rw [hopened, nodeAt, objectAt, hget]
    have hvacant : (OptionValue.object opened).isVacant = true := by
      rw [hempty]
      rfl
    have hisA : opened.schema.isA schema = true := by
      rw [hempty]
      exact Schema.isA_self schema
    obtain ⟨spec, hspec, hname, hresolved⟩ := Schema.exists_fits_resolved hdeclared
      (OptionValue.fits_object hopens hisA)
    have hpair := hordered.vacantIn_store hget hvacant
    exact ⟨spec, hspec, hname, hpair.countsAsUnset_full hwell hnode hspec hname, fun hover =>
      ⟨hresolved (All.of_descend? hover hnode).here.1, _, hover.render_eq_ok⟩⟩

/-- Line charts on a white background, if no other is assigned. -/
def whiteLine : Schema :=
  ⟨.custom 0, "WhiteLine", some Catalog.lineChart,
    [⟨"backgroundColor", .scalarOrObject .text Catalog.stroke, some (.text "white")⟩]⟩

/-- Such a chart with its background opened, and nothing assigned to that. -/
def openedBackground : Options :=
  (Options.empty whiteLine).store "backgroundColor" (.object (.empty Catalog.stroke))

/-- Line charts on a white background repeat no field. -/
theorem wellTypedOver_whiteLine : (Options.empty whiteLine).WellTypedOver Schema.Unrepeated := by
  refine .empty fun t ht => ?_
  rcases List.mem_cons.mp ht with rfl | hbase
  · decide
  · exact (Catalog.repeatFree_of_mem (by simp [Catalog.all])).unrepeated t hbase

/-- The chart with an opened background is well-typed. -/
theorem wellTypedOver_openedBackground : openedBackground.WellTypedOver Schema.Unrepeated :=
  wellTypedOver_whiteLine.store rfl rfl
    (.object (.empty (Catalog.repeatFree_of_mem (by simp [Catalog.all])).unrepeated))

/-- Lines whose stroke is declared twice, for an object and for the name of a colour. -/
def twiceStroked : Schema :=
  ⟨.custom 1, "TwiceStroked", none, [Catalog.object "stroke" Catalog.stroke, Catalog.text "stroke"]⟩

/-- Such a line with its stroke opened. -/
def openedStroke : Options :=
  (Options.empty twiceStroked).store "stroke" (.object (.empty Catalog.stroke))

/-- The line with an opened stroke is well-typed, by the first declaration of the stroke. -/
theorem wellTyped_openedStroke : openedStroke.WellTyped :=
  have hempty (schema : Schema) : (Options.empty schema).WellTypedOver fun _ => True :=
    .empty trivial
  ((hempty twiceStroked).store rfl rfl (.object (hempty Catalog.stroke))).wellTyped

/-- A vacant value does not count as unset where it keeps a default from being written: the text has
the white background once the opened one is removed, and loses it by opening one. Nor does it
without defaults, where its field is declared twice and the tree is refused for it. -/
theorem not_vacant_counts_as_unset :
    (¬ ∀ (options : Options) (steps : List Step) (node : Options) (field : String)
        (value : OptionValue), options.WellTyped → options.descend? steps = some node →
      node.get? field = some value → value.isVacant = true →
        (options.replaceAt steps (node.unset field)).render = options.render) ∧
      (¬ ∀ (options : Options) (steps : List Step) (node : Options) (field : String)
        (entered child : Options), options.WellTyped → options.descend? steps = some node →
      node.get? field = none → node.enter (.object field) = .ok (entered, child) →
        (options.replaceAt steps entered).render = options.render) ∧
      ¬ ∀ (options : Options) (steps : List Step) (node : Options) (field : String)
        (value : OptionValue), options.WellTyped → options.descend? steps = some node →
      node.schema.Defaultless → node.get? field = some value → value.isVacant = true →
        (options.replaceAt steps (node.unset field)).render = options.render := by
  have hopened : openedBackground.render.toOption = some "\x7b\x7d" := by decide +kernel
  have hwhite : (Options.empty whiteLine).render.toOption =
      some "\x7bbackgroundColor:\"white\"\x7d" := by
    decide +kernel
  refine ⟨fun hunset => ?_, fun hopen => ?_, fun hunset => ?_⟩
  · have hsame : (Options.empty whiteLine).render = openedBackground.render :=
      hunset openedBackground [] _ "backgroundColor" _
        wellTypedOver_openedBackground.wellTyped rfl rfl rfl
    rw [hsame, hopened] at hwhite
    exact absurd hwhite (by decide)
  · have hsame : openedBackground.render = (Options.empty whiteLine).render :=
      hopen (.empty whiteLine) [] _ "backgroundColor" openedBackground _
        wellTypedOver_whiteLine.wellTyped rfl rfl rfl
    rw [hsame, hwhite] at hopened
    exact absurd hopened (by decide)
  · have hdefaults : twiceStroked.Defaultless := fun spec hspec => by
      cases List.mem_singleton.mp (show spec ∈ [Catalog.text "stroke"] from hspec)
      rfl
    have hsame : (Options.empty twiceStroked).render = openedStroke.render :=
      hunset openedStroke [] _ "stroke" _ wellTyped_openedStroke rfl hdefaults rfl rfl
    have hwritten : (Options.empty twiceStroked).render.isOk = true := rfl
    have hrefused : openedStroke.render.isOk = false := rfl
    rw [hsame, hrefused] at hwritten
    cases hwritten

/-- A line chart with an opened axis and an opened series is well-typed. -/
theorem wellTypedOver_openedSeries : openedSeries.WellTypedOver Schema.Unrepeated := by
  have hempty {schema : Schema} (hschema : schema ∈ Catalog.all) :
      (Options.empty schema).WellTypedOver Schema.Unrepeated :=
    .empty (Catalog.repeatFree_of_mem hschema).unrepeated
  have hline : openedLine.WellTypedOver Schema.Unrepeated :=
    (hempty (by simp [Catalog.all])).store rfl rfl (.object (hempty (by simp [Catalog.all])))
  exact hline.store rfl rfl (.indexed_insert .indexed_nil 0 (hempty (by simp [Catalog.all])))

/-- Removing the opened axis of a chart does not show, and neither does opening the annotations of
its series; removing an opened background does, because its field has a default. -/
theorem vacant_counts_as_unset_opened :
    (openedSeries.unset "hAxis").render = openedSeries.render ∧
      (Edit.runAll (Edit.along [.entry "series" 0] [.within (.object "annotations") []])
        openedSeries).render = openedSeries.render ∧
        (openedBackground.unset "backgroundColor").render ≠ openedBackground.render := by
  obtain ⟨hremoved, hentered⟩ := vacant_counts_as_unset
  have hwell := wellTypedOver_openedSeries.wellTyped
  refine ⟨?_, ?_, ?_⟩
  · obtain ⟨spec, hspec, -, hcounts, hover⟩ := hremoved openedSeries [] openedSeries "hAxis" _
      hwell rfl rfl rfl
    exact (hcounts (hover wellTypedOver_openedSeries).1).render_eq
      (.inl (Catalog.defaultless_of_mem (s := Catalog.lineChart) (by simp [Catalog.all]) _ hspec))
  · obtain ⟨spec, hspec, -, hcounts, hover⟩ := hentered openedSeries [.entry "series" 0]
      (.empty Catalog.series) "annotations" _ _ hwell rfl rfl rfl
    rw [hwell.runAll_along rfl (by simp)]
    exact (hcounts (hover wellTypedOver_openedSeries).1).render_eq
      (.inl (Catalog.defaultless_of_mem (s := Catalog.series) (by simp [Catalog.all]) _ hspec))
  · obtain ⟨spec, hspec, hname, hcounts, hover⟩ := hremoved openedBackground [] openedBackground
      "backgroundColor" _ wellTypedOver_openedBackground.wellTyped rfl rfl rfl
    obtain ⟨hfits, text, htext⟩ := hover wellTypedOver_openedBackground
    have hdefault : spec.default ≠ none := by
      have hfound := Schema.find?_fields_eq_some_iff.mpr ⟨hspec, hname⟩
      rintro hnone
      cases hfound
      cases hnone
    rw [htext]
    exact (hcounts hfits).render_ne hdefault (shownAt_nil _) text htext

end Options

end ChartScript
