import ChartScript.Proofs.Options.Address
import ChartScript.Proofs.Options.Conforming
import ChartScript.Proofs.Options.LabelledForm
import Mathlib.Data.List.Dedup

/-!
# Entries of imported collections

Where a labelled collection stands in an imported tree, the JSON has at the same address what it was
read from: an object whose keys are labels, or an array, whose items stand under their positions. An
entry is read from the last member whose key denotes its label. Keys of different text may denote
one label, as `1` and `+1` do, and what stands under the earlier key is then lost without an error.
So there are as many entries as members exactly when no two keys denote one label, and an array
loses none of its items.
-/

namespace ChartScript

namespace Json

/-- The value of a field of an object. -/
def get? (field : String) : Json → Option Json
  | .object members => member? field members
  | _ => none

/-- The members that a labelled collection is read from; items stand under their positions. -/
def entryMembers : Json → List (String × Json)
  | .object members => members
  | .array items => Options.numbered 0 items
  | _ => []

/-- The labels that the keys of a collection denote. -/
def entryLabels (json : Json) : List UInt32 :=
  json.entryMembers.filterMap fun member => Label.ofText? member.1

/-- What stands under a label of a collection: the value of the last member whose key denotes it. -/
def labelled? (label : UInt32) (json : Json) : Option Json :=
  (json.entryMembers.findRev? fun member => Label.ofText? member.1 = some label).map (·.2)

/-- What the node that a step leads to is read from, in the value of its field. -/
def under? : Step → Json → Option Json
  | .object _, json => some json
  | .entry _ label, json => json.labelled? label
  | .item _ position, .array items => items[position]?
  | .item .., _ => none

/-- What the node that a step leads to is read from. -/
def below? (json : Json) (step : Step) : Option Json :=
  (json.get? step.field).bind (under? step)

/-- What the node that steps lead to one after another is read from. -/
def descend? (json : Json) : List Step → Option Json
  | [] => some json
  | step :: rest => (json.below? step).bind fun inner => inner.descend? rest

/-- What the value at an address is read from. -/
def source? (json : Json) (a : Address) : Option Json :=
  (json.descend? a.steps).bind (get? a.field)

/-- Items under their positions are the items. -/
theorem map_snd_numbered (position : Nat) (items : List Json) :
    (Options.numbered position items).map (·.2) = items := by
  induction items generalizing position with
  | nil => rfl
  | cons item rest ih => rw [Options.numbered, List.map_cons, ih]

/-- Under the label of a position stands the item at the position. -/
theorem labelled?_array (items : List Json) (label : UInt32) :
    (array items).labelled? label = items[label.toNat]? := by
  have hfrom : ∀ (items : List Json) (position : Nat),
      ((Options.numbered position items).findRev? fun member =>
        Label.ofText? member.1 = some label).map (·.2) =
        if position ≤ label.toNat then items[label.toNat - position]? else none := by
    intro items
    induction items with
    | nil => simp [Options.numbered]
    | cons item rest ih =>
      intro position
      rw [Options.numbered, List.findRev?_eq_find?_reverse, List.reverse_cons, List.find?_append,
        Option.map_or, ← List.findRev?_eq_find?_reverse, ih]
      simp only [List.find?_singleton, Label.ofText?_text_eq_some, decide_eq_true_eq]
      rcases Nat.lt_trichotomy position label.toNat with hlt | heq | hgt
      · have hindex : label.toNat - position = label.toNat - (position + 1) + 1 := by omega
        rw [if_pos (by omega), if_neg hlt.ne', if_pos hlt.le, hindex, List.getElem?_cons_succ]
        exact Option.or_none
      · rw [if_neg (by omega), if_pos heq.symm, if_pos heq.le, heq, Nat.sub_self]
        rfl
      · rw [if_neg (by omega), if_neg hgt.ne, if_neg (by omega)]
        rfl
  exact hfrom items 0

/-- The labels of an array are its positions. -/
theorem map_toNat_labels_numbered {position : Nat} {items : List Json}
    (h : ∀ member ∈ Options.numbered position items, (Label.ofText? member.1).isSome = true) :
    ((Options.numbered position items).filterMap fun member => Label.ofText? member.1).map
      UInt32.toNat = List.range' position items.length := by
  induction items generalizing position with
  | nil => rfl
  | cons item rest ih =>
    obtain ⟨hfirst, hrest⟩ := List.forall_mem_cons.mp h
    obtain ⟨label, hlabel⟩ := Option.isSome_iff_exists.mp hfirst
    have hstep : ((Options.numbered position (item :: rest)).filterMap fun member =>
        Label.ofText? member.1) = label :: (Options.numbered (position + 1) rest).filterMap
          fun member => Label.ofText? member.1 := List.filterMap_cons_some hlabel
    rw [hstep, List.map_cons, ih hrest, Label.toNat_of_ofText?_text hlabel]
    rfl

/-- Something stands under each label of a collection. -/
theorem isSome_labelled? {json : Json} {label : UInt32} :
    (json.labelled? label).isSome = true ↔ label ∈ json.entryLabels := by
  rw [labelled?, Option.isSome_map, List.findRev?_eq_find?_reverse, List.isSome_find?,
    List.any_reverse, List.any_eq_true, entryLabels, List.mem_filterMap]
  simp only [decide_eq_true_eq]

/-- No field of an object that repeats no key holds JSON that does. -/
theorem Distinct.get? {json inner : Json} (h : json.Distinct) {field : String}
    (hinner : json.get? field = some inner) : inner.Distinct := by
  cases h with
  | object _ h => exact h _ (Keyed.mem_of_find?_eq_some hinner)
  | _ => cases hinner

/-- Nor does anything that a step leads to. -/
theorem Distinct.below? {json inner : Json} (h : json.Distinct) {step : Step}
    (hinner : json.below? step = some inner) : inner.Distinct := by
  obtain ⟨value, hvalue, hinner⟩ := Option.bind_eq_some_iff.mp hinner
  have hdistinct := h.get? hvalue
  cases step with
  | object field =>
    obtain rfl := Option.some.inj hinner
    exact hdistinct
  | entry field label =>
    obtain ⟨member, hmember, rfl⟩ := Option.map_eq_some_iff.mp hinner
    rw [List.findRev?_eq_find?_reverse] at hmember
    have hmember := List.mem_reverse.mp (List.mem_of_find?_eq_some hmember)
    cases hdistinct with
    | object _ h => exact h member hmember
    | array h =>
      have hvalue := List.mem_map_of_mem (f := fun member => member.2) hmember
      rw [entryMembers, map_snd_numbered] at hvalue
      exact h member.2 hvalue
    | _ => exact absurd hmember List.not_mem_nil
  | item field position =>
    cases hdistinct with
    | array h => exact h inner (List.mem_of_getElem? hinner)
    | _ => cases hinner

end Json

namespace Options

variable {spec : FieldSpec Schema} {declared : Schema} {members : List (String × Json)}
  {before entries : List (UInt32 × Options)}

/-- An entry is read from the last member whose key denotes its label, or was there before. -/
theorem find?_of_entriesOfMembers (h : entriesOfMembers spec declared before members = .ok entries)
    (label : UInt32) :
    (Keyed.find? label entries).map Except.ok =
      ((members.findRev? fun member => Label.ofText? member.1 = some label).map
        fun member => ofJson declared member.2).or ((Keyed.find? label before).map Except.ok) := by
  induction members generalizing before with
  | nil =>
    cases h
    rfl
  | cons member rest ih =>
    obtain ⟨key, json⟩ := member
    obtain ⟨found, node, hfound, hnode, h⟩ := entriesOfMembers_cons_eq_ok.mp h
    rw [ih h, List.findRev?_eq_find?_reverse, List.findRev?_eq_find?_reverse, List.reverse_cons,
      List.find?_append, Option.map_or, Option.or_assoc]
    congr 1
    by_cases hlabel : label = found
    · subst hlabel
      simp [Keyed.find?_insert_self, hfound, hnode]
    · rw [Keyed.find?_insert_of_ne hlabel]
      simp [hfound, Ne.symm hlabel]

/-- An entry of a collection is read from what stands under its label. -/
theorem find?_of_collection {json : Json}
    (h : entriesOfMembers spec declared [] json.entryMembers = .ok entries) (label : UInt32) :
    (Keyed.find? label entries).map Except.ok = (json.labelled? label).map (ofJson declared) := by
  rw [find?_of_entriesOfMembers h, Json.labelled?, Option.map_map]
  exact Option.or_none

/-- An object in a list is read from its item. -/
theorem ofJson_of_objectOfItem {schema : Schema} {item : Json} {object : OptionValue}
    {node : Options} (h : objectOfItem schema item = .ok object)
    (hnode : object.object? = some node) : ofJson schema item = .ok node := by
  unfold objectOfItem at h
  split at h
  · cases h
    cases hnode
  · obtain ⟨found, hfound, rfl⟩ := map_eq_ok.mp h
    obtain rfl := Option.some.inj hnode
    exact hfound

/-- A value in a tree that members are imported into is read from the member of its field, if the
field was unset before and no key is repeated. -/
theorem exists_member_of_get? {options changed : Options}
    (h : ofMembers options members = .ok changed) (hkeys : (members.map (·.1)).Nodup)
    {field : String} (hnew : options.get? field = none) {value : OptionValue}
    (hvalue : changed.get? field = some value) :
    ∃ inner spec, Json.member? field members = some inner ∧ valueOfJson spec inner = .ok value := by
  induction members generalizing options with
  | nil =>
    cases h
    rw [hnew] at hvalue
    cases hvalue
  | cons member rest ih =>
    obtain ⟨key, json⟩ := member
    obtain ⟨hkey, hrest⟩ := List.nodup_cons.mp hkeys
    obtain ⟨spec, _, hmember⟩ := ofMembers_cons_eq_ok.mp h
    by_cases hfield : key = field
    · subst hfield
      -- no later member has the key, so what is stored for this one stays
      have hunset : ∀ member ∈ rest, member.1 = key → member.2 = .null := fun member hmember heq =>
        absurd (List.mem_map.mpr ⟨member, hmember, heq⟩) hkey
      rcases hmember with ⟨_, h⟩ | ⟨_, stored, hstored, _, h⟩
      · rw [get?_of_ofMembers h hunset, hnew] at hvalue
        cases hvalue
      · rw [get?_of_ofMembers h hunset, get?_store_self] at hvalue
        obtain rfl := Option.some.inj hvalue
        exact ⟨json, spec, if_pos Std.ReflCmp.compare_self, hstored⟩
    · have hother : Json.member? field ((key, json) :: rest) = Json.member? field rest :=
        if_neg fun heq => hfield (Std.LawfulEqOrd.eq_of_compare heq).symm
      rw [hother]
      rcases hmember with ⟨_, h⟩ | ⟨_, stored, _, _, h⟩
      · exact ih h hrest hnew
      · exact ih h hrest ((get?_store_of_ne (Ne.symm hfield) options stored).trans hnew)

/-- A value in an imported tree is read from the value of its field in JSON without repeated keys.
-/
theorem exists_get?_of_ofJson {schema : Schema} {json : Json} {tree : Options}
    (hdistinct : json.Distinct) (h : ofJson schema json = .ok tree) {field : String}
    {value : OptionValue} (hvalue : tree.get? field = some value) :
    ∃ inner spec, json.get? field = some inner ∧ valueOfJson spec inner = .ok value := by
  cases hdistinct with
  | object hkeys _ =>
    rw [ofJson] at h
    exact exists_member_of_get? h hkeys rfl hvalue
  | _ => simp [ofJson, misshapen] at h

/-- A list of single values has no nodes below its items. -/
theorem nodes_of_mapM_markedScalarOfJson {field : String} {kind : ScalarKind} {items : List Json}
    {values : List OptionValue} (h : items.mapM (markedScalarOfJson field kind) = .ok values) :
    (OptionValue.list values).nodes = [] := by
  refine List.eq_nil_iff_forall_not_mem.mpr fun node hnode => ?_
  obtain ⟨value, hvalue, hnode⟩ := OptionValue.mem_nodes_list.mp hnode
  obtain ⟨item, _, hread⟩ := exists_mem_of_mapM_eq_ok h hvalue
  unfold markedScalarOfJson at hread
  split at hread
  · cases hread
    exact List.not_mem_nil hnode
  · rcases single_of_scalarOfJson hread with ⟨_, rfl⟩ | ⟨_, rfl⟩ | ⟨_, rfl⟩ | ⟨_, rfl⟩ <;>
      exact List.not_mem_nil hnode

/-- What an imported value is read from: JSON that stands for an object, for a labelled collection
or for a list of objects, or something without nodes. -/
inductive ReadFrom (json : Json) : OptionValue → Prop
  | leaf {value : OptionValue} (hnodes : value.nodes = [])
    (hlabels : ∀ entries, value ≠ .indexed entries) : ReadFrom json value
  | object {declared : Schema} {node : Options} (h : ofJson declared json = .ok node) :
    ReadFrom json (.object node)
  | collection {spec : FieldSpec Schema} {declared : Schema} {entries : List (UInt32 × Options)}
    (h : entriesOfMembers spec declared [] json.entryMembers = .ok entries) :
    ReadFrom json (.indexed entries)
  | list {declared : Schema} {items : List Json} {objects : List OptionValue}
    (hitems : json = .array items) (h : objectsOfItems declared items = .ok objects) :
    ReadFrom json (.list objects)

/-- An imported value is read from JSON that stands for it. -/
theorem readFrom_of_valueOfJson {json : Json} {value : OptionValue}
    (h : valueOfJson spec json = .ok value) : ReadFrom json value := by
  have hscalar {kind : ScalarKind} (hread : scalarOfJson spec.name kind json = .ok value) :
      ReadFrom json value := by
    rcases single_of_scalarOfJson hread with ⟨_, rfl⟩ | ⟨_, rfl⟩ | ⟨_, rfl⟩ | ⟨_, rfl⟩ <;>
      exact .leaf rfl (by simp)
  rw [valueOfJson.eq_def] at h
  split at h
  · cases h
    exact .leaf rfl (by simp)
  · split at h
    · obtain ⟨node, hnode, rfl⟩ := map_eq_ok.mp h
      exact .object hnode
    · obtain ⟨node, hnode, rfl⟩ := map_eq_ok.mp h
      exact .object hnode
    · exact hscalar h
    · exact hscalar h
    · obtain ⟨entries, hentries, rfl⟩ := map_eq_ok.mp h
      exact .collection hentries
    · rename_i nested items _ _
      obtain ⟨entries, hentries, rfl⟩ := map_eq_ok.mp h
      have hnumbered : entriesOfMembers spec nested [] (numbered 0 items) = .ok entries := by
        rw [← toOption_eq_some, toOption_entriesOfMembers_numbered, hentries]
        rfl
      exact .collection hnumbered
    · obtain ⟨objects, hobjects, rfl⟩ := map_eq_ok.mp h
      exact .list rfl hobjects
    · obtain ⟨values, hvalues, rfl⟩ := map_eq_ok.mp h
      exact .leaf (nodes_of_mapM_markedScalarOfJson hvalues) (by simp)
    · cases h
      exact .leaf rfl (by simp)
    · cases h

/-- The node that a step leads to is read from what the step leads to in JSON without repeated keys.
-/
theorem exists_below?_of_ofJson {schema : Schema} {json : Json} {tree node : Options}
    (hdistinct : json.Distinct) (h : ofJson schema json = .ok tree) {step : Step}
    (hnode : tree.below? step = some node) :
    ∃ inner declared, json.below? step = some inner ∧ ofJson declared inner = .ok node := by
  obtain ⟨value, hvalue, hbelow⟩ := Option.bind_eq_some_iff.mp hnode
  obtain ⟨inner, spec, hinner, hread⟩ := exists_get?_of_ofJson hdistinct h hvalue
  rw [Json.below?, hinner, Option.bind_some]
  cases readFrom_of_valueOfJson hread with
  | leaf hnodes _ =>
    exact absurd (OptionValue.mem_nodes_of_below? hbelow) (hnodes ▸ List.not_mem_nil)
  | object hfound =>
    cases step with
    | object field =>
      obtain rfl := Option.some.inj hbelow
      exact ⟨inner, _, rfl, hfound⟩
    | _ => cases hbelow
  | @collection _ declared entries hentries =>
    cases step with
    | entry field label =>
      have hentry := find?_of_collection hentries label
      rw [show Keyed.find? label entries = some node from hbelow] at hentry
      obtain ⟨source, hsource, hread⟩ := Option.map_eq_some_iff.mp hentry.symm
      exact ⟨source, declared, hsource, hread⟩
    | _ => cases hbelow
  | list hitems hobjects =>
    subst hitems
    cases step with
    | item field position =>
      obtain ⟨object, hobject, hnode⟩ := Option.bind_eq_some_iff.mp hbelow
      rw [objectsOfItems_eq_mapM] at hobjects
      obtain ⟨item, hitem, hread⟩ := (getElem?_of_mapM_eq_ok hobjects).2 position object hobject
      exact ⟨item, _, hitem, ofJson_of_objectOfItem hread hnode⟩
    | _ => cases hbelow

/-- The node that steps lead to is read from what they lead to in the JSON. -/
theorem exists_descend?_of_ofJson {schema : Schema} {json : Json} {tree node : Options}
    (hdistinct : json.Distinct) (h : ofJson schema json = .ok tree) {steps : List Step}
    (hnode : tree.descend? steps = some node) :
    ∃ inner declared, json.descend? steps = some inner ∧ inner.Distinct ∧
      ofJson declared inner = .ok node := by
  induction steps generalizing schema json tree with
  | nil =>
    obtain rfl := Option.some.inj hnode
    exact ⟨json, schema, rfl, hdistinct, h⟩
  | cons step rest ih =>
    obtain ⟨child, hchild, hnode⟩ := Option.bind_eq_some_iff.mp hnode
    obtain ⟨inner, declared, hinner, hread⟩ := exists_below?_of_ofJson hdistinct h hchild
    obtain ⟨last, lastDeclared, hlast, hresult⟩ := ih (hdistinct.below? hinner) hread hnode
    exact ⟨last, lastDeclared, Option.bind_eq_some_iff.mpr ⟨inner, hinner, hlast⟩, hresult⟩

/-- A labelled collection in a tree is read from what stands at its address in the JSON. -/
theorem exists_source_of_read? {schema : Schema} {json : Json} {tree : Options}
    (hdistinct : json.Distinct) (h : ofJson schema json = .ok tree) {a : Address}
    {entries : List (UInt32 × Options)} (hread : tree.read? a = some (.indexed entries)) :
    ∃ source spec declared, json.source? a = some source ∧
      entriesOfMembers spec declared [] source.entryMembers = .ok entries := by
  obtain ⟨node, hnode, hvalue⟩ := Option.bind_eq_some_iff.mp hread
  obtain ⟨inner, _, hinner, hinnerDistinct, hofJson⟩ :=
    exists_descend?_of_ofJson hdistinct h hnode
  obtain ⟨source, spec, hsource, hjson⟩ := exists_get?_of_ofJson hinnerDistinct hofJson hvalue
  cases readFrom_of_valueOfJson hjson with
  | leaf _ hlabels => exact absurd rfl (hlabels entries)
  | collection hentries =>
    exact ⟨source, _, _, Option.bind_eq_some_iff.mpr ⟨inner, hinner, hsource⟩, hentries⟩

/-- There are as many entries as different labels. -/
theorem length_of_collection {json : Json}
    (h : entriesOfMembers spec declared [] json.entryMembers = .ok entries) :
    entries.length = json.entryLabels.dedup.length := by
  have hgiven : (OptionValue.indexed entries).Given fun _ => True :=
    (importInvariant_wellTypedOver fun _ _ _ _ _ _ _ => trivial).entriesOfMembers trivial
      .indexed_nil json.entryMembers (fun _ _ => trivial) h
  have hsame (label : UInt32) : label ∈ entries.map (·.1) ↔ label ∈ json.entryLabels.dedup := by
    rw [← Keyed.isSome_find?, List.mem_dedup, ← Json.isSome_labelled?,
      ← Option.isSome_map (f := ofJson declared), ← find?_of_collection h label, Option.isSome_map]
  have hperm := (List.perm_ext_iff_of_nodup (Keyed.nodup_keys_of_ascending hgiven.1)
    (List.nodup_dedup json.entryLabels)).mpr hsame
  rw [← hperm.length_eq, List.length_map]

/-- Every key of an imported collection denotes a label. -/
theorem isSome_label_of_entriesOfMembers
    (h : entriesOfMembers spec declared before members = .ok entries) :
    ∀ member ∈ members, (Label.ofText? member.1).isSome = true := by
  induction members generalizing before with
  | nil => exact fun _ hmem => absurd hmem List.not_mem_nil
  | cons member rest ih =>
    obtain ⟨label, _, hlabel, _, h⟩ := entriesOfMembers_cons_eq_ok.mp h
    exact List.forall_mem_cons.mpr ⟨Option.isSome_of_eq_some hlabel, ih h⟩

/-- Where an imported tree has a labelled collection, the JSON, in which no key is repeated, has
what the collection is read from. Under each label the collection has what is imported from the last
member whose key denotes the label. It has as many entries as there are different labels, and so as
many as members exactly when no two keys denote one label. Of an array it has every item, under its
position. -/
theorem collection_of_ofJson {schema : Schema} {json : Json} {tree : Options} {a : Address}
    {entries : List (UInt32 × Options)} (hdistinct : json.Distinct)
    (h : ofJson schema json = .ok tree) (hread : tree.read? a = some (.indexed entries)) :
    ∃ source declared, json.source? a = some source ∧
      (∀ label, (Keyed.find? label entries).map Except.ok =
        (source.labelled? label).map (ofJson declared)) ∧
      entries.length = source.entryLabels.dedup.length ∧
      (entries.length = source.entryMembers.length ↔ source.entryLabels.Nodup) ∧
      ∀ items, source = .array items → entries.length = items.length ∧
        ∀ label, (Keyed.find? label entries).map Except.ok =
          items[label.toNat]?.map (ofJson declared) := by
  obtain ⟨source, spec, declared, hsource, hentries⟩ := exists_source_of_read? hdistinct h hread
  have hlength := length_of_collection hentries
  have hlabels := isSome_label_of_entriesOfMembers hentries
  have hcount : source.entryLabels.length = source.entryMembers.length :=
    List.filterMap_length_eq_length.mpr hlabels
  have hiff : entries.length = source.entryMembers.length ↔ source.entryLabels.Nodup := by
    rw [hlength, ← hcount, ← List.dedup_eq_self]
    exact ⟨(List.dedup_sublist _).eq_of_length, congrArg List.length⟩
  refine ⟨source, declared, hsource, find?_of_collection hentries, hlength, hiff, ?_⟩
  rintro items rfl
  refine ⟨(hiff.mpr ?_).trans ?_, fun label => ?_⟩
  · exact nodup_labels_of_range' (Json.map_toNat_labels_numbered hlabels)
  · rw [Json.entryMembers, ← List.length_map (f := fun member => member.2), Json.map_snd_numbered]
  · rw [find?_of_collection hentries, Json.labelled?_array]

/-- Options of a line chart with two series. -/
def twoSeries : Json :=
  .object [("series", .object [("+2", .object [("color", .text "red")]),
    ("0", .object [("color", .text "green")])])]

/-- Both series are imported, since their keys denote different labels. -/
theorem collection_twoSeries :
    ∃ tree entries source, twoSeries.Distinct ∧ ofJson Catalog.lineChart twoSeries = .ok tree ∧
      tree.read? ⟨[], "series"⟩ = some (.indexed entries) ∧
      twoSeries.source? ⟨[], "series"⟩ = some source ∧ source.entryMembers.length = 2 ∧
      entries.length = 2 := by
  have hdistinct : twoSeries.Distinct := Json.distinct_canonical twoSeries
  have htree : ofJson Catalog.lineChart twoSeries = .ok ⟨Catalog.lineChart, [("series",
      .indexed [(0, ⟨Catalog.series, [("color", .text "green")]⟩),
        (2, ⟨Catalog.series, [("color", .text "red")]⟩)])]⟩ := rfl
  obtain ⟨source, _, hsource, _, _, hcount, _⟩ :=
    collection_of_ofJson (a := ⟨[], "series"⟩) hdistinct htree rfl
  obtain rfl := Option.some.inj hsource
  exact ⟨_, _, _, hdistinct, htree, rfl, rfl, rfl, hcount.mpr (by decide)⟩

/-- Options of a line chart with two series under one label. -/
def oneLabel : Json :=
  .object [("series", .object [("+1", .object [("color", .text "red")]),
    ("1", .object [("color", .text "green")])])]

/-- Two keys of one label are imported as one entry, which is that of the later key. -/
theorem not_entry_of_each_member :
    oneLabel.Distinct ∧ ∃ tree entries source node,
      ofJson Catalog.lineChart oneLabel = .ok tree ∧
      tree.read? ⟨[], "series"⟩ = some (.indexed entries) ∧
      oneLabel.source? ⟨[], "series"⟩ = some source ∧
      source.entryMembers.length = 2 ∧ entries = [(1, node)] ∧
      node.get? "color" = some (.text "green") :=
  ⟨Json.distinct_canonical oneLabel, _, _, _, _, rfl, rfl, rfl, rfl, rfl, rfl⟩

end Options

end ChartScript
