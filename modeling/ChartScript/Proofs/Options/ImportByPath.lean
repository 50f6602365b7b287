import ChartScript.Proofs.Options.EntryOrder
import ChartScript.Proofs.Options.LabelledForm

/-!
# JSON and assignments by path

Importing a JSON object and assigning its leaves one by one through their paths, in whatever order,
build one tree, and so do different ways to write the collections of the object. Trees are compared
here as the library compares them: numbers as numbers, schemas by name. Nothing that is imported is
NaN, so an imported tree is the same as itself.
-/

namespace ChartScript

/-- A number from JSON is the same as itself. -/
theorem JsonNumber.sameValue_toBinary64 (x : JsonNumber) :
    x.toBinary64.sameValue x.toBinary64 = true := by
  cases x with
  | integer value =>
    rw [toBinary64, Binary64.ofInt]
    cases Magnitude.ofRatio? value.natAbs 1 <;> simp [Binary64.signed, Binary64.sameValue]
  | float negative magnitude => simp [toBinary64, Binary64.sameValue]

namespace Options

/-- Labelled nodes are the same as themselves if each is. -/
theorem sameLabelled_self {entries : List (UInt32 × Options)} :
    OptionValue.sameLabelled entries entries = true ↔
      ∀ entry ∈ entries, entry.2.same entry.2 = true := by
  induction entries with
  | nil => simp [OptionValue.sameLabelled]
  | cons entry rest ih =>
    obtain ⟨label, node⟩ := entry
    rw [OptionValue.sameLabelled, List.forall_mem_cons, ← ih]
    simp

/-- Entries are the same as themselves if each value is. -/
theorem sameEntries_self {entries : List (String × OptionValue)} :
    sameEntries entries entries = true ↔ ∀ entry ∈ entries, entry.2.same entry.2 = true := by
  induction entries with
  | nil => simp [sameEntries]
  | cons entry rest ih =>
    obtain ⟨field, value⟩ := entry
    rw [sameEntries, List.forall_mem_cons, ← ih]
    simp

/-- Items are the same as themselves if each is. -/
theorem sameItems_self {items : List OptionValue} :
    OptionValue.sameItems items items = true ↔ ∀ item ∈ items, item.same item = true := by
  induction items with
  | nil => simp [OptionValue.sameItems]
  | cons item rest ih => simp [OptionValue.sameItems, ih]

/-- A tree is the same as itself if each assigned value is. -/
theorem same_self_iff {options : Options} :
    options.same options = true ↔ ∀ entry ∈ options.entries, entry.2.same entry.2 = true := by
  obtain ⟨schema, entries⟩ := options
  rw [same, ← sameEntries_self]
  simp

/-- A single value from JSON is the same as itself. -/
theorem same_of_scalarOfJson {field : String} {kind : ScalarKind} {json : Json}
    {value : OptionValue} (h : scalarOfJson field kind json = .ok value) :
    value.same value = true := by
  cases json with
  | number x =>
    cases h
    rw [OptionValue.same]
    exact x.sameValue_toBinary64
  | bool b =>
    cases h
    simp [OptionValue.same]
  | text text =>
    rcases single_of_scalarOfJson h with ⟨_, rfl⟩ | ⟨x, rfl⟩ | ⟨_, rfl⟩ | ⟨_, rfl⟩
    · simp [OptionValue.same]
    · -- a number does not come from text
      simp only [scalarOfJson] at h
      split at h <;> first | cases h | (split at h <;> cases h)
    · simp [OptionValue.same]
    · simp [OptionValue.same]
  | _ => cases h

/-- Importing keeps trees and values the same as themselves. -/
theorem importInvariant_same :
    ImportInvariant (fun _ => True) (fun _ => True) (fun options => options.same options = true)
      (fun value => value.same value = true) where
  hereditary := fun _ _ _ _ _ _ _ => trivial
  items _ _ _ := trivial
  members _ _ _ := trivial
  schema _ := trivial
  empty _ := same_self_iff.mpr fun _ hmem => absurd hmem List.not_mem_nil
  set h hvalue hset := by
    obtain ⟨_, _, _, rfl⟩ := set_eq_ok.mp hset
    refine same_self_iff.mpr fun entry hentry => ?_
    rcases Keyed.mem_insert hentry with rfl | hold
    · exact hvalue
    · exact same_self_iff.mp h entry hold
  marked _ _ := by simp [OptionValue.same]
  coded _ _ _ _ := by simp [OptionValue.same]
  scalar h := same_of_scalarOfJson h
  object h := by simpa [OptionValue.same] using h
  noEntries := by simp [OptionValue.same, OptionValue.sameLabelled]
  entry label h hnode := by
    rw [OptionValue.same, sameLabelled_self] at h ⊢
    intro entry hentry
    rcases Keyed.mem_insert hentry with rfl | hold
    · exact hnode
    · exact h entry hold
  list h := by
    rw [OptionValue.same]
    exact sameItems_self.mpr h

/-- The tree of a JSON object, in which nested objects, collections and entries hold something and
labels are spelled in decimal, over schemas without dots in the names of fields, is the tree to which
assigning the leaves through their paths leads, in any order. It is also the tree of every other
object with the same labelled form. An array and the object with its positions as keys have one
labelled form, at whatever depth they stand, and are imported as one collection. -/
theorem ofJson_eq_assignEach (schema : Schema) (members : List (String × Json)) (tree : Options)
    (hdots : schema.DotFree) (hdistinct : (Json.object members).Distinct)
    (hpopulated : MembersPopulated schema members)
    (h : ofJson schema (.object members) = .ok tree) :
    (∀ order : List Leaf, order.Perm (memberLeaves schema members) →
      ∃ built, (empty schema).assignEach
          (order.map fun leaf => (leaf.address.path, leaf.value)) = .ok built ∧
        built = tree ∧ tree.same built = true ∧ built.render = tree.render) ∧
      (∀ others, labelledMembers schema others = labelledMembers schema members →
        ofJson schema (.object others) = .ok tree) ∧
      ∀ (spec : FieldSpec Schema) (nested : Schema) (items : List Json),
        spec.kind = .indexed nested →
          labelledValue spec (.object (Keyed.ofList (numbered 0 items))) =
              labelledValue spec (.array items) ∧
            (valueOfJson spec (.object (Keyed.ofList (numbered 0 items)))).toOption =
              (valueOfJson spec (.array items)).toOption := by
  refine ⟨fun order horder => ⟨tree, ?_, rfl, ?_, rfl⟩, fun others hothers => ?_,
    fun spec nested items hkind => ⟨labelledValue_numbered hkind items, ?_⟩⟩
  · cases hdistinct with
    | object hkeys hmembers =>
      rw [ofJson] at h
      obtain ⟨hfills, _⟩ := fills_ofMembers hdots members hkeys hmembers hpopulated rfl
        (fun _ _ => rfl) h
      exact hfills.assignEach_eq_ok horder
  · exact importInvariant_same.ofJson trivial _ trivial h
  · have hlabelled := toOption_ofJson_labelled schema (.object others)
    rw [labelledNode, hothers, ← labelledNode, toOption_ofJson_labelled, h] at hlabelled
    exact toOption_eq_some.mp hlabelled.symm
  · rw [← toOption_valueOfJson_labelled, labelledValue_numbered hkind, toOption_valueOfJson_labelled]

/-- Options of a line chart, with the series as an object. -/
def salesMembers : List (String × Json) :=
  [("colors", .array [.text "red", .text "blue"]), ("curveType", .text "function"),
    ("hAxis", .object [("textStyle", .object [("color", .text "#333")]), ("title", .text "Year")]),
    ("pointSize", .null), ("series", .object [("0", .object [("color", .text "green")])]),
    ("title", .text "Sales"),
    ("vAxis", .object [("format", .object [("$raw", .text "formatter.pattern")])])]

/-- The options of the line chart are also what assignments lead to that take the leaves from the
last one to the first, and what is imported with the series as an array. -/
theorem ofJson_sales :
    ∃ tree, ofJson Catalog.lineChart (.object salesMembers) = .ok tree ∧
      (empty Catalog.lineChart).assignEach
        [("vAxis.format", .code "formatter.pattern"), ("title", .text "Sales"),
          ("series.0.color", .text "green"), ("hAxis.title", .text "Year"),
          ("hAxis.textStyle.color", .text "#333"), ("curveType", .text "function"),
          ("colors", .list [.text "red", .text "blue"])] = .ok tree ∧
      ofJson Catalog.lineChart (.object (Keyed.insert "series"
        (.array [.object [("color", .text "green")]]) salesMembers)) = .ok tree := by
  obtain ⟨tree, htree⟩ :=
    (exists_eq_ok_of_isOk (by decide +kernel) :
      ∃ tree, ofJson Catalog.lineChart (.object salesMembers) = .ok tree)
  have hplain : Catalog.lineChart.Plain := Catalog.plain_of_mem (by simp [Catalog.all])
  have hpopulated : MembersPopulated Catalog.lineChart salesMembers := by
    refine ⟨trivial, trivial, ⟨.head (by simp) _, ⟨.head (by simp) _, trivial, trivial⟩,
      trivial, trivial⟩, trivial, ?_, trivial, ⟨.head (by simp) _, trivial, trivial⟩, trivial⟩
    -- the only label is spelled in decimal
    exact ⟨List.cons_ne_nil _ _, ⟨0, rfl⟩, ⟨.head (by simp) _, trivial, trivial⟩, trivial⟩
  obtain ⟨horder, hothers, _⟩ := ofJson_eq_assignEach Catalog.lineChart salesMembers tree
    hplain.dotFree (Json.distinct_canonical (.object salesMembers)) hpopulated htree
  obtain ⟨built, hassign, rfl, _⟩ := horder _ (List.reverse_perm _)
  exact ⟨built, htree, hassign, hothers _ rfl⟩

end Options

end ChartScript
