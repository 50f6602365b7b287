import ChartScript.Proofs.Options.Content
import ChartScript.Proofs.Options.Import

/-!
# Built trees

The trees that a caller can build: from an empty node or from JSON, by assignments, removals and
work on nodes below, in any order and also when some of it fails. What one edit keeps is said in
`WellTypedOver.edit`; a built tree is well-typed by induction on how it was built, and so can always
be written.
-/

namespace ChartScript

/-- One edit of a tree. What an edit cannot do is an error for the caller, and the tree stays as the
edit left it. A node is opened to be edited in place; putting another tree in the place of a whole
node, as a holder of a reference to it could, is no edit. -/
inductive Edit where
  /-- Assign a field. -/
  | set (field : String) (value : OptionValue)
  /-- Remove what is assigned to a field. -/
  | unset (field : String)
  /-- Assign through a dotted path. -/
  | assign (path : String) (value : OptionValue)
  /-- Open the node that a step leads to, and edit it. -/
  | within (step : Step) (edits : List Edit)

namespace Edit

mutual

/-- The tree that an edit leaves behind. -/
def run : Edit → Options → Options
  | .set field value, options => (options.write field value).2
  | .unset field, options => options.unset field
  | .assign path value, options => (options.assign path value).2
  | .within step edits, options => (options.within step fun child => (.ok (), runAll edits child)).2

/-- The tree that edits leave behind, one after another. -/
def runAll : List Edit → Options → Options
  | [], options => options
  | edit :: rest, options => runAll rest (edit.run options)

end

mutual

/-- The values that an edit is given, also for nodes below. -/
def values : Edit → List OptionValue
  | .set _ value | .assign _ value => [value]
  | .unset _ => []
  | .within _ edits => allValues edits

/-- The values that edits are given. -/
def allValues : List Edit → List OptionValue
  | [] => []
  | edit :: rest => edit.values ++ allValues rest

end

end Edit

/-- An edit keeps the schema of a tree, whatever else becomes of it. -/
theorem Edit.schema_run (edit : Edit) (options : Options) :
    (edit.run options).schema = options.schema := by
  cases edit with
  | set field value =>
    rw [run]
    exact Options.schema_write ..
  | unset field =>
    rw [run]
    rfl
  | assign path value =>
    rw [run]
    exact Options.schema_assign ..
  | within step edits =>
    rw [run]
    exact Options.schema_within ..

namespace Options

variable {P : Schema → Prop} {options : Options}

/-- Trees over a class of schemas that a caller can build. The values given to an edit are built in
the same way, and the labels of a collection among them ascend. -/
inductive Built (P : Schema → Prop) : Options → Prop
  /-- Nothing assigned. -/
  | empty {schema : Schema} (hschema : P schema) : Built P (empty schema)
  /-- From JSON. -/
  | ofJson {schema : Schema} {json : Json} {options : Options} (hschema : P schema)
    (hjson : Options.ofJson schema json = .ok options) : Built P options
  /-- A node below a built tree. -/
  | child {options child : Options} (hoptions : Built P options)
    (hchild : child ∈ options.children) : Built P child
  /-- After an edit. -/
  | edit {options : Options} {edit : Edit} (hoptions : Built P options)
    (hordered : ∀ value ∈ edit.values, value.Ordered)
    (hnodes : ∀ value ∈ edit.values, ∀ node ∈ value.nodes, Built P node) :
    Built P (edit.run options)

mutual

/-- An edit keeps a tree well-typed, whether or not all of it succeeds. -/
theorem WellTypedOver.edit (hP : Schema.Hereditary P) :
    (edit : Edit) → (∀ value ∈ edit.values, value.Given P) → {options : Options} →
      options.WellTypedOver P →
        (edit.run options).WellTypedOver P ∧ (edit.run options).schema = options.schema
  | .set field value, hvalues, _, h => by
    rw [Edit.run]
    exact h.write field (hvalues value List.mem_cons_self)
  | .unset field, _, _, h => by
    rw [Edit.run]
    exact ⟨h.unset field, rfl⟩
  | .assign path value, hvalues, _, h => by
    rw [Edit.run]
    exact h.assign hP path (hvalues value List.mem_cons_self)
  | .within step edits, hvalues, _, h => by
    rw [Edit.run]
    exact h.within hP step fun child hchild => WellTypedOver.edits hP edits hvalues hchild

/-- Edits one after another keep a tree well-typed. -/
theorem WellTypedOver.edits (hP : Schema.Hereditary P) :
    (edits : List Edit) → (∀ value ∈ Edit.allValues edits, value.Given P) →
      {options : Options} → options.WellTypedOver P →
        (Edit.runAll edits options).WellTypedOver P ∧
          (Edit.runAll edits options).schema = options.schema
  | [], _, _, h => ⟨h, rfl⟩
  | edit :: rest, hvalues, options, h => by
    rw [Edit.allValues, List.forall_mem_append] at hvalues
    obtain ⟨hedit, hsame⟩ := WellTypedOver.edit hP edit hvalues.1 h
    obtain ⟨hrest, hschema⟩ := WellTypedOver.edits hP rest hvalues.2 hedit
    rw [Edit.runAll]
    exact ⟨hrest, hschema.trans hsame⟩

end

/-- A built tree is well-typed: the invariant of building. -/
theorem Built.wellTypedOver (hP : Schema.Hereditary P) (h : options.Built P) :
    options.WellTypedOver P := by
  induction h with
  | empty hschema => exact .empty hschema
  | ofJson hschema hjson => exact (wellTyped_of_ofJson hP hschema _ hjson).1
  | child _ hchild ih => exact ih.of_mem hchild
  | edit _ hordered _ ih ihnodes =>
    exact (WellTypedOver.edit hP _ (fun value hvalue =>
      ⟨hordered value hvalue, ihnodes value hvalue⟩) ih).1

/-- A tree built over schemas without repetition can be written. -/
theorem Built.unrepeated (h : options.Built Schema.RepeatFree) :
    options.WellTypedOver Schema.Unrepeated :=
  (h.wellTypedOver Schema.hereditary_repeatFree).mono fun _ => Schema.RepeatFree.unrepeated

/-- Built trees can be edited repeatedly. -/
theorem Built.edits (edits : List Edit) (h : options.Built P)
    (hordered : ∀ value ∈ Edit.allValues edits, value.Ordered)
    (hnodes : ∀ value ∈ Edit.allValues edits, ∀ node ∈ value.nodes, node.Built P) :
    (Edit.runAll edits options).Built P := by
  induction edits generalizing options with
  | nil => exact h
  | cons edit rest ih =>
    rw [Edit.allValues, List.forall_mem_append] at hordered hnodes
    exact ih (h.edit hordered.1 hnodes.1) hordered.2 hnodes.2

/-- In a tree built over schemas that repeat no field name in a list of their own, as those of the
catalog do, every assigned value at every depth fits the kind that the schema of its node declares
for the field. Such a tree can therefore be written, and bound to a variable of any name. -/
theorem wellTyped_and_written_of_built :
    (∀ schema ∈ Catalog.all, schema.RepeatFree) ∧
      ∀ options : Options, options.Built Schema.RepeatFree →
        options.WellTyped ∧ (∃ text, options.render = .ok text) ∧
          ∀ name, ∃ statement, options.declaration name = .ok statement := by
  refine ⟨fun schema hschema => Catalog.repeatFree_of_mem hschema, fun options h => ?_⟩
  have hwell := h.unrepeated
  exact ⟨hwell.wellTyped, ⟨_, hwell.render_eq_ok⟩, fun name => ⟨_, hwell.declaration_eq_ok name⟩⟩

/-- Edits of the options of a line chart, some of which are refused. -/
def sampleEdits : List Edit :=
  [.set "title" (.text "Sales"), .set "hAxis" (.flag true), .assign "hAxis.title" (.text "Year"),
    .assign "series.1.lineWidth.none" (.flag true),
    .within (.entry "series" 1) [.set "color" (.text "red"), .unset "lineWidth"],
    .within (.object "title") []]

/-- What the edits leave behind is well-typed and can be written; the refused ones left nothing
that is written. -/
theorem wellTyped_and_written_after_sampleEdits :
    (Edit.runAll sampleEdits (.empty Catalog.lineChart)).WellTyped ∧
      (∃ text, (Edit.runAll sampleEdits (.empty Catalog.lineChart)).render = .ok text) ∧
        (Edit.runAll sampleEdits (.empty Catalog.lineChart)).render.toOption =
          some ("\x7btitle:\"Sales\",hAxis:\x7btitle:\"Year\"\x7d," ++
            "series:\x7b1:\x7bcolor:\"red\"\x7d\x7d\x7d") := by
  have hline : Catalog.lineChart.RepeatFree :=
    wellTyped_and_written_of_built.1 _ (by simp [Catalog.all])
  have hvalues : ∀ value ∈ Edit.allValues sampleEdits, value.Ordered ∧ value.nodes = [] := by
    simp [sampleEdits, Edit.allValues, Edit.values, OptionValue.Ordered, OptionValue.nodes]
  have hbuilt : (Edit.runAll sampleEdits (.empty Catalog.lineChart)).Built Schema.RepeatFree :=
    (Built.empty hline).edits sampleEdits (fun value hvalue => (hvalues value hvalue).1)
      fun value hvalue node hnode => by
        rw [(hvalues value hvalue).2] at hnode
        exact absurd hnode List.not_mem_nil
  obtain ⟨hwell, hrender, _⟩ := wellTyped_and_written_of_built.2 _ hbuilt
  exact ⟨hwell, hrender, by decide +kernel⟩

end Options

end ChartScript
