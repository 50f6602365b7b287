import ChartScript.Proofs.Options.Building
import ChartScript.Proofs.Schema.Plain

/-!
# Built charts

The charts that a caller can build: of a table or of two charts to compare, given elements, options
and listeners, and with options edited in any way. Two things hold of them for good. Their options
are built trees, so they can be written; and what a comparison compares are charts of tables, since
a comparison is refused there when it is made and the data of a chart never changes afterwards.
-/

namespace ChartScript

namespace Chart

/-- Charts that a caller can build. -/
inductive Built : Chart → Prop
  /-- Of a table. -/
  | ofTable {name : String} {type : ChartType} {source : TableSource} {chart : Chart}
    (h : Chart.ofTable name type source = .ok chart) : Built chart
  /-- A comparison of two charts. -/
  | compare {name : String} {old new chart : Chart} (hold : Built old) (hnew : Built new)
    (h : Chart.compare name old new = .ok chart) : Built chart
  /-- In an element. -/
  | withElementId {chart : Chart} (id : String) (hchart : Built chart) :
    Built (chart.withElementId id)
  /-- With other listeners. -/
  | withListeners {chart : Chart} (listeners : List EventListener) (hchart : Built chart) :
    Built (chart.withListeners listeners)
  /-- With one listener more. -/
  | listen {chart : Chart} (listener : EventListener) (hchart : Built chart) :
    Built (chart.listen listener)
  /-- With other options. -/
  | withOptions {chart changed : Chart} {options : Options} (hchart : Built chart)
    (hoptions : options.Built Schema.RepeatFree) (h : chart.withOptions options = .ok changed) :
    Built changed
  /-- With its options edited. -/
  | edit {chart : Chart} {edit : Edit} (hchart : Built chart)
    (hordered : ∀ value ∈ edit.values, value.Ordered)
    (hnodes : ∀ value ∈ edit.values, ∀ node ∈ value.nodes, node.Built Schema.RepeatFree) :
    Built { chart with options := edit.run chart.options }

/-- The options of a chart are a built tree, and what it compares are charts of tables. -/
structure Sound (c : Chart) : Prop where
  options : c.options.Built Schema.RepeatFree
  tables : ∀ old new, c.data = .comparison old new →
    old.data.isComparison = false ∧ new.data.isComparison = false

variable {c : Chart}

/-- A comparison is made of two charts of tables, of one type in which charts can be compared. -/
theorem exists_of_compare_eq_ok {name : String} {old new : Chart}
    (h : Chart.compare name old new = .ok c) :
    ∃ (identifier : Identifier) (schema : Schema),
      old.data.isComparison = false ∧ new.data.isComparison = false ∧
        old.type.comparisonSchema? = some schema ∧
          c = ⟨identifier, old.type, none, .comparison old new, .empty schema, []⟩ := by
  obtain ⟨identifier, _, h⟩ := bind_eq_ok.mp h
  split at h
  · cases h
  · rename_i hplain
    rw [Bool.not_eq_true, Bool.or_eq_false_iff] at hplain
    obtain ⟨hold, hnew⟩ := hplain
    split at h
    · cases h
    · split at h
      · cases h
      · rename_i schema hschema
        cases h
        exact ⟨identifier, schema, hold, hnew, hschema, rfl⟩

/-- A new chart of a table is sound. -/
theorem sound_of_ofTable {name : String} {type : ChartType} {source : TableSource}
    (h : Chart.ofTable name type source = .ok c) : c.Sound := by
  obtain ⟨identifier, _, h⟩ := bind_eq_ok.mp h
  cases h
  exact ⟨.empty (Catalog.repeatFree_of_mem type.schema_mem_catalog), by simp⟩

/-- A new comparison is sound. -/
theorem sound_of_compare {name : String} {old new : Chart}
    (h : Chart.compare name old new = .ok c) : c.Sound := by
  obtain ⟨_, schema, hold, hnew, hschema, rfl⟩ := exists_of_compare_eq_ok h
  refine ⟨.empty (Catalog.repeatFree_of_mem (ChartType.comparisonSchema_mem_catalog hschema)),
    fun a b hdata => ?_⟩
  cases hdata
  exact ⟨hold, hnew⟩

/-- A built chart is sound. -/
theorem Built.sound (h : c.Built) : c.Sound := by
  induction h with
  | ofTable h => exact sound_of_ofTable h
  | compare _ _ h _ _ => exact sound_of_compare h
  | withElementId id _ ih => exact ⟨ih.options, ih.tables⟩
  | withListeners listeners _ ih => exact ⟨ih.options, ih.tables⟩
  | listen listener _ ih => exact ⟨ih.options, ih.tables⟩
  | withOptions _ hoptions h ih =>
    unfold Chart.withOptions at h
    split at h
    · cases h
      exact ⟨hoptions, ih.tables⟩
    · cases h
  | edit _ hordered hnodes ih => exact ⟨ih.options.edit hordered hnodes, ih.tables⟩

/-- A chart that does not compare has a table. -/
theorem exists_table_eq_ok (h : c.data.isComparison = false) : ∃ source, c.table = .ok source := by
  unfold Chart.table
  split
  · exact ⟨_, rfl⟩
  · rename_i hdata
    rw [hdata] at h
    cases h

/-- The options of a sound chart can be written. -/
theorem Sound.literal_eq_ok (h : c.Sound) : c.options.literal = .ok c.options.content :=
  h.options.unrepeated.literal_eq_ok

/-- A chart of a table as it is made. -/
def plain (name : Identifier) (type : ChartType) (source : TableSource) : Chart :=
  ⟨name, type, none, .table source, .empty type.schema, []⟩

/-- A table can be made into a chart under every identifier. -/
theorem built_plain (name : Identifier) (type : ChartType) (source : TableSource) :
    (plain name type source).Built := by
  have h : Chart.ofTable name.text type source = .ok (plain name type source) := by
    unfold Chart.ofTable
    rw [Identifier.ofText_text]
    rfl
  exact .ofTable h

/-- Two charts of tables as they are compared. -/
def comparing (name oldName newName : Identifier) (type : ChartType) (schema : Schema)
    (old new : TableSource) : Chart :=
  ⟨name, type, none, .comparison (plain oldName type old) (plain newName type new),
    .empty schema, []⟩

/-- Two charts of tables can be compared when their type can. -/
theorem built_comparing (name oldName newName : Identifier) {type : ChartType} {schema : Schema}
    (hschema : type.comparisonSchema? = some schema) (old new : TableSource) :
    (comparing name oldName newName type schema old new).Built := by
  have h : Chart.compare name.text (plain oldName type old) (plain newName type new) =
      .ok (comparing name oldName newName type schema old new) := by
    unfold Chart.compare
    rw [Identifier.ofText_text]
    simp [bind, Except.bind, plain, comparing, ChartData.isComparison, hschema, pure, Except.pure]
  exact .compare (built_plain ..) (built_plain ..) h

end Chart

end ChartScript
