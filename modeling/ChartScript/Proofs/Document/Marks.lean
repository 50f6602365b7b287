import ChartScript.Proofs.Document.Cells
import ChartScript.Proofs.Options.ReadBack
import ChartScript.Proofs.Script.Emptied
import ChartScript.Proofs.Table.Building

/-!
# What is not marked as code

Code comes into a chart from JSON that is marked as code, or as the text of a field that holds code.
The schemas of the catalog declare no such field, so what a document without marks describes has no
code in it: neither in the options, which are imported member by member, nor in the cells of a
table.
-/

namespace ChartScript

/-- JSON in which no object has a member that marks code. -/
inductive Json.Unmarked : Json → Prop
  | null : Unmarked .null
  | bool (value : Bool) : Unmarked (.bool value)
  | number (value : JsonNumber) : Unmarked (.number value)
  | text (value : String) : Unmarked (.text value)
  | array {items : List Json} (h : ∀ item ∈ items, Unmarked item) : Unmarked (.array items)
  | object {members : List (String × Json)} (hkeys : ∀ member ∈ members, member.1 ≠ codeKey)
    (hvalues : ∀ member ∈ members, Unmarked member.2) : Unmarked (.object members)

/-- Unmarked JSON is not code. -/
theorem Json.Unmarked.markedCode?_eq {json : Json} (h : json.Unmarked) :
    json.markedCode? = none := by
  refine Option.eq_none_iff_forall_ne_some.mpr fun code hcode => ?_
  obtain rfl := markedCode?_eq_some.mp hcode
  cases h with
  | object hkeys _ => exact hkeys _ List.mem_cons_self rfl

namespace Options

/-- Being free of code is kept by importing unmarked JSON over plain schemas. -/
theorem importInvariant_codeFree :
    ImportInvariant Schema.Plain Json.Unmarked
      (fun options => options.schema.Plain ∧ options.CodeFree)
      fun value => value.CodeFree ∧ ∀ node ∈ value.nodes, node.CodeFree where
  hereditary := Schema.hereditary_throughout _
  items h item hitem := by
    cases h with
    | array h => exact h item hitem
  members h member hmember := by
    cases h with
    | object _ hvalues => exact hvalues member hmember
  schema h := h.1
  empty hschema := ⟨hschema, codeFree_empty _⟩
  set h hvalue hset := by
    obtain ⟨_, _, _, rfl⟩ := set_eq_ok.mp hset
    exact ⟨h.1, h.2.store _ hvalue.1 hvalue.2⟩
  marked h hmarked := by
    rw [h.markedCode?_eq] at hmarked
    cases hmarked
  coded source howner hspec hkind := by
    have hcode := Schema.Plain.isCode_eq howner hspec
    rw [hkind] at hcode
    cases hcode
  scalar h := by
    rcases single_of_scalarOfJson h with ⟨_, rfl⟩ | ⟨_, rfl⟩ | ⟨_, rfl⟩ | ⟨_, rfl⟩ <;>
      exact ⟨trivial, fun _ hnode => absurd hnode List.not_mem_nil⟩
  object h := ⟨trivial, List.forall_mem_singleton.mpr h.2⟩
  noEntries := ⟨trivial, fun _ hnode => absurd hnode List.not_mem_nil⟩
  entry label h hnode := by
    refine ⟨trivial, fun child hchild => ?_⟩
    obtain ⟨entry, hentry, rfl⟩ := List.mem_map.mp hchild
    rcases Keyed.mem_insert hentry with rfl | hold
    · exact hnode.2
    · exact h.2 _ (List.mem_map_of_mem hold)
  list h := by
    refine ⟨fun source hsource => (h _ hsource).1, fun node hnode => ?_⟩
    obtain ⟨item, hitem, hnode⟩ := OptionValue.mem_nodes_list.mp hnode
    exact (h item hitem).2 node hnode

/-- A tree from unmarked JSON holds no code. -/
theorem codeFree_of_ofJson {schema : Schema} (hschema : schema.Plain) {json : Json}
    (hjson : json.Unmarked) {options : Options} (h : ofJson schema json = .ok options) :
    options.CodeFree :=
  (importInvariant_codeFree.ofJson hschema json hjson h).2

/-- The literal of a well-typed tree without code has no code in it. -/
theorem WellTypedOver.codeFree_literal {options : Options}
    (h : options.WellTypedOver Schema.Plain) (hcode : options.CodeFree) {literal : Literal}
    (hliteral : options.literal = .ok literal) : literal.CodeFree := by
  have hspellable := h.mono fun _ => Schema.Plain.spellable
  rw [(hspellable.mono fun _ hschema => hschema.1).literal_eq_ok] at hliteral
  cases hliteral
  exact (hspellable.readable_content hcode).codeFree

end Options

/-- The cells from unmarked JSON are no code. -/
theorem Cell.cellInvariant_codeFree : CellInvariant Json.Unmarked Cell.CodeFree where
  members h := by
    cases h with
    | object _ hvalues => exact hvalues
  null := trivial
  flag _ := trivial
  number _ := trivial
  text _ := trivial
  date _ := trivial
  moment _ := trivial
  time _ := trivial
  formatted _ h := h
  code h hsource := by
    cases h with
    | object hkeys _ => exact absurd rfl (hkeys _ (Cell.mem_of_member? hsource))

/-- Data in whose rows nothing is marked as code. -/
def DataDocument.Unmarked : DataDocument → Prop
  | .rows _ written => ∀ row ∈ written, ∀ json ∈ row, json.Unmarked
  | .table _ => True

/-- Data to compare in whose rows nothing is marked as code. -/
def ComparisonDocument.Unmarked (d : ComparisonDocument) : Prop :=
  d.old.Unmarked ∧ d.new.Unmarked

/-- A chart in whose options and rows nothing is marked as code. -/
structure ChartDocument.MarkFree (d : ChartDocument) : Prop where
  options : d.options.Unmarked
  data : ∀ data, d.data = some data → data.Unmarked
  comparison : ∀ comparison, d.comparison = some comparison → comparison.Unmarked

/-- A chart without listeners, in whose options and rows nothing is marked as code. -/
structure ChartDocument.Unmarked (d : ChartDocument) : Prop extends d.MarkFree where
  listeners : d.listeners = []

/-- The table of unmarked data has no code in it. -/
theorem DataDocument.Unmarked.source {d : DataDocument} (h : d.Unmarked) {source : TableSource}
    (hsource : d.source = .ok source) : source.CodeFree := by
  cases d with
  | rows columns written =>
    obtain ⟨cells, hcells, hsource⟩ := bind_eq_ok.mp hsource
    obtain ⟨table, htable, hsource⟩ := bind_eq_ok.mp hsource
    cases hsource
    obtain ⟨_, _, _, hrows⟩ := DataTable.ofRows_eq_ok.mp htable
    change table.CodeFree
    unfold DataTable.CodeFree
    rw [hrows]
    intro row hrow
    obtain ⟨json, hjson, hread⟩ := exists_mem_of_mapM_eq_ok hcells hrow
    exact Cell.cellInvariant_codeFree.rowOfJson (h json hjson) hread
  | table json =>
    obtain ⟨table, _, hsource⟩ := bind_eq_ok.mp hsource
    cases hsource
    trivial

end ChartScript
