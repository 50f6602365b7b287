import ChartScript.Document.Reader
import ChartScript.Proofs.Document.Marks
import ChartScript.Proofs.Script.Tags

/-!
# Tags in the script for a document

A document in which nothing is marked as code, and whose charts have no listeners, describes charts
without code. Its script is free of tags exactly when the texts that it holds as they were given
are, and these are the settings of the loader and the element ids. Everything else that a document
says reaches the script guarded, or spelled so that it cannot open a tag.
-/

namespace ChartScript

namespace Chart

/-- A chart without options, of a plain schema, in whose data no code is written. -/
structure Bare (c : Chart) : Prop where
  options : ∃ schema : Schema, schema.Plain ∧ c.options = .empty schema
  data : c.data.CodeFree

/-- The table of a chart without code has none. -/
theorem Bare.table {c : Chart} (h : c.Bare) {source : TableSource}
    (hsource : c.table = .ok source) :
    source.CodeFree := by
  have hdata := h.data
  unfold Chart.table at hsource
  split at hsource
  · rename_i source' heq
    cases hsource
    rw [heq] at hdata
    exact hdata
  · cases hsource

/-- Two charts without code are compared without code. -/
theorem Bare.compare {name : String} {old new c : Chart} (hold : old.Bare) (hnew : new.Bare)
    (h : Chart.compare name old new = .ok c) : c.Bare := by
  obtain ⟨_, schema, _, _, hschema, rfl⟩ := exists_of_compare_eq_ok h
  have hplain := Catalog.plain_of_mem (ChartType.comparisonSchema_mem_catalog hschema)
  exact ⟨⟨schema, hplain, rfl⟩, fun _ => hold.table, fun _ => hnew.table⟩

end Chart

/-- A chart of unmarked data has no code in it. -/
theorem DataDocument.Unmarked.chart {d : DataDocument} (h : d.Unmarked) {name : String}
    {type : ChartType} {c : Chart} (hchart : d.chart name type = .ok c) : c.Bare := by
  obtain ⟨source, hsource, hchart⟩ := bind_eq_ok.mp hchart
  obtain ⟨identifier, _, hchart⟩ := bind_eq_ok.mp hchart
  cases hchart
  exact ⟨⟨_, Catalog.plain_of_mem type.schema_mem_catalog, rfl⟩, h.source hsource⟩

namespace ChartDocument

variable {d : ChartDocument}

/-- What holds of charts of unmarked data, and of comparisons of charts of which it holds, holds of a
chart without marks before it gets its options. -/
theorem MarkFree.of_bareChart {P : Chart → Prop}
    (htable : ∀ {data : DataDocument}, data.Unmarked →
      ∀ {name : String} {type : ChartType} {c : Chart}, data.chart name type = .ok c → P c)
    (hcompare : ∀ {name : String} {old new c : Chart}, P old → P new →
      Chart.compare name old new = .ok c → P c)
    (h : d.MarkFree) {c : Chart} (hchart : d.bareChart = .ok c) : P c := by
  unfold ChartDocument.bareChart at hchart
  split at hchart
  · rename_i data hdata _
    exact htable (h.data data hdata) hchart
  · rename_i comparison _ hcomparison
    obtain ⟨hold, hnew⟩ := h.comparison comparison hcomparison
    obtain ⟨old, holdChart, hchart⟩ := bind_eq_ok.mp hchart
    obtain ⟨new, hnewChart, hchart⟩ := bind_eq_ok.mp hchart
    exact hcompare (htable hold holdChart) (htable hnew hnewChart) hchart
  · cases hchart

/-- A chart without marks has no code in it before it gets its options. -/
theorem MarkFree.bareChart (h : d.MarkFree) {c : Chart} (hchart : d.bareChart = .ok c) : c.Bare :=
  h.of_bareChart DataDocument.Unmarked.chart Chart.Bare.compare hchart

/-- A chart without marks keeps the data that it has before it gets its options, and its options
are a well-typed tree without code. -/
theorem MarkFree.chart (h : d.MarkFree) {c : Chart} (hchart : d.chart = .ok c) :
    (∃ bare, d.bareChart = .ok bare ∧ c.data = bare.data) ∧
      c.options.WellTypedOver Schema.Plain ∧ c.options.CodeFree ∧
        c.listeners = d.listeners ∧ c.elementId = d.elementId := by
  obtain ⟨bare, hbare, hchart⟩ := bind_eq_ok.mp hchart
  obtain ⟨schema, hschema, hempty⟩ := (h.bareChart hbare).options
  split at hchart
  · obtain ⟨_, hsame, hchart⟩ := bind_eq_ok.mp hchart
    cases hsame
    cases hchart
    change _ ∧ bare.options.WellTypedOver Schema.Plain ∧ bare.options.CodeFree ∧ _
    rw [hempty]
    exact ⟨⟨bare, hbare, rfl⟩, .empty hschema, Options.codeFree_empty schema, rfl, rfl⟩
  · obtain ⟨options, hoptions, hchart⟩ := bind_eq_ok.mp hchart
    obtain ⟨changed, hchanged, hchart⟩ := bind_eq_ok.mp hchart
    cases hchart
    rw [hempty] at hoptions
    unfold Chart.withOptions at hchanged
    split at hchanged
    · cases hchanged
      exact ⟨⟨bare, hbare, rfl⟩, (Options.wellTyped_of_ofJson (Schema.hereditary_throughout _)
        hschema _ hoptions).1, Options.codeFree_of_ofJson hschema h.options hoptions, rfl, rfl⟩
    · cases hchanged

/-- In the options and the data of a chart without marks, no code is written. -/
theorem MarkFree.codeFree (h : d.MarkFree) {c : Chart} (hchart : d.chart = .ok c) :
    (∀ literal, c.options.literal = .ok literal → literal.CodeFree) ∧ c.data.CodeFree := by
  obtain ⟨⟨bare, hbare, hdata⟩, hwell, hcode, _⟩ := h.chart hchart
  rw [hdata]
  exact ⟨fun _ => hwell.codeFree_literal hcode, (h.bareChart hbare).data⟩

/-- An unmarked chart has no code in it, and it keeps its element id. -/
theorem Unmarked.chart (h : d.Unmarked) {c : Chart} (hchart : d.chart = .ok c) :
    c.CodeFree ∧ c.elementId = d.elementId := by
  obtain ⟨hoptions, hdata⟩ := h.toMarkFree.codeFree hchart
  obtain ⟨_, _, _, hlisteners, hid⟩ := h.toMarkFree.chart hchart
  exact ⟨⟨hlisteners.trans h.listeners, hoptions, hdata⟩, hid⟩

end ChartDocument

namespace BatchDocument

variable {d : BatchDocument}

/-- The element ids that a document gives: those of the batch, or else those of its charts. -/
def givenIds (d : BatchDocument) : List String :=
  d.elementIds.getD (d.charts.filterMap ChartDocument.elementId)

/-- The texts that reach the script as they stand in the document. -/
def asGiven (d : BatchDocument) : List String :=
  d.settings.version :: (d.settings.language.toList ++ d.givenIds)

/-- The described charts have no code in them, and go by the ids that the document gives. -/
theorem codeFree_batch (h : ∀ chart ∈ d.charts, chart.Unmarked) {b : Batch}
    (hbatch : d.batch = .ok b) :
    (∀ c ∈ b.charts, c.CodeFree) ∧
      ∀ ids : List String, ids.map some = b.givenIds → ids = d.givenIds := by
  obtain ⟨charts, hcharts, hbatch⟩ := bind_eq_ok.mp hbatch
  cases hbatch
  constructor
  · intro c hc
    obtain ⟨chart, hchart, hread⟩ := exists_mem_of_mapM_eq_ok hcharts hc
    exact ((h chart hchart).chart hread).1
  · intro ids hids
    have hown : charts.map Chart.elementId = d.charts.map ChartDocument.elementId :=
      map_eq_of_mapM_eq_ok (fun chart hchart _ hread => ((h chart hchart).chart hread).2) hcharts
    have hback : (ids.map some).filterMap id = ids := by simp
    rw [← hback, hids, Batch.givenIds, givenIds]
    cases d.elementIds with
    | none =>
      rw [Option.getD_none]
      simp [hown, List.filterMap_map]
    | some bound => simp

/-- The script of an unmarked document consists of statements without code, which hold what the
document gives. -/
theorem exists_statements (h : ∀ chart ∈ d.charts, chart.Unmarked) {script : String}
    (hscript : d.script = .ok script) :
    ∃ statements, script = Statement.script statements ∧ (∀ s ∈ statements, s.CodeFree) ∧
      statements.flatMap Statement.asGiven = d.asGiven := by
  obtain ⟨loader, hloader, hscript⟩ := bind_eq_ok.mp hscript
  obtain ⟨b, hbatch, hscript⟩ := bind_eq_ok.mp hscript
  obtain ⟨statements, hstatements, rfl⟩ := map_eq_ok.mp hscript
  obtain ⟨hfree, hids⟩ := codeFree_batch h hbatch
  obtain ⟨ids, hsome, hcode, hgiven⟩ := Batch.codeFree_statements hfree hstatements
  have hsettings : loader.settings = d.settings := by
    unfold Loader.ofSettings at hloader
    split at hloader
    · cases hloader
    · cases hloader
      rfl
  refine ⟨statements, rfl, hcode, ?_⟩
  rw [hgiven, hsettings, hids ids hsome, asGiven]

/-- The script for a document whose charts have no listeners, and in which nothing is marked as
code, is free of tags exactly when the version, the language and the element ids are. -/
theorem tagFree_script_iff (d : BatchDocument) (h : ∀ chart ∈ d.charts, chart.Unmarked)
    (script : String) (hscript : d.script = .ok script) :
    Text.TagFree script.toList ↔ ∀ text ∈ d.asGiven, Text.TagFree text.toList := by
  obtain ⟨statements, rfl, hfree, hgiven⟩ := exists_statements h hscript
  rw [Statement.tagFree_script hfree, hgiven]

/-- A chart in which every text that is not written as it was given closes an element, and every
other ends in a bracket. -/
def guardedDocument : BatchDocument :=
  ⟨⟨"51<", some "<"⟩, some ["chart<"], [⟨"a", .pieChart, some "</div>",
    some (.rows [⟨"</th>", some .string, none, some "</id>"⟩] [[.text "</td>"]]), none,
    .object [("title", .text "</script>")], []⟩]⟩

/-- Nothing in the sample is marked as code. -/
theorem unmarked_guardedDocument : ∀ chart ∈ guardedDocument.charts, chart.Unmarked := by
  refine List.forall_mem_singleton.mpr ⟨⟨?_, fun data hdata => ?_, nofun⟩, rfl⟩
  · exact .object (List.forall_mem_singleton.mpr (by decide))
      (List.forall_mem_singleton.mpr (.text _))
  · cases hdata
    exact List.forall_mem_singleton.mpr (List.forall_mem_singleton.mpr (.text _))

/-- The script for the sample is free of tags. -/
theorem tagFree_script_guardedDocument :
    (∀ chart ∈ guardedDocument.charts, chart.Unmarked) ∧
      ∃ script, guardedDocument.script = .ok script ∧ Text.TagFree script.toList := by
  have hok : guardedDocument.script.isOk = true := by decide +kernel
  obtain ⟨script, hscript⟩ := exists_eq_ok_of_isOk hok
  refine ⟨unmarked_guardedDocument, script, hscript,
    (tagFree_script_iff _ unmarked_guardedDocument _ hscript).mpr ?_⟩
  simp [asGiven, givenIds, guardedDocument, Text.TagFree]

/-- A chart in an element whose id closes a script element. -/
def closingText : String :=
  "[\x7b\"name\":\"a\",\"chart_type\":\"PieChart\",\"element_id\":\"</script>\"," ++
    "\"data\":\x7b\"kind\":\"table\",\"table\":\x7b\"cols\":[]\x7d\x7d\x7d]"

/-- What the text describes. -/
def closingDocument : BatchDocument :=
  ofCharts [⟨"a", .pieChart, some "</script>", some (.table (.object [("cols", .array [])])), none,
    .null, []⟩]

/-- Nothing in the sample is marked as code. -/
theorem unmarked_closingDocument : ∀ chart ∈ closingDocument.charts, chart.Unmarked := by
  refine List.forall_mem_singleton.mpr ⟨⟨.null, fun data hdata => ?_, nofun⟩, rfl⟩
  cases hdata
  trivial

/-- The script for the sample holds its element id, and so is not free of tags. -/
theorem not_tagFree_script_closingText :
    ∃ d script, ofText closingText = .ok d ∧ (∀ chart ∈ d.charts, chart.Unmarked) ∧
      d.script = .ok script ∧ ¬ Text.TagFree script.toList := by
  have hread : ofText closingText = .ok closingDocument := by decide +kernel
  have hok : closingDocument.script.isOk = true := by decide +kernel
  have hid : "</script>" ∈ closingDocument.asGiven := by decide +kernel
  obtain ⟨script, hscript⟩ := exists_eq_ok_of_isOk hok
  obtain ⟨statements, hstatements, hcode, hgiven⟩ :=
    exists_statements unmarked_closingDocument hscript
  refine ⟨closingDocument, script, hread, unmarked_closingDocument, hscript, fun hfree => ?_⟩
  rw [hstatements, Statement.tagFree_script hcode, hgiven] at hfree
  exact hfree _ hid

end BatchDocument

end ChartScript
