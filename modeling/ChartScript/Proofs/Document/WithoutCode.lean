import ChartScript.Proofs.Document.Tags
import ChartScript.Proofs.Script.ElementIds
import ChartScript.Proofs.Script.Alike

/-!
# Charts without code

A chart from a document in which nothing is marked as code holds none: neither in its options nor in
its cells, at any depth, and neither do the charts that it compares. So what it declares in a script
shows the same outside of string literals whatever texts are in its options, cells and columns. A
text that is read as a date or a time is one no longer: its numbers are the arguments of a call.

Before these declarations stands the construction of the chart, which holds the element id as it was
given. If the id is bare, the literal that it stands in ends where it should. A quote in the id turns
inside out what follows it, and a title can be code there.
-/

namespace ChartScript

open Text

mutual

/-- Whether code is in a value, at any depth. -/
def OptionValue.holdsCode : OptionValue → Bool
  | .code _ => true
  | .list items => OptionValue.itemsHoldCode items
  | .object options => options.holdsCode
  | .indexed entries => Options.nodesHoldCode entries
  | _ => false

/-- Whether code is in one of some items. -/
def OptionValue.itemsHoldCode : List OptionValue → Bool
  | [] => false
  | item :: rest => item.holdsCode || OptionValue.itemsHoldCode rest

/-- Whether code is in a tree, at any depth. -/
def Options.holdsCode : Options → Bool
  | ⟨_, entries⟩ => Options.entriesHoldCode entries

/-- Whether code is in the value of one of some entries. -/
def Options.entriesHoldCode : List (String × OptionValue) → Bool
  | [] => false
  | (_, value) :: rest => value.holdsCode || Options.entriesHoldCode rest

/-- Whether code is in one of some labelled nodes. -/
def Options.nodesHoldCode : List (UInt32 × Options) → Bool
  | [] => false
  | (_, options) :: rest => options.holdsCode || Options.nodesHoldCode rest

end

/-- No code is in items if it is in none of them. -/
theorem OptionValue.itemsHoldCode_eq_false {items : List OptionValue}
    (h : ∀ item ∈ items, item.holdsCode = false) : itemsHoldCode items = false := by
  induction items with
  | nil => rfl
  | cons item items ih =>
    obtain ⟨hitem, hitems⟩ := List.forall_mem_cons.mp h
    rw [itemsHoldCode, hitem, ih hitems, Bool.or_self]

/-- No code is in entries if it is in none of their values. -/
theorem Options.entriesHoldCode_eq_false {entries : List (String × OptionValue)}
    (h : ∀ entry ∈ entries, entry.2.holdsCode = false) : entriesHoldCode entries = false := by
  induction entries with
  | nil => rfl
  | cons entry entries ih =>
    obtain ⟨hentry, hentries⟩ := List.forall_mem_cons.mp h
    rw [entriesHoldCode, hentry, ih hentries, Bool.or_self]

/-- No code is in labelled nodes if it is in none of them. -/
theorem Options.nodesHoldCode_eq_false {entries : List (UInt32 × Options)}
    (h : ∀ entry ∈ entries, entry.2.holdsCode = false) : nodesHoldCode entries = false := by
  induction entries with
  | nil => rfl
  | cons entry entries ih =>
    obtain ⟨hentry, hentries⟩ := List.forall_mem_cons.mp h
    rw [nodesHoldCode, hentry, ih hentries, Bool.or_self]

namespace OptionValue

/-- A single value that fits a kind is no code. -/
theorem holdsCode_eq_false_of_fitsScalar {kind : ScalarKind} {value : OptionValue}
    (h : value.fitsScalar kind = true) : value.holdsCode = false := by
  cases value <;> first | rfl | cases h

/-- A value that fits and is not code holds none, if the nodes below hold none. -/
theorem holdsCode_eq_false {kind : FieldKind Schema} {value : OptionValue}
    (hfits : value.fits kind = true) (hcode : value.CodeFree)
    (hnodes : ∀ node ∈ value.nodes, node.holdsCode = false) : value.holdsCode = false := by
  cases value with
  | code source => exact hcode.elim
  | object node => exact hnodes node List.mem_cons_self
  | indexed entries => exact Options.nodesHoldCode_eq_false (List.forall_mem_map.mp hnodes)
  | list items =>
    refine itemsHoldCode_eq_false fun item hitem => ?_
    cases kind with
    | objectList declared =>
      rcases fits_objectList.mp hfits item hitem with ⟨node, rfl, _⟩ | ⟨source, rfl⟩
      · exact hnodes node (mem_nodes_list.mpr ⟨_, hitem, List.mem_cons_self⟩)
      · exact absurd hitem (hcode source)
    | scalarList kind =>
      have hfits := List.all_eq_true.mp hfits item hitem
      cases item with
      | code source => exact absurd hitem (hcode source)
      | _ => exact holdsCode_eq_false_of_fitsScalar hfits
    | _ => cases hfits
  | _ => rfl

end OptionValue

/-- A well-typed tree in which no value is code holds none at any depth. -/
theorem Options.WellTypedOver.holdsCode_eq_false {P : Schema → Prop} {options : Options}
    (h : options.WellTypedOver P) (hcode : options.CodeFree) : options.holdsCode = false := by
  induction h with
  | @intro options here _ ih =>
    obtain ⟨schema, entries⟩ := options
    refine entriesHoldCode_eq_false fun entry hentry => ?_
    obtain ⟨spec, _, hfits⟩ := here.2.2 entry hentry
    refine OptionValue.holdsCode_eq_false hfits (hcode.here entry hentry) fun node hnode => ?_
    have hchild : node ∈ children ⟨schema, entries⟩ := mem_children.mpr ⟨entry, hentry, hnode⟩
    exact ih node hchild (hcode.of_mem hchild)

/-- A chart without code in its options and in its cells, and without any in the charts that it
compares. -/
inductive Chart.WithoutCode : Chart → Prop
  | table {c : Chart} {source : TableSource} (hdata : c.data = .table source)
    (hsource : source.CodeFree) (hoptions : c.options.holdsCode = false) : WithoutCode c
  | comparison {c old new : Chart} (hdata : c.data = .comparison old new)
    (hold : WithoutCode old) (hnew : WithoutCode new) (hoptions : c.options.holdsCode = false) :
    WithoutCode c

/-- A text that shows outside of its string literals what the emptied text does, whatever follows it,
and nothing there opens anything but a literal. -/
structure HidesTexts (text emptied : String) : Prop where
  shows_emptied : Shows text.toList (StringLiteral.outside emptied.toList)
  quotesOnly : QuotesOnly (StringLiteral.outside emptied.toList)

/-- A text that is like the emptied text hides its texts. -/
theorem hidesTexts_of_alike {text emptied : String} (h : Alike text.toList emptied.toList) :
    HidesTexts text emptied := by
  obtain ⟨shown, hshows, hemptied, honly⟩ := h
  rw [← hemptied.outside_eq] at hshows honly
  exact ⟨hshows, honly⟩

/-- Statements that are like the emptied ones make a text that hides its texts. -/
theorem Statement.hidesTexts_script {statements : List Statement}
    (h : ∀ s ∈ statements, Alike s.text.toList s.emptied.text.toList) :
    HidesTexts (script statements) (script (statements.map emptied)) := by
  refine hidesTexts_of_alike (partByPart_alike.join ?_)
  rw [List.map_map, List.forall₂_map_left_iff, List.forall₂_map_right_iff, List.forall₂_same]
  exact h

/-- The construction of a chart in the element of a bare id shows the quotes of the id. -/
theorem Chart.alike_construction (c : Chart) {id : String} (h : StringLiteral.Bare id.toList) :
    Alike (c.construction id).text.toList (c.construction id).emptied.text.toList := by
  have hopening : Inert c.constructionOpening.toList := by
    simp only [constructionOpening, String.toList_append, inert_append]
    exact ⟨⟨⟨⟨by decide, c.name.inert_text⟩, by decide⟩, c.type.inert_path⟩, by decide⟩
  have hclosing : Inert "));".toList := by decide
  have hliteral : Alike ('"' :: (id.toList ++ ['"'])) ('"' :: (id.toList ++ ['"'])) :=
    ⟨_, .bare h, .bare h, quotesOnly_pair⟩
  have htext : (c.construction id).text.toList =
      c.constructionOpening.toList ++ '"' :: (id.toList ++ ['"']) ++ "));".toList := by
    rw [toList_text_construction]
    simp only [List.append_assoc, List.cons_append, List.nil_append]
  change Alike (c.construction id).text.toList (c.construction id).text.toList
  rw [htext]
  exact ((Alike.of_inert hopening).append hliteral).append (.of_inert hclosing)

/-- A chart of unmarked data holds no code. -/
theorem DataDocument.Unmarked.withoutCode {d : DataDocument} (h : d.Unmarked) {name : String}
    {type : ChartType} {c : Chart} (hchart : d.chart name type = .ok c) : c.WithoutCode := by
  obtain ⟨source, hsource, hchart⟩ := bind_eq_ok.mp hchart
  obtain ⟨identifier, _, hchart⟩ := bind_eq_ok.mp hchart
  cases hchart
  exact .table rfl (h.source hsource) rfl

/-- A comparison holds no code if the charts that it compares hold none. -/
theorem Chart.WithoutCode.compare {name : String} {old new c : Chart} (hold : old.WithoutCode)
    (hnew : new.WithoutCode) (h : Chart.compare name old new = .ok c) : c.WithoutCode := by
  obtain ⟨_, _, _, _, _, rfl⟩ := Chart.exists_of_compare_eq_ok h
  exact .comparison rfl hold hnew rfl

/-- Other options without code leave a chart without code, and so do other listeners and ids. -/
theorem Chart.WithoutCode.of_data_eq {c c' : Chart} (h : c.WithoutCode) (hdata : c'.data = c.data)
    (hoptions : c'.options.holdsCode = false) : c'.WithoutCode := by
  cases h with
  | table h hsource => exact .table (hdata.trans h) hsource hoptions
  | comparison h hold hnew => exact .comparison (hdata.trans h) hold hnew hoptions

namespace ChartDocument

variable {d : ChartDocument}

/-- A chart without marks holds no code. -/
theorem MarkFree.withoutCode (h : d.MarkFree) {c : Chart} (hchart : d.chart = .ok c) :
    c.WithoutCode := by
  obtain ⟨⟨bare, hbare, hdata⟩, hwell, hcode, _⟩ := h.chart hchart
  have hbareCode :=
    h.of_bareChart DataDocument.Unmarked.withoutCode Chart.WithoutCode.compare hbare
  exact hbareCode.of_data_eq hdata (hwell.holdsCode_eq_false hcode)

/-- A chart of a document in whose options and rows nothing is marked as code holds no code, in its
options, its cells, and the charts that it compares. What it declares after its construction hides
the texts of options, cells and columns, whatever follows in the script, and no other statement of
the chart has any of them. In the element of a bare id, all that starts the chart hides them. -/
theorem withoutCode_and_hidesTexts (d : ChartDocument) (h : d.MarkFree) (c : Chart)
    (hchart : d.chart = .ok c) :
    c.WithoutCode ∧
      (∀ id statements, c.start id = .ok statements →
        (∃ declarations, statements = c.construction id :: declarations ∧
          ∀ s ∈ declarations, HidesTexts s.text s.emptied.text) ∧
        (StringLiteral.Bare id.toList → HidesTexts (Statement.script statements)
          (Statement.script (statements.map Statement.emptied)))) ∧
      (∀ id, (c.construction id).emptied = c.construction id) ∧
      ∀ s ∈ c.finish, s.emptied = s := by
  refine ⟨h.withoutCode hchart, fun id statements hstart => ?_, fun _ => rfl, fun s hs => ?_⟩
  · obtain ⟨hoptions, hdata⟩ := h.codeFree hchart
    -- nothing that is declared depends on the listeners, so the chart may be taken without them
    have hfree : { c with listeners := [] }.CodeFree := ⟨rfl, hoptions, hdata⟩
    obtain ⟨hcode, hgiven⟩ := hfree.start hstart
    obtain ⟨data, literal, _, _, rfl⟩ := Chart.exists_of_start_eq_ok hstart
    rw [List.flatMap_cons] at hgiven
    have hnone := List.flatMap_eq_nil_iff.mp (List.append_right_eq_self.mp hgiven)
    have halike := fun s hs => (hcode s (List.mem_cons_of_mem _ hs)).alike_text (hnone s hs)
    refine ⟨⟨_, rfl, fun s hs => hidesTexts_of_alike (halike s hs)⟩, fun hbare => ?_⟩
    exact Statement.hidesTexts_script
      (List.forall_mem_cons.mpr ⟨c.alike_construction hbare, halike⟩)
  · rcases List.mem_append.mp hs with hs | hs
    · obtain ⟨listener, _, rfl⟩ := List.mem_map.mp hs
      rfl
    · rw [List.mem_singleton.mp hs]
      rfl

/-- A comparison of two tables in which every text would end its literal if it were written as it
stands, but for one that is a date. -/
def quotedDocument : ChartDocument :=
  let data : DataDocument :=
    .rows [⟨"\"", some .string, none, some "\\\""⟩, ⟨"\"]", some .date, none, none⟩]
      [[.text "\");alert(\"", .text "2020-02-29"]]
  ⟨"a", .pieChart, none, none, some ⟨data, data⟩, .object [("title", .text "\"\x7d);//")], []⟩

/-- Nothing in the sample is marked as code. -/
theorem markFree_quotedDocument : quotedDocument.MarkFree := by
  have hrow (cells : List String) : ∀ json ∈ cells.map Json.text, json.Unmarked :=
    List.forall_mem_map.mpr fun _ _ => .text _
  refine ⟨?_, nofun, fun comparison hcomparison => ?_⟩
  · exact .object (List.forall_mem_singleton.mpr (by decide))
      (List.forall_mem_singleton.mpr (.text _))
  · cases hcomparison
    exact ⟨List.forall_mem_singleton.mpr (hrow [_, _]), List.forall_mem_singleton.mpr (hrow [_, _])⟩

/-- In an element with a bare id, what starts the chart of the sample hides its texts, and so do the
tables and the options that it declares. -/
theorem hidesTexts_quotedDocument :
    quotedDocument.MarkFree ∧ StringLiteral.Bare "b".toList ∧ ∃ c statements,
      quotedDocument.chart = .ok c ∧ c.start "b" = .ok statements ∧ c.WithoutCode ∧
        HidesTexts (Statement.script statements)
          (Statement.script (statements.map Statement.emptied)) ∧
        ∃ declarations, statements = c.construction "b" :: declarations ∧
          declarations.length = 4 ∧ ∀ s ∈ declarations, HidesTexts s.text s.emptied.text := by
  have hbare : StringLiteral.Bare "b".toList := by decide
  have hcount : ((quotedDocument.chart.bind fun c => c.start "b").map List.length).toOption =
      some 5 := by decide +kernel
  cases hstatements : quotedDocument.chart.bind fun c => c.start "b" with
  | error e =>
    rw [hstatements] at hcount
    cases hcount
  | ok statements =>
    rw [hstatements] at hcount
    have hlength : statements.length = 5 := Option.some.inj hcount
    obtain ⟨c, hchart, hstart⟩ := bind_eq_ok.mp hstatements
    obtain ⟨hcode, hstarted, _⟩ :=
      withoutCode_and_hidesTexts quotedDocument markFree_quotedDocument c hchart
    obtain ⟨⟨declarations, rfl, hhides⟩, hall⟩ := hstarted "b" statements hstart
    exact ⟨markFree_quotedDocument, hbare, c, _, hchart, hstart, hcode, hall hbare, declarations,
      rfl, Nat.succ.inj hlength, hhides⟩

end ChartDocument

namespace BatchDocument

/-- A title that is code where it does not stand in a literal. -/
def codeTitle : String := "];alert(1)\x7d//"

/-- A chart in an element whose id has a quote. -/
def quotedIdDocument : BatchDocument :=
  ofCharts [⟨"a", .pieChart, some "a\"));[", some (.rows [⟨"+", none, none, none⟩,
    ⟨"+", none, none, none⟩] []), none, .object [("title", .text codeTitle)], []⟩]

/-- Nothing in the sample is marked as code. -/
theorem markFree_quotedIdDocument : ∀ chart ∈ quotedIdDocument.charts, chart.MarkFree := by
  refine List.forall_mem_singleton.mpr ⟨?_, fun data hdata => ?_, nofun⟩
  · exact .object (List.forall_mem_singleton.mpr (by decide))
      (List.forall_mem_singleton.mpr (.text _))
  · cases hdata
    exact fun _ hrow => absurd hrow List.not_mem_nil

/-- Its script shows the title outside of string literals: a literal ends at the quote in the id, and
the next one begins at the quote that should have ended it. -/
theorem title_outside_quotedIdDocument :
    (∀ chart ∈ quotedIdDocument.charts, chart.MarkFree) ∧
      ∃ script, quotedIdDocument.script = .ok script ∧
        codeTitle.toList <:+: StringLiteral.outside script.toList := by
  have hscript : quotedIdDocument.script.toOption = some (
      "google.charts.load('current', \x7bpackages:['corechart']\x7d);" ++
      "google.charts.setOnLoadCallback(drawChartCb9e93efad860dbc0145362b3c86ee88); " ++
      "function drawChartCb9e93efad860dbc0145362b3c86ee88() \x7b" ++
      "var a = new google.visualization.PieChart(document.getElementById(" ++
      ("\"" ++ "a" ++ "\"") ++ "));[" ++
      ("\"" ++ "));var dataA = new google.visualization.arrayToDataTable([[" ++ "\"") ++ "+" ++
      ("\"" ++ "," ++ "\"") ++ "+" ++
      ("\"" ++ "]], false);var optionsA = \x7btitle:" ++ "\"") ++ codeTitle ++
      "\"\x7d;a.draw(dataA, optionsA);\x7d") := by
    decide +kernel
  have hplain {text : String} (h : '"' ∉ text.toList) : Shows text.toList text.toList :=
    .of_not_mem h
  have hbare {text : String} (h : StringLiteral.Bare text.toList) :
      Shows ("\"".toList ++ text.toList ++ "\"".toList) ['"', '"'] :=
    .bare h
  cases hok : quotedIdDocument.script with
  | error e =>
    rw [hok] at hscript
    cases hscript
  | ok script =>
    rw [hok] at hscript
    obtain rfl := Option.some.inj hscript
    refine ⟨markFree_quotedIdDocument, _, rfl, ?_⟩
    simp only [String.toList_append]
    exact ((((((((((hplain (by decide)).append (hplain (by decide))).append
      (hplain (by decide))).append (hplain (by decide))).append (hbare (by decide))).append
      (hplain (by decide))).append (hbare (by decide))).append (hplain (by decide))).append
      (hbare (by decide))).append (hplain (by decide))).append (hbare (by decide))
      |>.infix_outside (hplain (by decide)) _

end BatchDocument

end ChartScript
