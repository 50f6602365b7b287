import ChartScript.Proofs.Document.ReadBack
import ChartScript.Proofs.Outcome

/-!
# The round trip of documents

What is read of a document whose numbers are integers of 64 bits is settled, in whichever of the
accepted forms the document is written, and a settled document is read back from what it is written
as. So reading, writing and reading again gives the document that was read first, unless the written
form is nested too deep.
-/

namespace ChartScript

variable {α : Type}

/-- The numbers of a field are numbers of the tree of its record. -/
theorem RawJson.Integral.of_record? {raw : RawJson} (h : raw.Integral) {names : List String}
    {k left : Nat} {fields : List (Option RawJson)}
    (hrecord : raw.record? names k = some (left, fields)) {value : RawJson}
    (hvalue : some value ∈ fields) : value.Integral := by
  cases h with
  | array hitems =>
    cases k with
    | zero => cases hrecord
    | succ k =>
      obtain ⟨found, hpick, hfields⟩ := Option.map_eq_some_iff.mp hrecord
      cases hfields
      exact hitems value (mem_of_pickItems? hpick hvalue)
  | object hmembers =>
    cases k with
    | zero => cases hrecord
    | succ k =>
      obtain ⟨found, hpick, hfields⟩ := Option.map_eq_some_iff.mp hrecord
      cases hfields
      obtain ⟨named, hnamed, hpick⟩ := Option.bind_eq_some_iff.mp hpick
      obtain ⟨key, hmem⟩ := exists_mem_of_pickMembers? hpick hvalue
      exact hmembers _ (mem_of_textKeys? hnamed hmem)
  | _ => cases hrecord

/-- A property that arrays and objects have exactly when all that is in them has it. -/
structure Json.Inherited (P : Json → Prop) : Prop where
  array_iff : ∀ {items : List Json}, P (.array items) ↔ ∀ item ∈ items, P item
  object_iff : ∀ {members : List (String × Json)},
    P (.object members) ↔ ∀ member ∈ members, P member.2

/-- Numbers that are integers of 64 bits are inherited. -/
theorem Json.inherited_integral : Inherited Integral := ⟨integral_array, integral_object⟩

/-- A field has what its record inherits. -/
theorem Json.Inherited.of_record? {P : Json → Prop} (hP : Inherited P) {json : Json} (h : P json)
    {names : List String} {fields : List (Option Json)} (hrecord : json.record? names = some fields)
    {value : Json} (hvalue : some value ∈ fields) : P value := by
  cases json with
  | array items => exact hP.array_iff.mp h value (mem_of_pickItems? hrecord hvalue)
  | object members =>
    obtain ⟨key, hmem⟩ := exists_mem_of_pickMembers? hrecord hvalue
    exact hP.object_iff.mp h _ hmem
  | _ => cases hrecord

/-- A list is read from the items of an array. -/
theorem RawJson.Integral.of_list? {raw : RawJson} (h : raw.Integral)
    {item? : Nat → RawJson → Option α} {k : Nat} {results : List α}
    (hread : raw.list? item? k = some results) {result : α} (hresult : result ∈ results) :
    ∃ item left, item.Integral ∧ item? left item = some result := by
  cases h with
  | array hitems =>
    cases k with
    | zero => cases hread
    | succ k =>
      obtain ⟨item, hitem, hok⟩ := exists_mem_of_mapM_eq_some hread hresult
      exact ⟨item, k, hitems item hitem, hok⟩
  | _ => cases hread

/-- What is read from a field that may be left out is read from what is given. -/
theorem RawJson.exists_of_optional? {item? : RawJson → Option α} {field : Option RawJson} {value : α}
    (h : optional? item? field = some (some value)) :
    ∃ raw, field = some raw ∧ item? raw = some value := by
  cases field with
  | none => cases h
  | some raw =>
    refine ⟨raw, rfl, ?_⟩
    cases raw with
    | null => cases h
    | _ =>
      obtain ⟨found, hfound, heq⟩ := Option.map_eq_some_iff.mp h
      rw [hfound, heq]

/-- What is kept of a field that stands for null when it is left out is settled. -/
theorem RawJson.settled_of_orDefault? {k : Nat} {field : Option RawJson} {value : Json}
    (hfield : ∀ raw, field = some raw → raw.Integral)
    (h : orDefault? .null (value? k) field = some value) : value.Settled := by
  cases field with
  | none =>
    cases h
    exact .null
  | some raw => exact (hfield raw rfl).settled_of_value? h

namespace DataDocument

/-- Data that consists of the canonical forms of values with a property. -/
def CanonicalOf (P : Json → Prop) : DataDocument → Prop
  | rows _ written => ∀ row ∈ written, ∀ json ∈ row, ∃ value, P value ∧ value.canonical = json
  | table json => ∃ value, P value ∧ value.canonical = json

variable {P : Json → Prop}

/-- The values in rows that are read are parts of what they are read from. -/
theorem canonical_of_rowsOfJson? (hP : Json.Inherited P) {json : Json} (h : P json)
    {cells : List (List Json)} (hread : rowsOfJson? json = some cells) :
    ∀ row ∈ cells, ∀ cell ∈ row, ∃ value, P value ∧ value.canonical = cell := by
  intro row hrow cell hcell
  cases json with
  | array items =>
    obtain ⟨item, hitem, hrow⟩ := exists_mem_of_mapM_eq_some hread hrow
    have hitem := hP.array_iff.mp h item hitem
    cases item with
    | array written =>
      cases hrow
      rw [Json.canonicalItems_eq_map] at hcell
      obtain ⟨value, hmem, rfl⟩ := List.mem_map.mp hcell
      exact ⟨value, hP.array_iff.mp hitem value hmem, rfl⟩
    | _ => cases hrow
  | _ => cases hread

/-- The values in data of a kind are parts of what it is read from. -/
theorem canonicalOf_of_ofKind? (hP : Json.Inherited P) {kind : String} {body : Json} (h : P body)
    {d : DataDocument} (hread : ofKind? kind body = some d) : d.CanonicalOf P := by
  unfold ofKind? at hread
  split at hread
  · obtain ⟨fields, hrecord, hread⟩ := Option.bind_eq_some_iff.mp hread
    split at hread
    · rename_i written
      obtain ⟨columns, _, hread⟩ := Option.bind_eq_some_iff.mp hread
      cases written with
      | none =>
        cases hread
        exact fun row hrow => absurd hrow List.not_mem_nil
      | some written =>
        obtain ⟨cells, hcells, hread⟩ := Option.bind_eq_some_iff.mp hread
        cases hread
        have hwritten := hP.of_record? h hrecord (List.mem_cons_of_mem _ List.mem_cons_self)
        exact canonical_of_rowsOfJson? hP hwritten hcells
    · cases hread
  · split at hread
    · obtain ⟨fields, hrecord, hread⟩ := Option.bind_eq_some_iff.mp hread
      split at hread
      · cases hread
        exact ⟨_, hP.of_record? h hrecord List.mem_cons_self, rfl⟩
      · cases hread
    · cases hread

/-- The values in data are parts of what it is read from. -/
theorem canonicalOf_of_ofJson? (hP : Json.Inherited P) {json : Json} (h : P json)
    {d : DataDocument} (hread : ofJson? json = some d) : d.CanonicalOf P := by
  unfold ofJson? at hread
  split at hread
  · have hitems := hP.array_iff.mp h
    exact canonicalOf_of_ofKind? hP
      (hP.array_iff.mpr fun item hitem => hitems item (List.mem_cons_of_mem _ hitem)) hread
  · have hmembers := hP.object_iff.mp h
    split at hread
    · exact canonicalOf_of_ofKind? hP (hP.object_iff.mpr fun member hmember =>
        hmembers member (List.mem_of_mem_filter hmember)) hread
    · cases hread
  · cases hread

/-- Data that is read from a tree of integers of 64 bits is settled. -/
theorem settled_of_ofRaw? {raw : RawJson} (h : raw.Integral) {k : Nat} {d : DataDocument}
    (hread : ofRaw? k raw = some d) : d.Settled := by
  obtain ⟨json, hjson, hread⟩ := Option.bind_eq_some_iff.mp hread
  have hsettled {json : Json} : (∃ value : Json, value.Integral ∧ value.canonical = json) →
      json.Settled := by
    rintro ⟨value, hvalue, rfl⟩
    exact hvalue.settled_canonical
  have hdata := canonicalOf_of_ofJson? Json.inherited_integral (h.of_content? hjson) hread
  cases d with
  | rows columns written => exact fun row hrow cell hcell => hsettled (hdata row hrow cell hcell)
  | table json => exact hsettled hdata

end DataDocument

/-- A comparison that is read is settled. -/
theorem ComparisonDocument.settled_of_ofRaw? {raw : RawJson} (h : raw.Integral) {k : Nat}
    {d : ComparisonDocument} (hread : ofRaw? k raw = some d) : d.Settled := by
  obtain ⟨fields, hrecord, hread⟩ := Option.bind_eq_some_iff.mp hread
  split at hread
  · obtain ⟨old, hold, hread⟩ := Option.bind_eq_some_iff.mp hread
    obtain ⟨new, hnew, hread⟩ := Option.bind_eq_some_iff.mp hread
    cases hread
    exact ⟨DataDocument.settled_of_ofRaw? (h.of_record? hrecord List.mem_cons_self) hold,
      DataDocument.settled_of_ofRaw?
        (h.of_record? hrecord (List.mem_cons_of_mem _ List.mem_cons_self)) hnew⟩
  · cases hread

/-- A chart that is read is settled. -/
theorem ChartDocument.settled_of_ofRaw? {raw : RawJson} (h : raw.Integral) {k : Nat}
    {d : ChartDocument} (hread : ofRaw? k raw = some d) : d.Settled := by
  obtain ⟨fields, hrecord, hread⟩ := Option.bind_eq_some_iff.mp hread
  split at hread
  · obtain ⟨name, _, hread⟩ := Option.bind_eq_some_iff.mp hread
    obtain ⟨type, _, hread⟩ := Option.bind_eq_some_iff.mp hread
    obtain ⟨elementId, _, hread⟩ := Option.bind_eq_some_iff.mp hread
    obtain ⟨data, hdata, hread⟩ := Option.bind_eq_some_iff.mp hread
    obtain ⟨comparison, hcomparison, hread⟩ := Option.bind_eq_some_iff.mp hread
    obtain ⟨options, hoptions, hread⟩ := Option.bind_eq_some_iff.mp hread
    obtain ⟨listeners, _, hread⟩ := Option.bind_eq_some_iff.mp hread
    cases hread
    have hfield {value : RawJson} (hvalue : some value ∈ _) := h.of_record? hrecord hvalue
    refine ⟨fun data' hsome => ?_, fun comparison' hsome => ?_, ?_⟩
    · subst hsome
      obtain ⟨given, rfl, hgiven⟩ := RawJson.exists_of_optional? hdata
      exact DataDocument.settled_of_ofRaw? (hfield (by simp)) hgiven
    · subst hsome
      obtain ⟨given, rfl, hgiven⟩ := RawJson.exists_of_optional? hcomparison
      exact ComparisonDocument.settled_of_ofRaw? (hfield (by simp)) hgiven
    · exact RawJson.settled_of_orDefault? (fun given hgiven => hfield (by simp [hgiven])) hoptions
  · cases hread

namespace BatchDocument

/-- Charts that are read are settled. -/
theorem settled_of_list? {raw : RawJson} (h : raw.Integral) {k : Nat} {charts : List ChartDocument}
    (hread : raw.list? ChartDocument.ofRaw? k = some charts) : ∀ chart ∈ charts, chart.Settled := by
  intro chart hchart
  obtain ⟨item, left, hitem, hok⟩ := h.of_list? hread hchart
  exact ChartDocument.settled_of_ofRaw? hitem hok

/-- A document with a version that is read is settled. -/
theorem settled_of_versionedOfRaw? {raw : RawJson} (h : raw.Integral) {number : Nat}
    {d : BatchDocument} (hread : versionedOfRaw? raw = some (number, d)) : d.Settled := by
  obtain ⟨fields, hrecord, hread⟩ := Option.bind_eq_some_iff.mp hread
  split at hread
  · obtain ⟨version, _, hread⟩ := Option.bind_eq_some_iff.mp hread
    obtain ⟨settings, _, hread⟩ := Option.bind_eq_some_iff.mp hread
    obtain ⟨elementIds, _, hread⟩ := Option.bind_eq_some_iff.mp hread
    obtain ⟨charts, hcharts, hread⟩ := Option.bind_eq_some_iff.mp hread
    cases hread
    exact settled_of_list? (h.of_record? hrecord (by simp)) hcharts
  · cases hread

/-- A document that is read is settled, whichever form it has. -/
theorem settled_of_ofRaw {raw : RawJson} (h : raw.Integral) {d : BatchDocument}
    (hread : ofRaw raw = .ok d) : d.Settled := by
  unfold ofRaw at hread
  split at hread
  · rename_i charts hcharts
    cases hread
    exact settled_of_list? h hcharts
  · split at hread
    · cases hread
    · rename_i number document hversioned
      split at hread
      · cases hread
        exact settled_of_versionedOfRaw? h hversioned
      · cases hread

/-- What is read of a document whose numbers are integers of 64 bits is read again from the text
that it is written as, if that is nested within what the reader allows. -/
theorem ofText_text_of_ofText (text : String) (d : BatchDocument) (hread : ofText text = .ok d)
    (hnumbers : ∀ tokens, JsonToken.tokens text.toList = some tokens →
      ∀ token ∈ tokens, token.Integral)
    (hdepth : d.toJson.depth ≤ jsonDepth) : ofText d.text = .ok d := by
  have hsettled : d.Settled := by
    unfold ofText at hread
    split at hread
    · cases hread
    · rename_i raw hraw
      exact settled_of_ofRaw (RawJson.integral_of_read? hraw hnumbers) hread
  rw [ofText, BatchDocument.text, RawJson.read?_indented hsettled.integral]
  exact hsettled.ofRaw_raw hdepth

/-- A chart written as an array, its type as an object and its options with a key given twice. -/
def sampleText : String :=
  "[[\"c\",\x7b\"PieChart\":null\x7d,null,[\"array\",[[\"k\",\"string\"]],[[null],[7]]],null," ++
    "\x7b\"pieHole\":1,\"is3D\":true,\"pieHole\":-2\x7d]]"

/-- What the text describes. -/
def sampleDocument : BatchDocument :=
  ofCharts [⟨"c", .pieChart, none,
    some (.rows [⟨"k", some .string, none, none⟩] [[.null], [.number (.integer 7)]]), none,
    .object [("is3D", .bool true), ("pieHole", .number (.integer (-2)))], []⟩]

/-- The sample is read, and read again from what it is written as. -/
theorem ofText_text_of_sampleText :
    ofText sampleText = .ok sampleDocument ∧
      (∀ tokens, JsonToken.tokens sampleText.toList = some tokens →
        ∀ token ∈ tokens, token.Integral) ∧
        sampleDocument.toJson.depth ≤ jsonDepth ∧
          ofText sampleDocument.text = .ok sampleDocument := by
  have hread : ofText sampleText = .ok sampleDocument := by decide +kernel
  have hnumbers : ∀ tokens, JsonToken.tokens sampleText.toList = some tokens →
      ∀ token ∈ tokens, token.Integral := by
    intro tokens htokens token htoken
    have hall : ((JsonToken.tokens sampleText.toList).all fun tokens =>
        tokens.all fun token => decide token.Integral) = true := by decide +kernel
    rw [htokens] at hall
    exact of_decide_eq_true (List.all_eq_true.mp hall token htoken)
  have hdepth : sampleDocument.toJson.depth ≤ jsonDepth := by decide +kernel
  exact ⟨hread, hnumbers, hdepth, ofText_text_of_ofText _ _ hread hnumbers hdepth⟩

end BatchDocument

end ChartScript
