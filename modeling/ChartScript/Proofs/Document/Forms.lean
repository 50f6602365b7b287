import ChartScript.Document.Charts
import ChartScript.Proofs.Document.RoundTrip
import ChartScript.Proofs.Json.Limits
import ChartScript.Proofs.Json.Splicing

/-!
# The two forms of documents

A document is a list of charts, or a record that has such a list among its members. A record may
also be written as an array, but then its first item is the number of a version, which no chart
begins with: so no tree has both forms, and it does not matter which is tried first. A list of
charts is the same document as the record that holds it under the default settings, as long as the
record is not nested deeper than the reader allows, for the record adds one level.
-/

namespace ChartScript

open RawJson

/-- The data of a chart is the same under every limit that is as good. -/
theorem DataDocument.steady_ofRaw? : Steady DataDocument.ofRaw? := by
  intro raw k k' found h hk
  obtain ⟨json, hjson, h⟩ := Option.bind_eq_some_iff.mp h
  rw [ofRaw?, content?_of_suffices raw hjson hk, Option.bind_some, h]

/-- A comparison is the same under every limit that is as good. -/
theorem ComparisonDocument.steady_ofRaw? : Steady ComparisonDocument.ofRaw? := by
  intro raw k k' found h hk
  obtain ⟨⟨left, fields⟩, hrecord, h⟩ := Option.bind_eq_some_iff.mp h
  obtain ⟨left', hrecord', hfields⟩ := record?_of_suffices hrecord hk
  rw [ofRaw?, hrecord']
  split at h
  · rename_i old new heq
    cases heq
    obtain ⟨oldData, hold, h⟩ := Option.bind_eq_some_iff.mp h
    obtain ⟨newData, hnew, h⟩ := Option.bind_eq_some_iff.mp h
    have hold' := DataDocument.steady_ofRaw? old left left' oldData hold (hfields old (by simp))
    have hnew' := DataDocument.steady_ofRaw? new left left' newData hnew (hfields new (by simp))
    simp only [Option.bind_eq_bind, Option.bind_some, hold', hnew']
    exact h
  · cases h

/-- A listener is the same under every limit that is as good. -/
theorem EventListener.steady_ofRaw? : Steady EventListener.ofRaw? := by
  intro raw k k' found h hk
  obtain ⟨⟨left, fields⟩, hrecord, h⟩ := Option.bind_eq_some_iff.mp h
  obtain ⟨left', hrecord', hfields⟩ := record?_of_suffices hrecord hk
  rw [ofRaw?, hrecord']
  split at h
  · rename_i event function once heq
    cases heq
    obtain ⟨type, htype, h⟩ := Option.bind_eq_some_iff.mp h
    obtain ⟨word, hword, htype⟩ := Option.bind_eq_some_iff.mp htype
    have hword' := steady_word? event left left' word hword (hfields event (by simp))
    simp only [Option.bind_eq_bind, Option.bind_some, hword', htype]
    exact h
  · cases h

/-- A chart is the same under every limit that is as good. -/
theorem ChartDocument.steady_ofRaw? : Steady ChartDocument.ofRaw? := by
  intro raw k k' found h hk
  obtain ⟨⟨left, fields⟩, hrecord, h⟩ := Option.bind_eq_some_iff.mp h
  obtain ⟨left', hrecord', hfields⟩ := record?_of_suffices hrecord hk
  rw [ofRaw?, hrecord']
  split at h
  · rename_i name type elementId data comparison options listeners heq
    cases heq
    obtain ⟨nameText, hname, h⟩ := Option.bind_eq_some_iff.mp h
    obtain ⟨chartType, htype, h⟩ := Option.bind_eq_some_iff.mp h
    obtain ⟨word, hword, htype⟩ := Option.bind_eq_some_iff.mp htype
    obtain ⟨id, hid, h⟩ := Option.bind_eq_some_iff.mp h
    obtain ⟨dataFound, hdata, h⟩ := Option.bind_eq_some_iff.mp h
    obtain ⟨comparisonFound, hcomparison, h⟩ := Option.bind_eq_some_iff.mp h
    obtain ⟨optionsFound, hoptions, h⟩ := Option.bind_eq_some_iff.mp h
    obtain ⟨listenersFound, hlisteners, h⟩ := Option.bind_eq_some_iff.mp h
    have hword' := steady_word? type left left' word hword (hfields type (by simp))
    have hdata' := DataDocument.steady_ofRaw?.optional? hdata
      fun raw hraw => hfields raw (by simp [hraw])
    have hcomparison' := ComparisonDocument.steady_ofRaw?.optional? hcomparison
      fun raw hraw => hfields raw (by simp [hraw])
    have hoptions' := steady_value?.orDefault? hoptions fun raw hraw => hfields raw (by simp [hraw])
    have hlisteners' := EventListener.steady_ofRaw?.list?.orDefault? hlisteners
      fun raw hraw => hfields raw (by simp [hraw])
    simp only [Option.bind_eq_bind, Option.bind_some, hname, hword', htype, hid, hdata',
      hcomparison', hoptions', hlisteners']
    exact h
  · cases h

namespace BatchDocument

/-- No tree is a list of charts and a record with a version: the first item of the list would have
to be a number. -/
theorem versionedOfRaw?_eq_none {raw : RawJson} {charts : List ChartDocument}
    (h : chartsOfRaw? raw = some charts) : versionedOfRaw? raw = none := by
  cases hversioned : versionedOfRaw? raw with
  | none => rfl
  | some found =>
    obtain ⟨⟨left, fields⟩, hrecord, hversioned⟩ := Option.bind_eq_some_iff.mp hversioned
    split at hversioned
    · rename_i version settings elementIds given heq
      cases heq
      obtain ⟨number, hnumber, _⟩ := Option.bind_eq_some_iff.mp hversioned
      cases raw with
      | array items =>
        obtain ⟨picked, hpick, hsame⟩ := Option.map_eq_some_iff.mp hrecord
        cases hsame
        obtain ⟨chart, hchart⟩ :=
          exists_of_mapM_eq_some h (mem_of_pickItems? hpick List.mem_cons_self)
        obtain ⟨_, hfields, _⟩ := Option.bind_eq_some_iff.mp hchart
        cases version with
        | number lexeme => cases hfields
        | _ => cases hnumber
      | _ => cases h
    · cases hversioned

/-- A document in either form, where the record is tried first. -/
def ofRawRecordFirst (raw : RawJson) : Except Error BatchDocument :=
  match versionedOfRaw? raw with
  | some (found, document) =>
    if found = version then .ok document else .error (.unsupportedVersion found)
  | none =>
    match chartsOfRaw? raw with
    | some charts => .ok (ofCharts charts)
    | none => .error .unreadableBatch

/-- It does not matter which form is tried first. -/
theorem ofRaw_eq_ofRawRecordFirst (raw : RawJson) : ofRaw raw = ofRawRecordFirst raw := by
  unfold ofRaw ofRawRecordFirst
  cases hcharts : chartsOfRaw? raw with
  | some charts => rw [versionedOfRaw?_eq_none hcharts]
  | none =>
    cases versionedOfRaw? raw with
    | none => rfl
    | some found => rfl

/-- The tree of the record that holds a list of charts, under the current version of the form. -/
def recordOf (charts : RawJson) : RawJson :=
  .object [(some "schema_version", .number ⟨false, ['1'], none, none⟩), (some "charts", charts)]

/-- A record is one level deeper than its list of charts. -/
theorem depth_recordOf (charts : RawJson) : (recordOf charts).depth = charts.depth + 1 := by
  simp [recordOf, RawJson.depth, RawJson.depthMembers]

/-- The record of a list of charts is read as the list is, with one level less to nest in. -/
theorem ofRaw_recordOf (charts : RawJson) :
    ofRaw (recordOf charts) =
      match charts.list? ChartDocument.ofRaw? (jsonDepth - 1) with
      | some charts => .ok (ofCharts charts)
      | none => .error .unreadableBatch := by
  have hversioned : versionedOfRaw? (recordOf charts) =
      (charts.list? ChartDocument.ofRaw? (jsonDepth - 1)).map fun charts => (1, ofCharts charts) := by
    have hrecord : (recordOf charts).record? ["schema_version", "config", "element_ids", "charts"]
        jsonDepth = some (jsonDepth - 1,
          [some (.number ⟨false, ['1'], none, none⟩), none, none, some charts]) := rfl
    have hversion : (RawJson.number ⟨false, ['1'], none, none⟩).unsigned32? = some 1 := rfl
    rw [versionedOfRaw?, hrecord]
    simp only [Option.bind_eq_bind, Option.bind_some, hversion, RawJson.orDefault?,
      RawJson.optional?]
    cases charts.list? ChartDocument.ofRaw? (jsonDepth - 1) with
    | none => rfl
    | some found => rfl
  have hcharts : chartsOfRaw? (recordOf charts) = none := rfl
  rw [ofRaw, hcharts, hversioned]
  cases charts.list? ChartDocument.ofRaw? (jsonDepth - 1) with
  | none => rfl
  | some found => rfl

/-- The text of the record that holds a list of charts. -/
def asRecord (charts : String) : String :=
  "\x7b\"schema_version\":1,\"charts\":" ++ charts ++ "\x7d"

/-- The opening of a record consists of two keys and a number between them. -/
theorem toList_asRecord (charts : String) :
    (asRecord charts).toList = '\x7b' :: ((Text.quote "schema_version").toList ++
      (JsonLayout.compact.colon ++ ('1' :: ',' :: ((Text.quote "charts").toList ++
        (JsonLayout.compact.colon ++ (charts.toList ++ ['\x7d'])))))) := by
  have hopening : "\x7b\"schema_version\":1,\"charts\":".toList =
      '\x7b' :: ((Text.quote "schema_version").toList ++ ':' :: '1' :: ',' ::
        ((Text.quote "charts").toList ++ [':'])) := by decide +kernel
  unfold asRecord
  rw [String.toList_append, String.toList_append, hopening]
  simp only [List.cons_append, List.append_assoc, List.nil_append]
  rfl

/-- The text of a record is read as the record of what the list is read as. -/
theorem read?_asRecord {text : String} {raw : RawJson} (h : read? text = some raw) :
    read? (asRecord text) = some (recordOf raw) := by
  have hopen (rest : List Char) : feed (.value []) ('\x7b' :: rest) = feed (.keyOrEnd []) rest :=
    feed_token rfl rfl rfl
  have hnumber (stack : List Frame) (rest : List Char) :
      feed (.value stack) ('1' :: ',' :: rest) =
        feed (.next (.number ⟨false, ['1'], none, none⟩) stack) (',' :: rest) :=
    feed_token rfl rfl rfl
  have hcomma (value : RawJson) (key : Option String) (rest : List Char) :
      feed (.next value [.members [] key]) (',' :: rest) = feed (.key [(key, value)] []) rest :=
    feed_token rfl rfl rfl
  refine read?_of_feed ?_
  rw [toList_asRecord, hopen, feed_key JsonLayout.spaced_compact _ rfl, hnumber, hcomma,
    feed_key JsonLayout.spaced_compact _ rfl, feed_read? h _ (LiteralReader.stopsFor_cons rfl _)]
  exact (feed_token rfl rfl rfl).trans (feed_nil _)

/-- A text as a list of charts. -/
def chartsOfText? (text : String) : Option (List ChartDocument) :=
  (RawJson.read? text).bind chartsOfRaw?

/-- A text as a record with the version of its form. -/
def versionedOfText? (text : String) : Option (Nat × BatchDocument) :=
  (RawJson.read? text).bind versionedOfRaw?

/-- Read a document, trying the record first. -/
def ofTextRecordFirst (text : String) : Except Error BatchDocument :=
  match RawJson.read? text with
  | none => .error .unreadableBatch
  | some raw => ofRawRecordFirst raw

/-- A list of charts is read as the document under the default settings. -/
theorem ofText_eq_of_chartsOfText? {text : String} {charts : List ChartDocument}
    (h : chartsOfText? text = some charts) : ofText text = .ok (ofCharts charts) := by
  obtain ⟨raw, hraw, hcharts⟩ := Option.bind_eq_some_iff.mp h
  rw [ofText, hraw]
  change ofRaw raw = _
  rw [ofRaw, hcharts]

/-- No text is both a list of charts and a record with a version, so it does not matter which is
tried first. A text that is a list of charts may be put into a record: the text of the record is one
JSON value, and if that is not nested too deep it is read as the same document, so it has the same
script or the same error. If it is read as a document at all, then as the same. -/
theorem forms_agree (text : String) :
    (chartsOfText? text = none ∨ versionedOfText? text = none) ∧
      ofText text = ofTextRecordFirst text ∧
      ∀ charts, chartsOfText? text = some charts →
        ∃ raw, RawJson.read? (asRecord text) = some raw ∧
          (raw.depth ≤ jsonDepth → ofText (asRecord text) = ofText text ∧
            (ofText (asRecord text)).bind script = (ofText text).bind script) ∧
          ∀ d, ofText (asRecord text) = .ok d → ofText text = .ok d := by
  refine ⟨?_, ?_, fun charts hcharts => ?_⟩
  · cases hcharts : chartsOfText? text with
    | none => exact .inl rfl
    | some charts =>
      obtain ⟨raw, hraw, hlist⟩ := Option.bind_eq_some_iff.mp hcharts
      refine .inr ?_
      rw [versionedOfText?, hraw, Option.bind_some, versionedOfRaw?_eq_none hlist]
  · unfold ofText ofTextRecordFirst
    cases RawJson.read? text with
    | none => rfl
    | some raw => exact ofRaw_eq_ofRawRecordFirst raw
  · obtain ⟨raw, hraw, hlist⟩ := Option.bind_eq_some_iff.mp hcharts
    have hread := read?_asRecord hraw
    have htext := ofText_eq_of_chartsOfText? hcharts
    have hrecord : ofText (asRecord text) = ofRaw (recordOf raw) := by
      rw [ofText, hread]
    have hsteady := ChartDocument.steady_ofRaw?.list?
    refine ⟨recordOf raw, hread, fun hdepth => ?_, fun d hd => ?_⟩
    · rw [depth_recordOf] at hdepth
      have hless := hsteady raw jsonDepth (jsonDepth - 1) charts hlist
        (.inr (Nat.le_sub_one_of_lt hdepth))
      have hsame : ofText (asRecord text) = ofText text := by
        rw [hrecord, ofRaw_recordOf, hless, htext]
      exact ⟨hsame, by rw [hsame]⟩
    · rw [hrecord, ofRaw_recordOf] at hd
      split at hd
      · rename_i found hfound
        cases hd
        have hmore := hsteady raw (jsonDepth - 1) jsonDepth found hfound (.inl (Nat.sub_le _ _))
        obtain rfl := Option.some.inj (hmore.symm.trans hlist)
        exact htext
      · cases hd

/-- The sample stays the same document in a record. -/
theorem forms_agree_sampleText :
    chartsOfText? sampleText = some sampleDocument.charts ∧
      ofText (asRecord sampleText) = .ok sampleDocument ∧
        ∃ raw, RawJson.read? (asRecord sampleText) = some raw ∧ raw.depth ≤ jsonDepth := by
  have hcharts : chartsOfText? sampleText = some sampleDocument.charts := by decide +kernel
  have hdepth : ((RawJson.read? (asRecord sampleText)).all fun raw =>
      raw.depth ≤ jsonDepth) = true := by decide +kernel
  obtain ⟨_, _, hrecord⟩ := forms_agree sampleText
  obtain ⟨raw, hraw, hsame, _⟩ := hrecord _ hcharts
  rw [hraw] at hdepth
  have hle : raw.depth ≤ jsonDepth := of_decide_eq_true hdepth
  refine ⟨hcharts, ?_, raw, hraw, hle⟩
  rw [(hsame hle).1, ofText_eq_of_chartsOfText? hcharts]
  rfl

end BatchDocument

end ChartScript
