import ChartScript.Document.Printer
import ChartScript.Document.Reader
import ChartScript.Proofs.Json.Record

/-!
# Documents are read back

Each record of a document is written as an object with the fields that are given, and read back from
the tree of that object as it was. What the record does not look into has to be settled for that,
and the nesting of what is written has to stay within what the reader allows.
-/

namespace ChartScript

variable {α β : Type}

/-- What each item is read back from, the items are read back from. -/
theorem mapM_map_eq_some {items : List α} {f : α → β} {g : β → Option α}
    (h : ∀ item ∈ items, g (f item) = some item) : (items.map f).mapM g = some items := by
  induction items with
  | nil => rfl
  | cons item rest ih =>
    obtain ⟨hitem, hrest⟩ := List.forall_mem_cons.mp h
    rw [List.map_cons, List.mapM_cons, hitem, ih hrest]
    rfl

/-- A list is read back from the tree of the array of its items, if each item is. -/
theorem RawJson.list?_raw {items : List α} {f : α → Json} {item? : Nat → RawJson → Option α} {k : Nat}
    (hdepth : (Json.array (items.map f)).depth ≤ k)
    (h : ∀ item ∈ items, ∀ left, (f item).depth ≤ left → item? left (f item).raw = some item) :
    list? item? k (Json.array (items.map f)).raw = some items := by
  obtain ⟨left, rfl⟩ := Nat.exists_eq_add_of_le' (Nat.le_trans (Nat.le_add_left 1 _) hdepth)
  have hitems := Json.depthItems_le.mp (Nat.le_of_succ_le_succ hdepth)
  rw [Json.raw, Json.rawItems_eq_map, List.map_map]
  exact mapM_map_eq_some fun item hitem =>
    h item hitem left (hitems _ (List.mem_map_of_mem hitem))

namespace Column

/-- The fields of a descriptor. -/
def fields (c : Column) : List (String × Option Json) :=
  [("label", some (.text c.label)), ("type", c.type.map fun t => .text t.word),
    ("role", c.role.map fun r => .text r.word), ("id", c.id.map .text)]

/-- A descriptor is the record of its fields. -/
theorem descriptor_eq (c : Column) : c.descriptor = .object (givenFields c.fields) := by
  obtain ⟨label, type, role, id⟩ := c
  cases type <;> cases role <;> cases id <;> rfl

/-- The fields of a descriptor have different names. -/
theorem nodup_fields (c : Column) : (c.fields.map Prod.fst).Nodup := by
  change ["label", "type", "role", "id"].Nodup
  decide

/-- A column is read back from its descriptor. -/
theorem ofJson?_descriptor (content : Json.WordContent) (c : Column) :
    ofJson? content c.descriptor = some c := by
  have hrecord : c.descriptor.record? ["label", "type", "role", "id"] =
      some (c.fields.map Prod.snd) := by
    rw [descriptor_eq]
    exact Json.record?_object c.nodup_fields
  obtain ⟨label, type, role, id⟩ := c
  rw [ofJson?, hrecord]
  cases type <;> cases role <;> cases id <;>
    simp [fields, Json.text?, Json.nullable?, Json.word?, ColumnType.ofWord?_word,
      ColumnRole.ofWord?_word]

/-- A descriptor holds no numbers. -/
theorem integral_descriptor (c : Column) : c.descriptor.Integral := by
  obtain ⟨label, type, role, id⟩ := c
  cases type <;> cases role <;> cases id <;> simp [descriptor]

end Column

namespace DataDocument

/-- The cells of the rows or the table are settled. -/
def Settled : DataDocument → Prop
  | rows _ cells => ∀ row ∈ cells, ∀ cell ∈ row, cell.Settled
  | table json => json.Settled

/-- Settled data is written with integers of 64 bits. -/
theorem Settled.integral {d : DataDocument} (h : d.Settled) : d.toJson.Integral := by
  cases d with
  | rows columns cells =>
    have hcells : ∀ row ∈ cells, ∀ cell ∈ row, cell.Integral :=
      fun row hrow cell hcell => (h row hrow cell hcell).integral
    simpa [toJson, Column.integral_descriptor] using hcells
  | table json => simpa [toJson] using Json.Settled.integral h

/-- Data is read back from JSON. -/
theorem Settled.ofJson?_toJson {d : DataDocument} (h : d.Settled) : ofJson? d.toJson = some d := by
  cases d with
  | rows columns cells =>
    have hcolumns : (columns.map Column.descriptor).mapM (Column.ofJson? .nullOrEmpty) =
        some columns :=
      mapM_map_eq_some fun column _ => column.ofJson?_descriptor .nullOrEmpty
    have hrows : rowsOfJson? (.array (cells.map .array)) = some cells := by
      refine mapM_map_eq_some fun row hrow => ?_
      change some (Json.canonicalItems row) = some row
      rw [Json.canonicalItems_eq_map]
      exact congrArg some ((List.map_congr_left fun cell hcell =>
        (h row hrow cell hcell).canonical_eq).trans (List.map_id row))
    have hrecord : (Json.object [("columns", .array (columns.map Column.descriptor)),
        ("rows", .array (cells.map .array))]).record? ["columns", "rows"] =
          some [some (.array (columns.map Column.descriptor)), some (.array (cells.map .array))] :=
      rfl
    change ofKind? "array" (.object [("columns", .array (columns.map Column.descriptor)),
        ("rows", .array (cells.map .array))]) = _
    rw [ofKind?, if_pos rfl, hrecord]
    simp only [Option.bind_eq_bind, Option.bind_some, hcolumns, hrows, Option.pure_def]
  | table json =>
    change ofKind? "table" (.object [("table", json)]) = _
    rw [ofKind?, if_neg (by decide), if_pos rfl]
    change some (table json.canonical) = _
    rw [Json.Settled.canonical_eq h]

/-- Data is read back from its tree. -/
theorem Settled.ofRaw?_raw {d : DataDocument} (h : d.Settled) {k : Nat}
    (hdepth : d.toJson.depth ≤ k) : ofRaw? k d.toJson.raw = some d := by
  rw [ofRaw?, Json.content?_raw h.integral hdepth, Option.bind_some, h.ofJson?_toJson]

end DataDocument

/-- A word is read back from the tree of its text. -/
theorem RawJson.word?_string (k : Nat) (word : String) :
    (string (some word)).word? k = some word := rfl

/-- A field that may be left out is read back from its tree, if its value is and is not null. -/
theorem RawJson.optional?_raw {value? : Option α} {f : α → Json} {item? : RawJson → Option α}
    (hnull : ∀ value, f value ≠ .null)
    (h : ∀ value, value? = some value → item? (f value).raw = some value) :
    optional? item? ((value?.map f).map Json.raw) = some value? := by
  cases value? with
  | none => rfl
  | some value =>
    have hitem := h value rfl
    have hne := hnull value
    cases hf : f value with
    | null => exact absurd hf hne
    | _ =>
      rw [hf] at hitem
      simp only [Option.map_some, hf, optional?, Json.raw, nullable?] at hitem ⊢
      rw [hitem]
      rfl

namespace ComparisonDocument

/-- Both tables are settled. -/
def Settled (d : ComparisonDocument) : Prop := d.old.Settled ∧ d.new.Settled

/-- The fields of a comparison. -/
def fields (d : ComparisonDocument) : List (String × Option Json) :=
  [("old", some d.old.toJson), ("new", some d.new.toJson)]

/-- A settled comparison is written with integers of 64 bits. -/
theorem Settled.integral {d : ComparisonDocument} (h : d.Settled) : d.toJson.Integral := by
  simp [toJson, h.1.integral, h.2.integral]

/-- A comparison is read back from its tree. -/
theorem Settled.ofRaw?_raw {d : ComparisonDocument} (h : d.Settled) {k : Nat}
    (hdepth : d.toJson.depth ≤ k) : ofRaw? k d.toJson.raw = some d := by
  have hnames : (d.fields.map Prod.fst).Nodup := by
    change ["old", "new"].Nodup
    decide
  obtain ⟨left, hrecord, hfields⟩ := Json.record?_raw hnames hdepth
  have hold := h.1.ofRaw?_raw (hfields _ List.mem_cons_self _ rfl)
  have hnew := h.2.ofRaw?_raw (hfields _ (List.mem_cons_of_mem _ List.mem_cons_self) _ rfl)
  change d.toJson.raw.record? ["old", "new"] k = _ at hrecord
  rw [ofRaw?, hrecord]
  simp only [fields, List.map_cons, List.map_nil, Option.map_some, Option.bind_eq_bind,
    Option.bind_some, hold, hnew, Option.pure_def]

end ComparisonDocument

namespace EventListener

/-- The fields of a listener. -/
def fields (listener : EventListener) : List (String × Option Json) :=
  [("event", some (.text listener.event.word)), ("function", some (.text listener.function)),
    ("once", some (.bool listener.once))]

/-- A listener is written without numbers. -/
theorem integral_toJson (listener : EventListener) : listener.toJson.Integral := by
  simp [toJson]

/-- A listener is read back from its tree. -/
theorem ofRaw?_raw (listener : EventListener) {k : Nat} (hdepth : listener.toJson.depth ≤ k) :
    ofRaw? k listener.toJson.raw = some listener := by
  have hnames : (listener.fields.map Prod.fst).Nodup := by
    change ["event", "function", "once"].Nodup
    decide
  obtain ⟨left, hrecord, _⟩ := Json.record?_raw hnames hdepth
  change listener.toJson.raw.record? ["event", "function", "once"] k = _ at hrecord
  rw [ofRaw?, hrecord]
  simp only [fields, List.map_cons, List.map_nil, Option.map_some, Option.bind_eq_bind,
    Option.bind_some, RawJson.word?_string, EventType.ofWord?_word, Json.raw, RawJson.text?,
    RawJson.orDefault?, RawJson.bool?, Option.pure_def]

/-- Listeners as JSON, if there are any. -/
def listJson? (listeners : List EventListener) : Option Json :=
  if listeners.isEmpty then none else some (.array (listeners.map toJson))

/-- Listeners are read back from their trees, and where there are none nothing is written. -/
theorem listJson?_raw (listeners : List EventListener) {k : Nat}
    (hdepth : ∀ value, listJson? listeners = some value → value.depth ≤ k) :
    RawJson.orDefault? [] (RawJson.list? ofRaw? k) ((listJson? listeners).map Json.raw) =
      some listeners := by
  cases listeners with
  | nil => rfl
  | cons listener rest =>
    exact RawJson.list?_raw (hdepth _ rfl) fun item _ left hleft => item.ofRaw?_raw hleft

end EventListener

namespace LoaderSettings

/-- The fields of settings. -/
def fields (s : LoaderSettings) : List (String × Option Json) :=
  [("version", some (.text s.version)),
    ("language", some (match s.language with
      | some language => .text language
      | none => .null))]

/-- Settings are written without numbers. -/
theorem integral_toJson (s : LoaderSettings) : s.toJson.Integral := by
  obtain ⟨version, language⟩ := s
  cases language <;> simp [toJson]

/-- Settings are read back from their tree. -/
theorem ofRaw?_raw (s : LoaderSettings) {k : Nat} (hdepth : s.toJson.depth ≤ k) :
    ofRaw? k s.toJson.raw = some s := by
  have hnames : (s.fields.map Prod.fst).Nodup := by
    change ["version", "language"].Nodup
    decide
  obtain ⟨left, hrecord, _⟩ := Json.record?_raw hnames hdepth
  change s.toJson.raw.record? ["version", "language"] k = _ at hrecord
  rw [ofRaw?, hrecord]
  obtain ⟨version, language⟩ := s
  cases language <;>
    simp only [fields, List.map_cons, List.map_nil, Option.map_some, Option.bind_eq_bind,
      Option.bind_some, Json.raw, RawJson.text?, RawJson.orDefault?, RawJson.optional?,
      RawJson.nullable?, Option.pure_def]

end LoaderSettings

namespace ChartDocument

/-- What a chart holds as JSON is settled. -/
structure Settled (d : ChartDocument) : Prop where
  data : ∀ data, d.data = some data → data.Settled
  comparison : ∀ comparison, d.comparison = some comparison → comparison.Settled
  options : d.options.Settled

/-- The fields of a chart. -/
def fields (d : ChartDocument) : List (String × Option Json) :=
  [("name", some (.text d.name)), ("chart_type", some (.text d.type.word)),
    ("element_id", d.elementId.map .text), ("data", d.data.map DataDocument.toJson),
    ("diff", d.comparison.map ComparisonDocument.toJson), ("options", some d.options),
    ("events", EventListener.listJson? d.listeners)]

/-- A chart is written as the record of its fields. -/
theorem toJson_eq (d : ChartDocument) : d.toJson = .object (givenFields d.fields) := by
  obtain ⟨name, type, elementId, data, comparison, options, listeners⟩ := d
  cases elementId <;> cases data <;> cases comparison <;> cases listeners <;> rfl

/-- A settled chart is written with integers of 64 bits. -/
theorem Settled.integral {d : ChartDocument} (h : d.Settled) : d.toJson.Integral := by
  obtain ⟨name, type, elementId, data, comparison, options, listeners⟩ := d
  have hdata : ∀ d, data = some d → d.toJson.Integral := fun d hd => (h.data d hd).integral
  have hcomparison : ∀ d, comparison = some d → d.toJson.Integral :=
    fun d hd => (h.comparison d hd).integral
  have hoptions := h.options.integral
  have hlisteners (listener : EventListener) := listener.integral_toJson
  rw [toJson_eq]
  refine .object fun member hmember => ?_
  have hfield := mem_givenFields.mp hmember
  simp only [fields, List.mem_cons, Prod.mk.injEq, Option.some.injEq, List.not_mem_nil,
    or_false] at hfield
  rcases hfield with ⟨_, hvalue⟩ | ⟨_, hvalue⟩ | ⟨_, hvalue⟩ | ⟨_, hvalue⟩ | ⟨_, hvalue⟩ |
    ⟨_, hvalue⟩ | ⟨_, hvalue⟩
  · rw [hvalue]
    exact .text name
  · rw [hvalue]
    exact .text type.word
  · obtain ⟨id, _, hid⟩ := Option.map_eq_some_iff.mp hvalue.symm
    rw [← hid]
    exact .text id
  · obtain ⟨d, hd, hjson⟩ := Option.map_eq_some_iff.mp hvalue.symm
    rw [← hjson]
    exact hdata d hd
  · obtain ⟨d, hd, hjson⟩ := Option.map_eq_some_iff.mp hvalue.symm
    rw [← hjson]
    exact hcomparison d hd
  · rw [hvalue]
    exact hoptions
  · unfold EventListener.listJson? at hvalue
    split at hvalue
    · cases hvalue
    · rw [Option.some.inj hvalue]
      simpa using fun listener _ => hlisteners listener

/-- A chart is read back from its tree. -/
theorem Settled.ofRaw?_raw {d : ChartDocument} (h : d.Settled) {k : Nat}
    (hdepth : d.toJson.depth ≤ k) : ofRaw? k d.toJson.raw = some d := by
  have hnames : (d.fields.map Prod.fst).Nodup := by
    change ["name", "chart_type", "element_id", "data", "diff", "options", "events"].Nodup
    decide
  rw [toJson_eq] at hdepth ⊢
  obtain ⟨left, hrecord, hfields⟩ := Json.record?_raw hnames hdepth
  change (Json.object (givenFields d.fields)).raw.record?
    ["name", "chart_type", "element_id", "data", "diff", "options", "events"] k = _ at hrecord
  have helementId : RawJson.optional? RawJson.text? ((d.elementId.map .text).map Json.raw) =
      some d.elementId :=
    RawJson.optional?_raw nofun fun _ _ => rfl
  have hdata : RawJson.optional? (DataDocument.ofRaw? left)
      ((d.data.map DataDocument.toJson).map Json.raw) = some d.data := by
    refine RawJson.optional?_raw (fun data => by cases data <;> nofun) fun data hsome => ?_
    refine (h.data data hsome).ofRaw?_raw ?_
    refine hfields ("data", d.data.map DataDocument.toJson) (by simp [fields]) _ ?_
    rw [hsome]
    rfl
  have hcomparison : RawJson.optional? (ComparisonDocument.ofRaw? left)
      ((d.comparison.map ComparisonDocument.toJson).map Json.raw) = some d.comparison := by
    refine RawJson.optional?_raw nofun fun comparison hsome => ?_
    refine (h.comparison comparison hsome).ofRaw?_raw ?_
    refine hfields ("diff", d.comparison.map ComparisonDocument.toJson) (by simp [fields]) _ ?_
    rw [hsome]
    rfl
  have hoptions : RawJson.orDefault? .null (RawJson.value? left) (some d.options.raw) =
      some d.options :=
    h.options.value?_raw (hfields ("options", some d.options) (by simp [fields]) _ rfl)
  have hlisteners := EventListener.listJson?_raw d.listeners fun value hvalue =>
    hfields ("events", EventListener.listJson? d.listeners) (by simp [fields]) value hvalue
  rw [ofRaw?, hrecord]
  simp only [fields, List.map_cons, List.map_nil, Option.map_some, Option.bind_eq_bind,
    Option.bind_some, Json.raw, RawJson.text?, RawJson.word?_string, ChartType.ofWord?_word]
  simp only [helementId, hdata, hcomparison, hoptions, hlisteners, Option.bind_some,
    Option.pure_def]

end ChartDocument

namespace BatchDocument

/-- What the charts of a document hold as JSON is settled. -/
def Settled (d : BatchDocument) : Prop := ∀ chart ∈ d.charts, chart.Settled

/-- The fields of a document. -/
def fields (d : BatchDocument) : List (String × Option Json) :=
  [("schema_version", some (.number (.integer version))), ("config", some d.settings.toJson),
    ("element_ids", d.elementIds.map fun ids => .array (ids.map .text)),
    ("charts", some (.array (d.charts.map ChartDocument.toJson)))]

/-- A document is written as the record of its fields. -/
theorem toJson_eq (d : BatchDocument) : d.toJson = .object (givenFields d.fields) := by
  obtain ⟨settings, elementIds, charts⟩ := d
  cases elementIds <;> rfl

/-- A settled document is written with integers of 64 bits. -/
theorem Settled.integral {d : BatchDocument} (h : d.Settled) : d.toJson.Integral := by
  have hcharts : ∀ chart ∈ d.charts, chart.toJson.Integral :=
    fun chart hchart => (h chart hchart).integral
  have hversion : (JsonNumber.integer version).Is64Bit := by
    constructor <;> decide
  obtain ⟨settings, elementIds, charts⟩ := d
  cases elementIds <;>
    simpa [toJson, optionalField, hversion, settings.integral_toJson] using hcharts

/-- A document is read back from its tree. -/
theorem Settled.ofRaw_raw {d : BatchDocument} (h : d.Settled)
    (hdepth : d.toJson.depth ≤ jsonDepth) : ofRaw d.toJson.raw = .ok d := by
  have hnames : (d.fields.map Prod.fst).Nodup := by
    change ["schema_version", "config", "element_ids", "charts"].Nodup
    decide
  rw [toJson_eq] at hdepth ⊢
  obtain ⟨left, hrecord, hfields⟩ := Json.record?_raw hnames hdepth
  change (Json.object (givenFields d.fields)).raw.record?
    ["schema_version", "config", "element_ids", "charts"] jsonDepth = _ at hrecord
  have hversion : (Json.number (.integer version)).raw.unsigned32? = some version := by decide
  have hsettings : RawJson.orDefault? .default (LoaderSettings.ofRaw? left)
      (some d.settings.toJson.raw) = some d.settings :=
    d.settings.ofRaw?_raw (hfields ("config", some d.settings.toJson) (by simp [fields]) _ rfl)
  have hids : RawJson.optional? (RawJson.list? (fun _ => RawJson.text?) left)
      ((d.elementIds.map fun ids => .array (ids.map .text)).map Json.raw) = some d.elementIds := by
    refine RawJson.optional?_raw nofun fun ids hsome => ?_
    refine RawJson.list?_raw ?_ fun _ _ _ _ => rfl
    refine hfields ("element_ids", d.elementIds.map fun ids => .array (ids.map .text))
      (by simp [fields]) _ ?_
    rw [hsome]
    rfl
  have hcharts : RawJson.list? ChartDocument.ofRaw? left
      (Json.array (d.charts.map ChartDocument.toJson)).raw = some d.charts := by
    refine RawJson.list?_raw ?_ fun chart hchart _ hleft => (h chart hchart).ofRaw?_raw hleft
    exact hfields ("charts", _) (by simp [fields]) _ rfl
  have hversioned : versionedOfRaw? (Json.object (givenFields d.fields)).raw =
      some (version, d) := by
    rw [versionedOfRaw?, hrecord]
    simp only [fields, List.map_cons, List.map_nil, Option.map_some, Option.bind_eq_bind,
      Option.bind_some]
    simp only [hversion, hsettings, hids, hcharts, Option.bind_some, Option.pure_def]
  have hcharts? : chartsOfRaw? (Json.object (givenFields d.fields)).raw = none := rfl
  rw [ofRaw, hcharts?, hversioned]
  exact if_pos rfl

end BatchDocument

end ChartScript
