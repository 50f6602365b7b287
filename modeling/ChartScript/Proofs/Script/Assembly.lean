import ChartScript.Proofs.Chart.Building

/-!
# When a batch has a script

A batch of sound charts has a script exactly when it passes the checks on the batch as a whole:
starting a chart asks for nothing but an element id that is not empty, and finishing charts repeats
checks made before. The checks come in a fixed order, and the error is that of the first that fails.
-/

namespace ChartScript

namespace Chart

variable {c : Chart}

/-- The data of a sound chart can be declared. -/
theorem Sound.exists_dataDeclarations (h : c.Sound) :
    ∃ statements, c.dataDeclarations = .ok statements := by
  unfold Chart.dataDeclarations
  split
  · exact ⟨_, rfl⟩
  · rename_i old new hdata
    obtain ⟨hold, hnew⟩ := h.tables old new hdata
    obtain ⟨oldTable, hold⟩ := exists_table_eq_ok hold
    obtain ⟨newTable, hnew⟩ := exists_table_eq_ok hnew
    rw [hold, hnew]
    exact ⟨_, rfl⟩

/-- An id is given and not empty. -/
def Named (id : Option String) : Prop :=
  ∃ text, id = some text ∧ text ≠ ""

/-- An element id is accepted when it is given and not empty. -/
theorem requireElementId_eq_ok {id : Option String} {text : String} :
    c.requireElementId id = .ok text ↔ id = some text ∧ text ≠ "" := by
  unfold requireElementId
  cases id with
  | none => simp
  | some given =>
    by_cases hempty : given = ""
    · simp only [hempty, if_true, reduceCtorEq, Option.some.injEq, false_iff, not_and, not_not]
      exact fun h => h.symm
    · simp only [hempty, if_false, Except.ok.injEq, Option.some.injEq, iff_self_and]
      rintro rfl
      exact hempty

/-- Else it is reported as missing, with the name of the chart. -/
theorem requireElementId_eq_error {id : Option String} {e : Error} :
    c.requireElementId id = .error e ↔ ¬ Named id ∧ e = .missingElementId c.name.text := by
  unfold requireElementId Named
  cases id with
  | none => simp [eq_comm]
  | some given =>
    by_cases hempty : given = "" <;> simp [hempty, eq_comm]

/-- A sound chart can be started in an element. -/
theorem Sound.exists_start (h : c.Sound) {id : String} (hid : id ≠ "") :
    ∃ statements, c.start id = .ok statements := by
  obtain ⟨data, hdata⟩ := h.exists_dataDeclarations
  have hid : c.requireElementId (some id) = .ok id := requireElementId_eq_ok.mpr ⟨rfl, hid⟩
  unfold Chart.start Options.declaration
  rw [hid, hdata, h.literal_eq_ok]
  exact ⟨_, rfl⟩

end Chart

/-- Charts are accepted as a batch when there is one. -/
theorem requireCharts_eq_ok {charts : List Chart} :
    requireCharts charts = .ok () ↔ charts ≠ [] := by
  cases charts <;> simp [requireCharts]

/-- All charts are of one class. -/
def Uniform (charts : List Chart) : Prop :=
  ∀ c ∈ charts, ∀ d ∈ charts, c.chartClass = d.chartClass

/-- Charts are of one class when each has the class of the first. -/
theorem uniform_cons {first : Chart} {rest : List Chart} :
    Uniform (first :: rest) ↔ ∀ c ∈ first :: rest, c.chartClass = first.chartClass := by
  constructor
  · exact fun h c hc => h c hc first List.mem_cons_self
  · exact fun h c hc d hd => (h c hc).trans (h d hd).symm

/-- Charts of one class are accepted. -/
theorem requireOneClass_eq_ok {charts : List Chart} :
    requireOneClass charts = .ok () ↔ Uniform charts := by
  cases charts with
  | nil => simp [requireOneClass, Uniform]
  | cons first rest =>
    rw [uniform_cons]
    simp only [requireOneClass]
    cases hfind : ((first :: rest).map Chart.chartClass).find? (· != first.chartClass) with
    | none => simpa [List.find?_eq_none] using hfind
    | some other =>
      obtain ⟨c, hc, rfl⟩ := List.mem_map.mp (List.mem_of_find?_eq_some hfind)
      have hne : c.chartClass ≠ first.chartClass := by simpa using List.find?_some hfind
      simp only [reduceCtorEq, false_iff]
      exact fun h => hne (h c hc)

/-- Other charts are refused with the class of the first and the first class that differs. -/
theorem requireOneClass_eq_error {charts : List Chart} {e : Error} :
    requireOneClass charts = .error e ↔ ∃ first before other after,
      charts = first :: (before ++ other :: after) ∧
        (∀ c ∈ before, c.chartClass = first.chartClass) ∧
          other.chartClass ≠ first.chartClass ∧
            e = .typesDiffer first.chartClass.describe other.chartClass.describe := by
  cases charts with
  | nil => simp [requireOneClass]
  | cons first rest =>
    simp only [requireOneClass, List.cons.injEq]
    constructor
    · intro h
      split at h
      · rename_i found hfind
        rw [List.map_cons, List.find?_cons_of_neg (by simp), List.find?_map,
          Option.map_eq_some_iff] at hfind
        obtain ⟨other, hother, rfl⟩ := hfind
        obtain ⟨hne, before, after, hrest, hbefore⟩ := List.find?_eq_some_iff_append.mp hother
        exact ⟨first, before, other, after, ⟨rfl, hrest⟩, fun c hc => by simpa using hbefore c hc,
          by simpa using hne, (Except.error.inj h).symm⟩
      · cases h
    · rintro ⟨_, before, other, after, ⟨rfl, rfl⟩, hbefore, hother, rfl⟩
      have hfind : (before ++ other :: after).find? (fun c => c.chartClass != first.chartClass) =
          some other := by
        refine List.find?_eq_some_iff_append.mpr
          ⟨by simpa using hother, before, after, rfl, fun c hc => by simpa using hbefore c hc⟩
      rw [List.map_cons, List.find?_cons_of_neg (by simp), List.find?_map]
      simp only [Function.comp_def, hfind, Option.map_some]

/-- As many ids as charts are accepted. -/
theorem requireIdCount_eq_ok {charts : List Chart} {ids : List String} :
    requireIdCount charts ids = .ok () ↔ charts.length = ids.length := by
  unfold requireIdCount
  split <;> simp_all

/-- Another number of ids is refused with both numbers. -/
theorem requireIdCount_eq_error {charts : List Chart} {ids : List String} {e : Error} :
    requireIdCount charts ids = .error e ↔
      charts.length ≠ ids.length ∧ e = .elementIdCount charts.length ids.length := by
  unfold requireIdCount
  split <;> simp_all [eq_comm]

namespace Batch

variable {b : Batch} {loader : Loader}

/-- The element ids that a batch goes by: those bound to it, or else those of its charts. -/
def givenIds (b : Batch) : List (Option String) :=
  match b.elementIds with
  | some ids => ids.map some
  | none => b.charts.map Chart.elementId

/-- Bound ids are as many as the charts. -/
def Counted (b : Batch) : Prop :=
  ∀ ids, b.elementIds = some ids → b.charts.length = ids.length

/-- Why a batch has no script, with the kind of its error. The first reason that applies counts. -/
inductive Fault (b : Batch) : ErrorKind → Error → Prop
  /-- There are no charts. -/
  | empty (hcharts : b.charts = []) : Fault b .configuration .emptyBatch
  /-- A chart has another class than the first. -/
  | mixed {first other : Chart} {before after : List Chart}
    (hcharts : b.charts = first :: (before ++ other :: after))
    (hbefore : ∀ c ∈ before, c.chartClass = first.chartClass)
    (hother : other.chartClass ≠ first.chartClass) :
    Fault b .typeMismatch
      (.typesDiffer first.chartClass.describe other.chartClass.describe)
  /-- There are more or fewer ids than charts. -/
  | count {ids : List String} (hcharts : b.charts ≠ []) (huniform : Uniform b.charts)
    (hids : b.elementIds = some ids) (hcount : b.charts.length ≠ ids.length) :
    Fault b .cardinalityMismatch (.elementIdCount b.charts.length ids.length)
  /-- A chart goes without id, or by an empty one. -/
  | missing {chart : Chart} {id : Option String} {before after : List (Chart × Option String)}
    (hcharts : b.charts ≠ []) (huniform : Uniform b.charts) (hcounted : b.Counted)
    (hzip : b.charts.zip b.givenIds = before ++ (chart, id) :: after)
    (hbefore : ∀ pair ∈ before, Chart.Named pair.2) (hid : ¬ Chart.Named id) :
    Fault b .configuration (.missingElementId chart.name.text)

/-- There are charts, all of one class, and each goes by an id that is not empty: by one of as many
bound ids, or by its own when none are bound. -/
def Drawable (b : Batch) : Prop :=
  b.charts ≠ [] ∧ Uniform b.charts ∧
    ((∃ ids, b.elementIds = some ids ∧ b.charts.length = ids.length ∧ ∀ id ∈ ids, id ≠ "") ∨
      (b.elementIds = none ∧ ∀ c ∈ b.charts, ∃ id, c.elementId = some id ∧ id ≠ ""))

/-- A batch is accepted when there are charts, of one class, and ids are bound to all or none. -/
theorem validate_eq_ok :
    b.validate = .ok () ↔ b.charts ≠ [] ∧ Uniform b.charts ∧ b.Counted := by
  unfold validate Counted
  rw [check_bind_eq_ok, requireCharts_eq_ok, check_bind_eq_ok, requireOneClass_eq_ok]
  refine and_congr_right fun _ => and_congr_right fun _ => ?_
  cases b.elementIds with
  | none => simp [pure, Except.pure]
  | some ids => simp [requireIdCount_eq_ok]

/-- With the right number of ids, each chart is asked for the id it goes by. -/
theorem resolvedIds_eq (h : b.Counted) :
    b.resolvedIds = (b.charts.zip b.givenIds).mapM fun pair => pair.1.requireElementId pair.2 := by
  unfold resolvedIds givenIds
  cases hids : b.elementIds with
  | none =>
    simp only
    rw [← List.map_prod_left_eq_zip, List.mapM_map]
    rfl
  | some ids =>
    simp only
    rw [requireIdCount_eq_ok.mpr (h ids hids), List.zip_map_right, List.mapM_map]
    rfl

/-- With the right number of ids, the charts get theirs when each of the given ones is one. -/
theorem exists_resolvedIds (h : b.Counted) :
    (∃ ids, b.resolvedIds = .ok ids) ↔ ∀ pair ∈ b.charts.zip b.givenIds, Chart.Named pair.2 := by
  rw [resolvedIds_eq h, exists_mapM_eq_ok]
  simp only [Chart.requireElementId_eq_ok]
  rfl

/-- Else the first chart is reported whose id is none. -/
theorem resolvedIds_eq_error (h : b.Counted) {e : Error} :
    b.resolvedIds = .error e ↔ ∃ before chart id after,
      b.charts.zip b.givenIds = before ++ (chart, id) :: after ∧
        (∀ pair ∈ before, Chart.Named pair.2) ∧ ¬ Chart.Named id ∧
          e = .missingElementId chart.name.text := by
  rw [resolvedIds_eq h, mapM_eq_error]
  simp only [Chart.requireElementId_eq_ok, Chart.requireElementId_eq_error, Prod.exists]
  rfl

/-- The ids that the charts get are not empty. -/
theorem ne_empty_of_resolvedIds (h : b.Counted) {ids : List String}
    (hids : b.resolvedIds = .ok ids) : ∀ id ∈ ids, id ≠ "" := by
  intro id hid
  rw [resolvedIds_eq h] at hids
  obtain ⟨pair, _, hpair⟩ := exists_mem_of_mapM_eq_ok hids hid
  exact (Chart.requireElementId_eq_ok.mp hpair).2

/-- A fault stops the checks on a batch. -/
theorem Fault.checks_eq_error {kind : ErrorKind} {e : Error} (h : b.Fault kind e) :
    b.validate = .error e ∨ b.validate = .ok () ∧ b.resolvedIds = .error e := by
  cases h with
  | empty hcharts =>
    left
    rw [validate, hcharts]
    rfl
  | mixed hcharts hbefore hother =>
    left
    have hclass := requireOneClass_eq_error.mpr ⟨_, _, _, _, hcharts, hbefore, hother, rfl⟩
    have hne : b.charts ≠ [] := by
      rw [hcharts]
      exact List.cons_ne_nil _ _
    rw [validate, requireCharts_eq_ok.mpr hne, hclass]
    rfl
  | count hcharts huniform hids hcount =>
    left
    rw [validate, requireCharts_eq_ok.mpr hcharts, requireOneClass_eq_ok.mpr huniform, hids]
    exact requireIdCount_eq_error.mpr ⟨hcount, rfl⟩
  | missing hcharts huniform hcounted hzip hbefore hid =>
    exact .inr ⟨validate_eq_ok.mpr ⟨hcharts, huniform, hcounted⟩,
      (resolvedIds_eq_error hcounted).mpr ⟨_, _, _, _, hzip, hbefore, hid, rfl⟩⟩

/-- What stops the checks on a batch is a fault. -/
theorem fault_of_checks_eq_error {e : Error}
    (h : b.validate = .error e ∨ b.validate = .ok () ∧ b.resolvedIds = .error e) :
    b.Fault e.kind e := by
  rcases h with h | ⟨hvalid, h⟩
  · rw [validate, check_bind_eq_error] at h
    rcases h with h | ⟨hcharts, h⟩
    · unfold requireCharts at h
      split at h
      · rename_i hempty
        cases h
        exact .empty (List.isEmpty_iff.mp hempty)
      · cases h
    · rcases check_bind_eq_error.mp h with h | ⟨huniform, h⟩
      · obtain ⟨_, _, _, _, hsplit, hbefore, hother, rfl⟩ := requireOneClass_eq_error.mp h
        exact .mixed hsplit hbefore hother
      · split at h
        · rename_i ids hids
          obtain ⟨hcount, rfl⟩ := requireIdCount_eq_error.mp h
          exact .count (requireCharts_eq_ok.mp hcharts) (requireOneClass_eq_ok.mp huniform) hids
            hcount
        · cases h
  · obtain ⟨hcharts, huniform, hcounted⟩ := validate_eq_ok.mp hvalid
    obtain ⟨_, _, _, _, hzip, hbefore, hid, rfl⟩ := (resolvedIds_eq_error hcounted).mp h
    exact .missing hcharts huniform hcounted hzip hbefore hid

/-- There are as many given ids as charts. -/
theorem length_givenIds (h : b.Counted) : b.givenIds.length = b.charts.length := by
  unfold givenIds
  split
  · rename_i ids hids
    rw [List.length_map, ← h ids hids]
  · rw [List.length_map]

/-- The ids that go with the charts are the given ones. -/
theorem forall_zip_givenIds (h : b.Counted) {p : Option String → Prop} :
    (∀ pair ∈ b.charts.zip b.givenIds, p pair.2) ↔ ∀ id ∈ b.givenIds, p id := by
  rw [← List.forall_mem_map (f := Prod.snd), List.map_snd_zip (Nat.le_of_eq (length_givenIds h))]

/-- The ids that the charts get are one for each. -/
theorem length_resolvedIds (h : b.Counted) {ids : List String} (hids : b.resolvedIds = .ok ids) :
    ids.length = b.charts.length := by
  rw [resolvedIds_eq h] at hids
  rw [(getElem?_of_mapM_eq_ok hids).1, List.length_zip, length_givenIds h, Nat.min_self]

/-- The ids that the charts get are the given ones. -/
theorem map_some_of_resolvedIds (h : b.Counted) {ids : List String}
    (hids : b.resolvedIds = .ok ids) : ids.map some = b.givenIds := by
  rw [resolvedIds_eq h] at hids
  rw [map_eq_of_mapM_eq_ok (g := Prod.snd)
    (fun _ _ _ hpair => (Chart.requireElementId_eq_ok.mp hpair).1.symm) hids]
  exact List.map_snd_zip (Nat.le_of_eq (length_givenIds h))

/-- A batch is drawable when it is accepted and the given ids are all there. -/
theorem drawable_iff :
    b.Drawable ↔ b.validate = .ok () ∧ ∃ ids, b.resolvedIds = .ok ids := by
  rw [validate_eq_ok, Drawable, and_assoc, and_assoc]
  refine and_congr_right fun _ => and_congr_right fun _ => ?_
  have hresolved : b.Counted ∧ (∃ ids, b.resolvedIds = .ok ids) ↔
      b.Counted ∧ ∀ id ∈ b.givenIds, Chart.Named id :=
    and_congr_right fun hcounted => by
      rw [exists_resolvedIds hcounted, forall_zip_givenIds hcounted]
  rw [hresolved]
  unfold Counted givenIds Chart.Named
  cases b.elementIds with
  | none => simp
  | some ids => simp

/-- Sound charts that get ids can all be started. -/
theorem exists_starts (hsound : ∀ c ∈ b.charts, c.Sound) {ids : List String}
    (hids : ∀ id ∈ ids, id ≠ "") :
    ∃ starts, (b.charts.zip ids).mapM (fun (chart, id) => chart.start id) = .ok starts := by
  refine exists_mapM_eq_ok.mpr fun pair hpair => ?_
  obtain ⟨hchart, hid⟩ := List.of_mem_zip hpair
  exact (hsound _ hchart).exists_start (hids _ hid)

/-- Finishing charts asks for nothing that an accepted batch does not have. -/
theorem exists_finish (h : b.validate = .ok ()) : ∃ statements, b.finish = .ok statements := by
  obtain ⟨hcharts, huniform, _⟩ := validate_eq_ok.mp h
  rw [finish, requireCharts_eq_ok.mpr hcharts, requireOneClass_eq_ok.mpr huniform]
  exact ⟨_, rfl⟩

/-- What is started of an accepted batch: after the loading statement and the opening of the
callback, each chart in its turn, in the element of its id. -/
theorem exists_starts_of_start_eq_ok {statements : List Statement}
    (h : b.start loader = .ok statements) :
    ∃ (ids : List String) (starts : List (List Statement)),
      b.validate = .ok () ∧ b.resolvedIds = .ok ids ∧
      statements = .load loader.settings b.packages :: .callback (callbackName ids) ::
        starts.flatten ∧
      starts.length = b.charts.length ∧
      ∀ (i : Nat) start, starts[i]? = some start → ∃ (c : Chart) (id : String),
        b.charts[i]? = some c ∧ ids[i]? = some id ∧ c.start id = .ok start := by
  obtain ⟨_, hvalid, h⟩ := bind_eq_ok.mp h
  obtain ⟨ids, hids, h⟩ := bind_eq_ok.mp h
  obtain ⟨starts, hstarts, h⟩ := bind_eq_ok.mp h
  cases h
  have hcounted := (validate_eq_ok.mp hvalid).2.2
  obtain ⟨hlength, hget⟩ := getElem?_of_mapM_eq_ok hstarts
  refine ⟨ids, starts, hvalid, hids, rfl, ?_, fun i start hstart => ?_⟩
  · rw [hlength, List.length_zip, length_resolvedIds hcounted hids, Nat.min_self]
  · obtain ⟨⟨c, id⟩, hpair, hc⟩ := hget i start hstart
    obtain ⟨hchart, hid⟩ := List.getElem?_zip_eq_some.mp hpair
    exact ⟨c, id, hchart, hid, hc⟩

/-- In such starts, every chart has its place: there stand its id and its start. -/
theorem exists_start_of_getElem? {ids : List String} {starts : List (List Statement)}
    (hlength : starts.length = b.charts.length)
    (hstarts : ∀ (i : Nat) start, starts[i]? = some start → ∃ (c : Chart) (id : String),
      b.charts[i]? = some c ∧ ids[i]? = some id ∧ c.start id = .ok start)
    {i : Nat} {c : Chart} (hc : b.charts[i]? = some c) :
    ∃ id start, ids[i]? = some id ∧ starts[i]? = some start ∧ c.start id = .ok start := by
  have hi : i < starts.length := by
    rw [hlength]
    exact (List.getElem?_eq_some_iff.mp hc).1
  obtain ⟨found, id, hfound, hid, hstart⟩ := hstarts i _ (List.getElem?_eq_getElem hi)
  obtain rfl := Option.some.inj (hfound.symm.trans hc)
  exact ⟨id, _, hid, List.getElem?_eq_getElem hi, hstart⟩

/-- A drawable batch of sound charts has a script. -/
theorem Drawable.exists_statements (loader : Loader) (h : b.Drawable)
    (hsound : ∀ c ∈ b.charts, c.Sound) :
    ∃ statements, b.statements loader = .ok statements := by
  obtain ⟨hvalid, ids, hids⟩ := drawable_iff.mp h
  obtain ⟨starts, hstarts⟩ :=
    exists_starts hsound (ne_empty_of_resolvedIds (validate_eq_ok.mp hvalid).2.2 hids)
  obtain ⟨last, hlast⟩ := exists_finish hvalid
  refine ⟨(.load loader.settings b.packages :: .callback (callbackName ids) :: starts.flatten) ++
    last, ?_⟩
  rw [statements, start, hvalid, hids, hlast]
  simp only [bind, Except.bind, pure, Except.pure] at hstarts ⊢
  rw [hstarts]

/-- A batch with a fault has its error instead of a script. -/
theorem Fault.statements_eq_error {kind : ErrorKind} {e : Error} (h : b.Fault kind e) :
    b.statements loader = .error e := by
  rcases h.checks_eq_error with hvalid | ⟨hvalid, hids⟩
  · rw [statements, start, hvalid]
    rfl
  · rw [statements, start, hvalid, hids]
    rfl

/-- A batch is drawable or has a fault. -/
theorem drawable_or_fault (b : Batch) : b.Drawable ∨ ∃ e, b.Fault e.kind e := by
  cases hvalid : b.validate with
  | error e => exact .inr ⟨e, fault_of_checks_eq_error (.inl hvalid)⟩
  | ok _ =>
    cases hids : b.resolvedIds with
    | error e => exact .inr ⟨e, fault_of_checks_eq_error (.inr ⟨hvalid, hids⟩)⟩
    | ok ids => exact .inl (drawable_iff.mpr ⟨hvalid, ids, hids⟩)

/-- A batch of built charts has a script exactly when it is drawable, and else the error of its
first fault, of the kind of that fault. Nothing else can go wrong: a comparison finds the tables of
both of its charts, and the options of every chart can be written. -/
theorem script_outcome (loader : Loader) (b : Batch) (hbuilt : ∀ c ∈ b.charts, c.Built) :
    ((∃ text, b.script loader = .ok text) ↔ b.Drawable) ∧
      (∀ e, b.script loader = .error e ↔ b.Fault e.kind e) ∧
        ∀ c ∈ b.charts, (∃ literal, c.options.literal = .ok literal) ∧
          ∀ old new, c.data = .comparison old new →
            (∃ source, old.table = .ok source) ∧ ∃ source, new.table = .ok source := by
  have hsound : ∀ c ∈ b.charts, c.Sound := fun c hc => (hbuilt c hc).sound
  have hscript {text : String} (h : b.script loader = .ok text) : b.Drawable := by
    rcases b.drawable_or_fault with hdrawable | ⟨e, hfault⟩
    · exact hdrawable
    · rw [script, hfault.statements_eq_error] at h
      cases h
  have hdrawable (h : b.Drawable) : ∃ text, b.script loader = .ok text := by
    obtain ⟨statements, hstatements⟩ := h.exists_statements loader hsound
    exact ⟨Statement.script statements, by rw [script, hstatements]; rfl⟩
  refine ⟨⟨fun ⟨_, h⟩ => hscript h, hdrawable⟩, fun e => ⟨fun h => ?_, fun h => ?_⟩, fun c hc => ?_⟩
  · rcases b.drawable_or_fault with hd | ⟨found, hfault⟩
    · obtain ⟨text, htext⟩ := hdrawable hd
      rw [h] at htext
      cases htext
    · rw [script, hfault.statements_eq_error] at h
      cases h
      exact hfault
  · rw [script, h.statements_eq_error]
    rfl
  · refine ⟨⟨_, (hsound c hc).literal_eq_ok⟩, fun old new hdata => ?_⟩
    obtain ⟨hold, hnew⟩ := (hsound c hc).tables old new hdata
    exact ⟨Chart.exists_table_eq_ok hold, Chart.exists_table_eq_ok hnew⟩

/-- A loader with the settings of the default. -/
def sampleLoader : Loader := ⟨.default, by decide⟩

/-- A table without columns that lists them. -/
def sampleTable : TableSource := .json ⟨.object [("cols", .array [])], rfl⟩

/-- A pie chart. -/
def samplePie : Chart := .plain ⟨"before", by decide⟩ .pieChart sampleTable

/-- A comparison of two pie charts. -/
def sampleComparison : Chart :=
  .comparing ⟨"change", by decide⟩ ⟨"before", by decide⟩ ⟨"after", by decide⟩ .pieChart
    Catalog.pieDiffChart sampleTable sampleTable

/-- A comparison has a script in a page element. Together with a pie chart it has none, since it is
of another class. -/
theorem script_outcome_sampleComparison :
    (∃ text, script sampleLoader ⟨[sampleComparison], some ["chart"]⟩ = .ok text) ∧
      script sampleLoader ⟨[sampleComparison, samplePie], none⟩ =
        .error (.typesDiffer "google.visualization.PieChart (diff)"
          "google.visualization.PieChart") := by
  have hpie : samplePie.Built := Chart.built_plain ..
  have hcomparison : sampleComparison.Built := Chart.built_comparing _ _ _ rfl _ _
  have hone := script_outcome sampleLoader ⟨[sampleComparison], some ["chart"]⟩
    (by simpa using hcomparison)
  have hboth := script_outcome sampleLoader ⟨[sampleComparison, samplePie], none⟩
    (by simpa using ⟨hcomparison, hpie⟩)
  have hmixed : Fault ⟨[sampleComparison, samplePie], none⟩ .typeMismatch
      (.typesDiffer sampleComparison.chartClass.describe samplePie.chartClass.describe) :=
    .mixed (show _ = sampleComparison :: ([] ++ samplePie :: []) from rfl) (by simp) (by decide)
  refine ⟨hone.1.mpr ⟨by simp, fun c hc d hd => ?_, .inl ⟨_, rfl, rfl, by simp⟩⟩,
    (hboth.2.1 _).mpr hmixed⟩
  rw [List.mem_singleton.mp hc, List.mem_singleton.mp hd]

end Batch

end ChartScript
