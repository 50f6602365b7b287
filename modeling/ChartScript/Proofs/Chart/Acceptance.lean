import ChartScript.Proofs.Chart.Building
import Mathlib.Data.List.Nodup

/-!
# Which options a chart accepts

A chart takes other options when their schema is the schema of those it holds or extends it. The
options held may have come in the same way, so what a chart accepts can only get narrower: one
operation leaves the held schema alone or replaces it by an extension, and over a run the held
schema is the last one that was accepted. It always extends the schema that the class of the chart
starts with; what extends that schema but not the held one is refused.

Extensions of extensions are extensions because an identity belongs to one schema. That is what
identities are for, but the type of schemas does not enforce it: `Schema.Distinct` says it of a class
of schemas.
-/

namespace ChartScript

namespace Schema

/-- In a class of schemas that has the bases of its schemas, an identity belongs to one schema. -/
structure Distinct (W : Schema → Prop) : Prop where
  base : ∀ s b, W s → s.base = some b → W b
  eq_of_identity : ∀ s t, W s → W t → s.identity = t.identity → s = t

variable {W : Schema → Prop} {r s t : Schema}

/-- The bases of a schema of a class belong to it. -/
theorem Distinct.of_mem_lineage (hW : Distinct W) :
    {s t : Schema} → W s → t ∈ s.lineage → W t
  | ⟨_, _, none, _⟩, _, hs, ht => by
    obtain rfl := List.mem_singleton.mp ht
    exact hs
  | ⟨_, _, some _, _⟩, _, hs, ht => by
    rcases List.mem_cons.mp ht with rfl | ht
    · exact hs
    · exact hW.of_mem_lineage (hW.base _ _ hs rfl) ht

/-- A schema is another or extends it when it or one of its bases has the other's identity. -/
theorem isA_iff_exists_lineage (t : Schema) :
    (s : Schema) → (s.isA t = true ↔ ∃ u ∈ s.lineage, u.identity = t.identity)
  | ⟨_, _, none, _⟩ => by simp [isA, lineage]
  | ⟨_, _, some base, _⟩ => by simp [isA, lineage, isA_iff_exists_lineage t base]

/-- A schema stands first among itself and its bases. -/
theorem mem_lineage_self : (s : Schema) → s ∈ s.lineage
  | ⟨_, _, none, _⟩ => List.mem_cons_self
  | ⟨_, _, some _, _⟩ => List.mem_cons_self

/-- The bases of a base are bases. -/
theorem lineage_subset :
    {s t : Schema} → t ∈ s.lineage → t.lineage ⊆ s.lineage
  | ⟨_, _, none, _⟩, _, ht => by
    obtain rfl := List.mem_singleton.mp ht
    exact List.Subset.refl _
  | ⟨_, _, some _, _⟩, _, ht => by
    rcases List.mem_cons.mp ht with rfl | ht
    · exact List.Subset.refl _
    · exact fun _ hu => List.mem_cons_of_mem _ (lineage_subset ht hu)

/-- A schema and its bases are such a class when their identities are distinct. -/
theorem distinct_lineage (h : (s.lineage.map (·.identity)).Nodup) : Distinct (· ∈ s.lineage) where
  base t b ht hb := by
    obtain ⟨identity, name, base, own⟩ := t
    obtain rfl : base = some b := hb
    refine lineage_subset ht (List.mem_cons_of_mem _ ?_)
    exact b.mem_lineage_self
  eq_of_identity _ _ ht hu hidentity := List.inj_on_of_nodup_map h ht hu hidentity

/-- Where identities tell schemas apart, a schema extends exactly its bases. -/
theorem Distinct.isA_iff_mem_lineage (hW : Distinct W) (hs : W s) (ht : W t) :
    s.isA t = true ↔ t ∈ s.lineage := by
  rw [isA_iff_exists_lineage]
  constructor
  · rintro ⟨u, hu, hidentity⟩
    rwa [← hW.eq_of_identity u t (hW.of_mem_lineage hs hu) ht hidentity]
  · exact fun h => ⟨t, h, rfl⟩

/-- There, an extension of an extension is an extension. -/
theorem Distinct.isA_trans (hW : Distinct W) (hs : W s) (ht : W t) (hst : s.isA t = true)
    (htr : t.isA r = true) : s.isA r = true := by
  obtain ⟨u, hu, hidentity⟩ := (isA_iff_exists_lineage r t).mp htr
  have hmem : t ∈ s.lineage := (hW.isA_iff_mem_lineage hs ht).mp hst
  exact (isA_iff_exists_lineage r s).mpr ⟨u, lineage_subset hmem hu, hidentity⟩

end Schema

/-- The schema that the options of the charts of a class start with, if there are such charts. -/
def ChartClass.schema? (k : ChartClass) : Option Schema :=
  if k.comparison then k.type.comparisonSchema? else some k.type.schema

namespace Chart

/-- Charts as they are made, of a table or of two charts to compare. -/
inductive Fresh : Chart → Prop
  /-- Of a table. -/
  | ofTable {name : String} {type : ChartType} {source : TableSource} {chart : Chart}
    (h : Chart.ofTable name type source = .ok chart) : Fresh chart
  /-- A comparison. -/
  | compare {name : String} {old new chart : Chart}
    (h : Chart.compare name old new = .ok chart) : Fresh chart

/-- What can be done to a chart after it was made. -/
inductive Operation where
  | withOptions (options : Options)
  | edit (change : Edit)
  | withElementId (id : String)
  | withListeners (listeners : List EventListener)
  | listen (listener : EventListener)

namespace Operation

/-- The chart after an operation; options that are refused leave it as it is. -/
def run : Operation → Chart → Chart
  | .withOptions options, c =>
    match c.withOptions options with
    | .ok changed => changed
    | .error _ => c
  | .edit change, c => { c with options := change.run c.options }
  | .withElementId id, c => c.withElementId id
  | .withListeners listeners, c => c.withListeners listeners
  | .listen listener, c => c.listen listener

/-- The chart after operations, one after another. -/
def runAll (operations : List Operation) (c : Chart) : Chart :=
  operations.foldl (fun chart operation => operation.run chart) c

/-- The schema that is held after an operation on a chart that held one: that of the new options, if
they are accepted, and else the same. -/
def narrow (held : Schema) : Operation → Schema
  | .withOptions options => if options.schema.isA held then options.schema else held
  | _ => held

end Operation

variable {W : Schema → Prop} {c : Chart} {declared held : Schema}

/-- A fresh chart has empty options of the schema of its class. -/
theorem Fresh.schema?_eq (h : c.Fresh) : c.chartClass.schema? = some c.options.schema := by
  cases h with
  | ofTable h =>
    obtain ⟨_, _, h⟩ := bind_eq_ok.mp h
    cases h
    rfl
  | compare h =>
    obtain ⟨_, _, _, _, hschema, rfl⟩ := exists_of_compare_eq_ok h
    exact hschema

/-- Options are accepted when their schema is the one held or extends it. -/
theorem exists_withOptions_eq_ok (c : Chart) (options : Options) :
    (∃ changed, c.withOptions options = .ok changed) ↔
      options.schema.isA c.options.schema = true := by
  unfold Chart.withOptions
  split <;> simp_all

/-- What an operation does to the class of a chart, which is nothing, and to the schema it holds. -/
theorem Operation.run_keeps (operation : Operation) (c : Chart) :
    (operation.run c).chartClass = c.chartClass ∧
      (operation.run c).options.schema = narrow c.options.schema operation := by
  cases operation with
  | withOptions options =>
    rw [run, narrow, Chart.withOptions]
    by_cases hisA : options.schema.isA c.options.schema = true
    · rw [if_pos hisA, if_pos hisA]
      exact ⟨rfl, rfl⟩
    · rw [if_neg hisA, if_neg hisA]
      exact ⟨rfl, rfl⟩
  | edit change => exact ⟨rfl, change.schema_run c.options⟩
  | withElementId id => exact ⟨rfl, rfl⟩
  | withListeners listeners => exact ⟨rfl, rfl⟩
  | listen listener => exact ⟨rfl, rfl⟩

/-- What operations do to the class of a chart and to the schema it holds. -/
theorem Operation.runAll_keeps (operations : List Operation) (c : Chart) :
    (runAll operations c).chartClass = c.chartClass ∧
      (runAll operations c).options.schema = operations.foldl narrow c.options.schema := by
  induction operations generalizing c with
  | nil => exact ⟨rfl, rfl⟩
  | cons operation rest ih =>
    obtain ⟨hclass, hschema⟩ := operation.run_keeps c
    obtain ⟨hclassRest, hschemaRest⟩ := ih (operation.run c)
    refine ⟨hclassRest.trans hclass, ?_⟩
    rw [List.foldl_cons, ← hschema]
    exact hschemaRest

/-- An operation leaves the held schema or narrows it to an extension, and stays in a class of
schemas if the new options are of the class. -/
theorem Operation.narrow_isA (operation : Operation) (held : Schema)
    (hheld : W held) (hoptions : ∀ options, operation = .withOptions options → W options.schema) :
    W (narrow held operation) ∧ (narrow held operation).isA held = true := by
  cases operation with
  | withOptions options =>
    rw [narrow]
    split
    · rename_i hisA
      exact ⟨hoptions options rfl, hisA⟩
    · exact ⟨hheld, held.isA_self⟩
  | _ => exact ⟨hheld, held.isA_self⟩

/-- After operations the held schema is the first one or extends it. -/
theorem Operation.foldl_narrow_isA (hW : Schema.Distinct W) (operations : List Operation)
    (held : Schema) (hheld : W held)
    (hoptions : ∀ options, .withOptions options ∈ operations → W options.schema) :
    W (operations.foldl narrow held) ∧ (operations.foldl narrow held).isA held = true := by
  induction operations generalizing held with
  | nil => exact ⟨hheld, held.isA_self⟩
  | cons operation rest ih =>
    obtain ⟨hnext, hisA⟩ := operation.narrow_isA held hheld fun options hsame =>
      hoptions options (hsame ▸ List.mem_cons_self)
    obtain ⟨hlast, hisA'⟩ := ih (narrow held operation) hnext fun options hmem =>
      hoptions options (List.mem_cons_of_mem _ hmem)
    exact ⟨hlast, hW.isA_trans hlast hnext hisA' hisA⟩

/-- Where every accepted tree is of the held schema itself, that schema stays. -/
theorem Operation.foldl_narrow_eq (operations : List Operation) (held : Schema)
    (hsame : ∀ options, .withOptions options ∈ operations →
      options.schema.isA held = true → options.schema = held) :
    operations.foldl narrow held = held := by
  induction operations with
  | nil => rfl
  | cons operation rest ih =>
    have hnarrow : narrow held operation = held := by
      cases operation with
      | withOptions options =>
        rw [narrow]
        split
        · rename_i hisA
          exact hsame options List.mem_cons_self hisA
        · rfl
      | _ => rfl
    rw [List.foldl_cons, hnarrow]
    exact ih fun options hmem => hsame options (List.mem_cons_of_mem _ hmem)

/-- After any operations, a chart accepts the options whose schema is the one it holds or extends it.
The held schema is that of the last options that were accepted, at first that of the chart's class,
and always the schema of the class or an extension of it. So what is accepted extends the schema of
the class; and as long as no proper extension of that was accepted, all that extends it is. -/
theorem accepts_iff_extends_held (hW : Schema.Distinct W) (c : Chart) (hfresh : c.Fresh)
    (hclass : ∀ declared, c.chartClass.schema? = some declared → W declared)
    (operations : List Operation)
    (hoptions : ∀ options, .withOptions options ∈ operations → W options.schema) :
    ∃ declared, c.chartClass.schema? = some declared ∧
      (Operation.runAll operations c).chartClass = c.chartClass ∧
      (Operation.runAll operations c).options.schema =
        operations.foldl Operation.narrow declared ∧
      (Operation.runAll operations c).options.schema.isA declared = true ∧
      (∀ options, (∃ changed, (Operation.runAll operations c).withOptions options = .ok changed) ↔
        options.schema.isA (Operation.runAll operations c).options.schema = true) ∧
      (∀ options changed, W options.schema →
        (Operation.runAll operations c).withOptions options = .ok changed →
          options.schema.isA declared = true) ∧
      ((∀ options, .withOptions options ∈ operations →
          options.schema.isA declared = true → options.schema = declared) →
        ∀ options, (∃ changed, (Operation.runAll operations c).withOptions options = .ok changed) ↔
          options.schema.isA declared = true) := by
  have hdeclared := hfresh.schema?_eq
  obtain ⟨hsameClass, hheld⟩ := Operation.runAll_keeps operations c
  obtain ⟨hlast, hisA⟩ :=
    Operation.foldl_narrow_isA hW operations _ (hclass _ hdeclared) hoptions
  refine ⟨_, hdeclared, hsameClass, hheld, hheld ▸ hisA, fun options => ?_,
    fun options changed hschema haccepted => ?_, fun hnone options => ?_⟩
  · exact exists_withOptions_eq_ok _ options
  · have hextends := (exists_withOptions_eq_ok _ options).mp ⟨changed, haccepted⟩
    rw [hheld] at hextends
    exact hW.isA_trans hschema hlast hextends hisA
  · rw [exists_withOptions_eq_ok, hheld, Operation.foldl_narrow_eq operations _ hnone]

/-- A pie chart as it is made. -/
def freshPie : Chart :=
  .plain ⟨"shares", by decide⟩ .pieChart
    (.json ⟨.object [("cols", .array []), ("rows", .array [])], rfl⟩)

/-- The pie chart is fresh. -/
theorem fresh_freshPie : freshPie.Fresh :=
  .ofTable (rfl : Chart.ofTable "shares" .pieChart _ = .ok freshPie)

/-- An extension of the options of pie charts by a note. -/
def notedPie : Schema :=
  ⟨.custom 0, "NotedPieOptions", some Catalog.pieChart, [⟨"note", .scalar .text, none⟩]⟩

/-- Once a pie chart holds options with a note it accepts more of them, and options of tables as
little as before. -/
theorem accepts_noted_after_noted :
    freshPie.Fresh ∧
      (∃ changed, (Operation.runAll [.withOptions (.empty notedPie), .withElementId "pie",
        .edit (.assign "slices.0.color" (.text "red"))] freshPie).withOptions
          (.empty notedPie) = .ok changed) ∧
        ¬ ∃ changed, (Operation.runAll [.withOptions (.empty notedPie), .withElementId "pie",
          .edit (.assign "slices.0.color" (.text "red"))] freshPie).withOptions
            (.empty Catalog.table) = .ok changed := by
  obtain ⟨declared, hdeclared, _, hheld, _, haccepts, _⟩ :=
    accepts_iff_extends_held (Schema.distinct_lineage (s := notedPie) (by decide)) freshPie
      fresh_freshPie (fun declared h => by
        obtain rfl := Option.some.inj h
        exact List.mem_cons_of_mem _ (Schema.mem_lineage_self _))
      [.withOptions (.empty notedPie), .withElementId "pie",
        .edit (.assign "slices.0.color" (.text "red"))]
      (fun options h => by
        simp only [List.mem_cons, Operation.withOptions.injEq, reduceCtorEq, or_false,
          List.not_mem_nil] at h
        rw [h]
        exact Schema.mem_lineage_self _)
  obtain rfl := Option.some.inj hdeclared
  simp only [haccepts, hheld]
  exact ⟨fresh_freshPie, by decide, by decide⟩

/-- A chart does not always accept what extends the schema of its class: a pie chart with a note on
its options refuses plain options for pies. -/
theorem not_accepts_all_of_class :
    ¬ ∀ (c : Chart) (declared : Schema) (operations : List Operation) (options : Options),
      c.Fresh → c.chartClass.schema? = some declared → options.schema.isA declared = true →
        ∃ changed, (Operation.runAll operations c).withOptions options = .ok changed := by
  intro haccepts
  have hplain := haccepts freshPie Catalog.pieChart [.withOptions (.empty notedPie)]
    (.empty Catalog.pieChart) fresh_freshPie rfl (Schema.isA_self _)
  rw [exists_withOptions_eq_ok] at hplain
  revert hplain
  decide

end Chart

end ChartScript
