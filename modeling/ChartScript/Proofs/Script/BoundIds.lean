import ChartScript.Proofs.Script.Assembly

/-!
# Bound and carried element ids

Element ids can be bound to a batch, or be set on its charts one by one. Both come to the same: a
chart looks at its own id only where none are bound, and the check that there are as many ids as
charts, which bound ids alone have to pass, comes after the checks that carried ids pass as well.
So the results agree, errors and their order included, whatever ids the charts had before.
-/

namespace ChartScript

variable {charts : List Chart} {ids : List String}

/-- The classes of charts decide whether they are of one class, and what is said if they are not. -/
theorem requireOneClass_congr {others : List Chart}
    (h : charts.map Chart.chartClass = others.map Chart.chartClass) :
    requireOneClass charts = requireOneClass others := by
  cases charts with
  | nil =>
    obtain rfl := List.map_eq_nil_iff.mp h.symm
    rfl
  | cons first rest =>
    cases others with
    | nil => cases h
    | cons other others =>
      have hfirst : first.chartClass = other.chartClass := (List.cons.inj h).1
      simp only [requireOneClass, h, hfirst]

/-- Whether there are charts is a matter of their number. -/
theorem requireCharts_congr {others : List Chart} (h : charts.length = others.length) :
    requireCharts charts = requireCharts others := by
  cases charts <;> cases others <;> first | rfl | cases h

namespace Chart

/-- Charts with ids set on them, one id for each. -/
def withElementIds (charts : List Chart) (ids : List String) : List Chart :=
  (charts.zip ids).map fun (chart, id) => chart.withElementId id

/-- What does not depend on the ids of charts is not changed by setting them. -/
theorem map_withElementIds {α : Type} {f : Chart → α} (hf : ∀ c id, f (withElementId c id) = f c)
    (h : charts.length = ids.length) : (withElementIds charts ids).map f = charts.map f := by
  rw [withElementIds, List.map_map]
  calc (charts.zip ids).map (f ∘ fun (chart, id) => chart.withElementId id)
      = (charts.zip ids).map (f ∘ Prod.fst) := List.map_congr_left fun pair _ => hf _ _
    _ = charts.map f := by rw [← List.map_map, List.map_fst_zip (Nat.le_of_eq h)]

/-- There are as many charts as before. -/
theorem length_withElementIds (h : charts.length = ids.length) :
    (withElementIds charts ids).length = charts.length := by
  rw [withElementIds, List.length_map, List.length_zip, ← h, Nat.min_self]

end Chart

namespace Batch

/-- Charts with element ids bound to them as a batch. -/
def binding (charts : List Chart) (ids : List String) : Batch := ⟨charts, some ids⟩

/-- Charts that carry these element ids themselves. -/
def carrying (charts : List Chart) (ids : List String) : Batch :=
  ⟨Chart.withElementIds charts ids, none⟩

/-- The check of the classes does not see the ids. -/
theorem requireOneClass_carrying (h : charts.length = ids.length) :
    requireOneClass (carrying charts ids).charts = requireOneClass charts :=
  requireOneClass_congr (Chart.map_withElementIds (fun _ _ => rfl) h)

/-- Nor does the check that there are charts. -/
theorem requireCharts_carrying (h : charts.length = ids.length) :
    requireCharts (carrying charts ids).charts = requireCharts charts :=
  requireCharts_congr (Chart.length_withElementIds h)

/-- Bound ids pass one more check, which has nothing to object when there are as many as charts. -/
theorem validate_binding (h : charts.length = ids.length) :
    (binding charts ids).validate = (carrying charts ids).validate := by
  have hcount := requireIdCount_eq_ok.mpr h
  rw [validate, validate, requireCharts_carrying h, requireOneClass_carrying h]
  simp only [binding, carrying, hcount]
  rfl

/-- Each chart is asked for the same id, in the same order. -/
theorem resolvedIds_binding (h : charts.length = ids.length) :
    (binding charts ids).resolvedIds = (carrying charts ids).resolvedIds := by
  have hcount := requireIdCount_eq_ok.mpr h
  simp only [resolvedIds, binding, carrying, hcount, Chart.withElementIds, List.mapM_map]
  rfl

/-- Charts are started alike in the elements of given ids. -/
theorem mapM_start_carrying (h : charts.length = ids.length) (elements : List String) :
    ((carrying charts ids).charts.zip elements).mapM (fun (chart, id) => chart.start id) =
      (charts.zip elements).mapM fun (chart, id) => chart.start id := by
  have hstart : ∀ others : List Chart,
      (others.zip elements).mapM (fun (chart, id) => chart.start id) =
        ((others.map Chart.start).zip elements).mapM fun (start, id) => start id := by
    intro others
    rw [List.zip_map_left, List.mapM_map]
    rfl
  rw [hstart, hstart, carrying, Chart.map_withElementIds (fun _ _ => rfl) h]

/-- A batch starts alike with bound and with carried ids. -/
theorem start_binding (loader : Loader) (h : charts.length = ids.length) :
    (binding charts ids).start loader = (carrying charts ids).start loader := by
  have hpackages : (carrying charts ids).packages = (binding charts ids).packages :=
    congrArg List.eraseDups (Chart.map_withElementIds (fun _ _ => rfl) h)
  simp only [start, validate_binding h, resolvedIds_binding h, hpackages, mapM_start_carrying h]
  rfl

/-- It finishes alike as well. -/
theorem finish_binding (h : charts.length = ids.length) :
    (binding charts ids).finish = (carrying charts ids).finish := by
  have hfinish : (carrying charts ids).charts.flatMap Chart.finish =
      (binding charts ids).charts.flatMap Chart.finish := by
    rw [List.flatMap_def, List.flatMap_def]
    exact congrArg List.flatten (Chart.map_withElementIds (fun _ _ => rfl) h)
  rw [finish, finish, requireCharts_carrying h, requireOneClass_carrying h, hfinish]
  rfl

/-- Binding ids to a batch has the same results as setting them on its charts: the checks, the ids
that the charts go by, both halves of the script and the whole of it, or else the same error. -/
theorem binding_eq_carrying (charts : List Chart) (ids : List String)
    (h : charts.length = ids.length) :
    (binding charts ids).validate = (carrying charts ids).validate ∧
      (binding charts ids).resolvedIds = (carrying charts ids).resolvedIds ∧
        (binding charts ids).finish = (carrying charts ids).finish ∧
          ∀ loader, (binding charts ids).start loader = (carrying charts ids).start loader ∧
            (binding charts ids).script loader = (carrying charts ids).script loader := by
  refine ⟨validate_binding h, resolvedIds_binding h, finish_binding h, fun loader => ?_⟩
  refine ⟨start_binding loader h, ?_⟩
  rw [script, script, statements, statements, start_binding loader h, finish_binding h]

/-- A chart that had an id before is refused for its empty one, whether that is bound or set. -/
theorem binding_eq_carrying_empty_id :
    [samplePie, samplePie.withElementId "old"].length = ["chart", ""].length ∧
      (carrying [samplePie, samplePie.withElementId "old"] ["chart", ""]).script sampleLoader =
        .error (.missingElementId "before") := by
  refine ⟨rfl, ?_⟩
  obtain ⟨_, _, _, hscript⟩ :=
    binding_eq_carrying [samplePie, samplePie.withElementId "old"] ["chart", ""] rfl
  rw [← (hscript sampleLoader).2]
  rfl

end Batch

end ChartScript
