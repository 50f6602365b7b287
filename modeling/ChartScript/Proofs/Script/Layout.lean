import ChartScript.Proofs.Script.Variables

/-!
# The layout of a script

A script loads the one package that the common class of its charts needs, opens the callback that is
named after the element ids, starts every chart in the element of its id, finishes every chart in
the same order, and closes the callback. The ids travel beside the charts, so the layout says of
every chart, by its place, which id it goes by and where it is started.

Statements only read variables that an earlier statement of the script declares: a comparison reads
those of its own chart, and listeners and calls that draw come after all charts were started.
-/

namespace ChartScript

namespace Statement

/-- Every statement reads variables in scope only. -/
def Scoped (scope : List String) : List Statement → Prop
  | [] => True
  | statement :: rest =>
    (∀ name ∈ statement.reads, name ∈ scope) ∧ Scoped (statement.declared?.toList ++ scope) rest

variable {scope wider : List String} {statements first second : List Statement} {name : String}

/-- More variables in scope do no harm. -/
theorem Scoped.mono (h : Scoped scope statements) (hscope : ∀ name ∈ scope, name ∈ wider) :
    Scoped wider statements := by
  induction statements generalizing scope wider with
  | nil => trivial
  | cons statement rest ih =>
    refine ⟨fun name hname => hscope name (h.1 name hname), ih h.2 fun name hname => ?_⟩
    rcases List.mem_append.mp hname with hname | hname
    · exact List.mem_append_left _ hname
    · exact List.mem_append_right _ (hscope name hname)

end Statement

namespace Chart

variable {c : Chart}

end Chart

namespace Batch

variable {b : Batch} {loader : Loader}

/-- The statements that start a batch: the loading of a package, the opening of the callback for
these ids, and the starts of the charts. -/
def opening (loader : Loader) (package : String) (ids : List String)
    (starts : List (List Statement)) : List Statement :=
  .load loader.settings [package] :: .callback (callbackName ids) :: starts.flatten

/-- The statements that finish a batch: the finishes of the charts and the end of the callback. -/
def closing (charts : List Chart) : List Statement :=
  charts.flatMap Chart.finish ++ [.close]

/-- A script in its parts, for charts of a class, in the elements of ids, each with a start. -/
structure LaidOut (loader : Loader) (b : Batch) (cls : ChartClass) (ids : List String)
    (starts : List (List Statement)) (script : String) : Prop where
  /-- The class is that of every chart. -/
  uniform : ∀ c ∈ b.charts, c.chartClass = cls
  /-- The ids are those that the charts go by: the ones bound to the batch, or else their own. -/
  resolved : b.resolvedIds = .ok ids ∧ ids.map some = b.givenIds
  /-- There is one id and one start for every chart. -/
  lengths : ids.length = b.charts.length ∧ starts.length = b.charts.length
  /-- At the place of a chart stand its id and what starts it in the element of that id. -/
  started : ∀ (i : Nat) c, b.charts[i]? = some c → ∃ id start,
    ids[i]? = some id ∧ starts[i]? = some start ∧ c.start id = .ok start
  /-- The first half is the opening, and the second the closing. -/
  halves : b.start loader = .ok (opening loader cls.type.package ids starts) ∧
    b.finish = .ok (closing b.charts) ∧
      script = Statement.script (opening loader cls.type.package ids starts) ++
        Statement.script (closing b.charts)
  /-- As text, the parts follow on each other with nothing in between. -/
  text : script = (Statement.load loader.settings [cls.type.package]).text ++
    (Statement.callback (callbackName ids)).text ++ String.join (starts.map Statement.script) ++
      String.join (b.charts.map fun c => Statement.script c.finish) ++ "\x7d"
  /-- What a statement reads is declared by an earlier one. -/
  declared : ∀ before statement after,
    opening loader cls.type.package ids starts ++ closing b.charts = before ++ statement :: after →
      ∀ name ∈ statement.reads, ∃ earlier ∈ before, earlier.declared? = some name

end Batch

end ChartScript
