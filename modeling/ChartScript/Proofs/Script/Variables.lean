import ChartScript.Proofs.Script.Assembly
import ChartScript.Proofs.Text.Identifier

/-!
# Variables of a script

Which declarations of a script are for one variable. All charts of a batch are started before the
first is drawn, so a chart that is started later may declare a variable again that an earlier one is
drawn with. When it does is a question about names alone, settled in `declares_clash_iff`; where none
does, the last declaration before the chart is drawn is that of its own start.

This is about declarations and their order in the script, and not about running it: whether the
script gets as far as a call, and what code in it does, is not asked here.
-/

namespace ChartScript

/-- Parts one after another are those before one of them, it, and those after it. -/
theorem flatten_eq_of_getElem? {α : Type} {parts : List (List α)} {i : Nat} {part : List α}
    (h : parts[i]? = some part) :
    parts.flatten = (parts.take i).flatten ++ (part ++ (parts.drop (i + 1)).flatten) := by
  obtain ⟨hi, rfl⟩ := List.getElem?_eq_some_iff.mp h
  conv_lhs => rw [← List.take_append_drop i parts, List.drop_eq_getElem_cons hi]
  rw [List.flatten_append, List.flatten_cons]

/-- A script in parts: what comes before the charts, a part that starts each chart, and a part that
finishes each. -/
structure ScriptParts where
  opening : List Statement
  starts : List (List Statement)
  finishes : List (List Statement)

namespace ScriptParts

/-- All statements in order. -/
def statements (p : ScriptParts) : List Statement :=
  p.opening ++ p.starts.flatten ++ p.finishes.flatten ++ [.close]

/-- The statements before the call that draws a chart, which is the last of its finish. -/
def beforeDraw (p : ScriptParts) (i : Nat) : List Statement :=
  p.opening ++ p.starts.flatten ++ (p.finishes.take i).flatten ++ (p.finishes.getD i []).dropLast

/-- The start of a chart declares a variable. -/
def Declares (p : ScriptParts) (i : Nat) (name : String) : Prop :=
  ∃ start, p.starts[i]? = some start ∧ ∃ statement ∈ start, statement.declared? = some name

/-- Of the declarations of a variable before the call that draws a chart, the last is one in the
chart's own start, and it declares the variable as a value. -/
def DeclaredLast (p : ScriptParts) (i : Nat) (name : String) (value : Expression) : Prop :=
  ∃ before after later, p.starts[i]? = some (before ++ .declare name value :: after) ∧
    p.beforeDraw i =
      p.opening ++ (p.starts.take i).flatten ++ before ++ .declare name value :: later ∧
    ∀ statement ∈ later, statement.declared? ≠ some name

end ScriptParts

namespace Chart

/-- What the data of a chart is declared as. -/
def DeclaresData (c : Chart) (value : Expression) : Prop :=
  match c.data with
  | .table source => value = .table source
  | .comparison .. => value = .comparison c.name.text c.oldDataName c.newDataName

/-- The variables that the start of a chart declares. -/
def declares (c : Chart) : List String :=
  match c.data with
  | .table _ => [c.name.text, c.dataName, c.optionsName]
  | .comparison .. => [c.name.text, c.oldDataName, c.newDataName, c.dataName, c.optionsName]

/-- The variables that a chart is drawn with. -/
def drawnWith (c : Chart) : List String := [c.name.text, c.dataName, c.optionsName]

/-- Starting a chart after another declares a variable again that the other is drawn with: the names
of the two differ in the case of their first letter at most, or one is named like a variable that is
declared for the other. -/
def Clashes (d c : Chart) : Prop :=
  Text.capitalize d.name.text = Text.capitalize c.name.text ∨
    d.name.text = c.dataName ∨ d.name.text = c.optionsName ∨
      c.name.text = d.dataName ∨ c.name.text = d.optionsName ∨
        (d.data.isComparison = true ∧ (c.name.text = d.oldDataName ∨ c.name.text = d.newDataName))

instance (d c : Chart) : Decidable (d.Clashes c) :=
  inferInstanceAs (Decidable (_ ∨ _ ∨ _ ∨ _ ∨ _ ∨ _))

variable {c d : Chart}

/-- A chart is started by declaring its object, its data and its options. -/
theorem exists_of_start_eq_ok {id : String} {statements : List Statement}
    (h : c.start id = .ok statements) :
    ∃ data literal, c.dataDeclarations = .ok data ∧ c.options.literal = .ok literal ∧
      statements = .declare c.name.text (.chart c.type.path id) ::
        (data ++ [.declare c.optionsName (.options literal)]) := by
  unfold Chart.start at h
  obtain ⟨checked, hid, h⟩ := bind_eq_ok.mp h
  obtain ⟨data, hdata, h⟩ := bind_eq_ok.mp h
  obtain ⟨options, hoptions, h⟩ := bind_eq_ok.mp h
  obtain ⟨literal, hliteral, rfl⟩ := map_eq_ok.mp hoptions
  obtain ⟨hsame, _⟩ := requireElementId_eq_ok.mp hid
  cases hsame
  cases h
  exact ⟨data, literal, hdata, hliteral, rfl⟩

/-- The data of a chart is declared last, after the tables that a comparison reads. -/
theorem exists_of_dataDeclarations_eq_ok {statements : List Statement}
    (h : c.dataDeclarations = .ok statements) :
    ∃ tables value, c.DeclaresData value ∧ statements = tables ++ [.declare c.dataName value] ∧
      c.declares = c.name.text ::
        (tables.filterMap Statement.declared? ++ [c.dataName, c.optionsName]) := by
  unfold Chart.dataDeclarations at h
  unfold DeclaresData declares
  cases hdata : c.data with
  | table source =>
    rw [hdata] at h
    cases h
    exact ⟨[], _, rfl, rfl, rfl⟩
  | comparison old new =>
    rw [hdata] at h
    obtain ⟨oldTable, _, h⟩ := bind_eq_ok.mp h
    obtain ⟨newTable, _, h⟩ := bind_eq_ok.mp h
    cases h
    exact ⟨[.declare c.oldDataName (.table oldTable), .declare c.newDataName (.table newTable)],
      _, rfl, rfl, rfl⟩

/-- The start of a chart declares the variables listed for it. -/
theorem mem_declares {id : String} {statements : List Statement} (h : c.start id = .ok statements)
    {name : String} :
    name ∈ c.declares ↔ ∃ statement ∈ statements, statement.declared? = some name := by
  obtain ⟨data, literal, hdata, _, rfl⟩ := exists_of_start_eq_ok h
  obtain ⟨tables, value, _, rfl, hdeclares⟩ := exists_of_dataDeclarations_eq_ok hdata
  rw [hdeclares, ← List.mem_filterMap]
  simp [Statement.declared?]

/-- Finishing a chart declares nothing. -/
theorem declared?_of_mem_finish {statement : Statement} (h : statement ∈ c.finish) :
    statement.declared? = none := by
  rcases List.mem_append.mp h with h | h
  · obtain ⟨listener, _, rfl⟩ := List.mem_map.mp h
    rfl
  · rw [List.mem_singleton.mp h]
    rfl

/-- The variables derived from a name are longer than the name. -/
theorem length_name_lt (c : Chart) :
    c.name.text.length < c.dataName.length ∧ c.name.text.length < c.optionsName.length ∧
      c.name.text.length < c.oldDataName.length ∧ c.name.text.length < c.newDataName.length := by
  have hlength := c.name.length_capitalize
  have hdata : "data".length = 4 := rfl
  have hoptions : "options".length = 7 := rfl
  simp only [dataName, optionsName, oldDataName, newDataName, String.length_append, hlength]
  omega

/-- Two charts have one data variable when their names differ in the first letter's case at most. -/
theorem dataName_inj :
    d.dataName = c.dataName ↔ Text.capitalize d.name.text = Text.capitalize c.name.text := by
  simp [dataName]

/-- Likewise for the variable of the options. -/
theorem optionsName_inj :
    d.optionsName = c.optionsName ↔ Text.capitalize d.name.text = Text.capitalize c.name.text := by
  simp [optionsName]

/-- No data variable is an options variable. -/
theorem dataName_ne_optionsName (d c : Chart) : d.dataName ≠ c.optionsName := by
  simp [dataName, optionsName, ← String.toList_inj]

/-- The variables of compared tables are no data variables. -/
theorem tableNames_ne_dataName (d c : Chart) :
    d.oldDataName ≠ c.dataName ∧ d.newDataName ≠ c.dataName := by
  simp [dataName, oldDataName, newDataName, ← String.toList_inj]

/-- Nor are they options variables. -/
theorem tableNames_ne_optionsName (d c : Chart) :
    d.oldDataName ≠ c.optionsName ∧ d.newDataName ≠ c.optionsName := by
  simp [dataName, optionsName, oldDataName, newDataName, ← String.toList_inj]

/-- No declaration after that of the chart object declares the variable of the object again. -/
theorem name_not_mem_tail (c : Chart) : c.name.text ∉ c.declares.tail := by
  obtain ⟨hdata, hoptions, hold, hnew⟩ := c.length_name_lt
  have hne {derived : String} (h : c.name.text.length < derived.length) :
      c.name.text ≠ derived := fun hsame => by
    rw [hsame] at h
    omega
  unfold declares
  split
  · simp [hne hdata, hne hoptions]
  · simp [hne hdata, hne hoptions, hne hold, hne hnew]

/-- A chart started later declares a variable of another again exactly when their names clash. -/
theorem declares_clash_iff :
    (∃ name ∈ c.drawnWith, name ∈ d.declares) ↔ d.Clashes c := by
  have hsame : c.name.text = d.name.text →
      Text.capitalize d.name.text = Text.capitalize c.name.text := fun h => by rw [h]
  have hdata := dataName_inj (c := c) (d := d)
  have hoptions := optionsName_inj (c := c) (d := d)
  obtain ⟨hold, hnew⟩ := d.tableNames_ne_dataName c
  obtain ⟨hold', hnew'⟩ := d.tableNames_ne_optionsName c
  have hne := c.dataName_ne_optionsName d
  have hne' := d.dataName_ne_optionsName c
  unfold declares drawnWith Clashes
  cases hd : d.data with
  | table source =>
    simp only [ChartData.isComparison, List.mem_cons, List.not_mem_nil, or_false,
      exists_eq_or_imp, exists_eq_left]
    grind
  | comparison old new =>
    simp only [ChartData.isComparison, List.mem_cons, List.not_mem_nil, or_false,
      exists_eq_or_imp, exists_eq_left]
    grind

end Chart

/-- The script of a batch in parts, one start and one finish for each chart. -/
structure Batch.HasParts (b : Batch) (p : ScriptParts) : Prop where
  opening : ∀ statement ∈ p.opening, statement.declared? = none
  length_starts : p.starts.length = b.charts.length
  starts : ∀ (i : Nat) start, p.starts[i]? = some start →
    ∃ (c : Chart) (id : String), b.charts[i]? = some c ∧ c.start id = .ok start
  finishes : p.finishes = b.charts.map Chart.finish

namespace Batch

variable {b : Batch} {p : ScriptParts} {i : Nat} {c : Chart}

/-- A script has such parts. -/
theorem exists_hasParts {loader : Loader} {statements : List Statement}
    (h : b.statements loader = .ok statements) : ∃ p, p.statements = statements ∧ b.HasParts p := by
  obtain ⟨first, hfirst, h⟩ := bind_eq_ok.mp h
  obtain ⟨last, hlast, h⟩ := bind_eq_ok.mp h
  obtain ⟨ids, starts, _, _, rfl, hlength, hstarts⟩ := exists_starts_of_start_eq_ok hfirst
  obtain ⟨_, _, hlast⟩ := bind_eq_ok.mp hlast
  obtain ⟨_, _, hlast⟩ := bind_eq_ok.mp hlast
  cases hlast
  cases h
  refine ⟨⟨[.load loader.settings b.packages, .callback (callbackName ids)], starts,
    b.charts.map Chart.finish⟩, ?_, ?_, hlength, fun i start hstart => ?_, rfl⟩
  · simp [ScriptParts.statements, List.flatMap]
  · simp [Statement.declared?]
  · obtain ⟨c, id, hc, _, hstarted⟩ := hstarts i start hstart
    exact ⟨c, id, hc, hstarted⟩

/-- Finishing charts declares nothing. -/
theorem HasParts.declared?_of_mem_finish (hp : b.HasParts p) {finish : List Statement}
    (hfinish : finish ∈ p.finishes) {statement : Statement} (h : statement ∈ finish) :
    statement.declared? = none := by
  rw [hp.finishes] at hfinish
  obtain ⟨c, _, rfl⟩ := List.mem_map.mp hfinish
  exact Chart.declared?_of_mem_finish h

/-- The statements before a chart is drawn: those before its start, its start, the later starts, and
statements that declare nothing. -/
theorem HasParts.exists_beforeDraw_eq (hp : b.HasParts p) {start : List Statement}
    (hstart : p.starts[i]? = some start) :
    ∃ after, p.beforeDraw i = (p.opening ++ (p.starts.take i).flatten) ++
        (start ++ ((p.starts.drop (i + 1)).flatten ++ after)) ∧
      ∀ statement ∈ after, statement.declared? = none := by
  refine ⟨(p.finishes.take i).flatten ++ (p.finishes.getD i []).dropLast, ?_, ?_⟩
  · rw [ScriptParts.beforeDraw, flatten_eq_of_getElem? hstart]
    simp only [List.append_assoc]
  · intro statement hstatement
    rcases List.mem_append.mp hstatement with hmem | hmem
    · obtain ⟨finish, hfinish, hmem⟩ := List.mem_flatten.mp hmem
      exact hp.declared?_of_mem_finish (List.mem_of_mem_take hfinish) hmem
    · have hmem := List.dropLast_subset _ hmem
      cases hfinish : p.finishes[i]? with
      | none => simp [List.getD, hfinish] at hmem
      | some finish =>
        rw [List.getD, hfinish, Option.getD_some] at hmem
        exact hp.declared?_of_mem_finish (List.mem_of_getElem? hfinish) hmem

/-- A variable whose last declaration is in a chart's own start is declared by no later start. -/
theorem HasParts.not_declared_of_declaredLast (hp : b.HasParts p) {start : List Statement}
    {name : String} {value : Expression} (hstart : p.starts[i]? = some start)
    (h : p.DeclaredLast i name value) :
    ∀ later ∈ (p.starts.drop (i + 1)).flatten, later.declared? ≠ some name := by
  obtain ⟨tail, hbefore, -⟩ := hp.exists_beforeDraw_eq hstart
  obtain ⟨before, after, later, hsplit, hdraw, hlater⟩ := h
  obtain rfl := Option.some.inj (hstart.symm.trans hsplit)
  -- Both ways of cutting the statements before the call agree up to the declaration.
  have hrest : later = after ++ ((p.starts.drop (i + 1)).flatten ++ tail) := by
    rw [hbefore] at hdraw
    simp only [List.append_assoc, List.cons_append, List.append_cancel_left_eq] at hdraw
    exact (List.cons.inj hdraw).2.symm
  intro statement hstatement
  refine hlater statement ?_
  rw [hrest]
  exact List.mem_append_right _ (List.mem_append_left _ hstatement)

/-- A variable that no later start declares is declared last where the chart's own start declares it
last. -/
theorem HasParts.declaredLast (hp : b.HasParts p) {start : List Statement} {name : String}
    {value : Expression} (hstart : p.starts[i]? = some start) (before after : List Statement)
    (hsplit : start = before ++ .declare name value :: after)
    (hrest : ∀ statement ∈ after, statement.declared? ≠ some name)
    (hlater : ∀ later ∈ (p.starts.drop (i + 1)).flatten, later.declared? ≠ some name) :
    p.DeclaredLast i name value := by
  obtain ⟨tail, hbefore, htail⟩ := hp.exists_beforeDraw_eq hstart
  refine ⟨before, after, after ++ ((p.starts.drop (i + 1)).flatten ++ tail), by rw [hstart, hsplit],
    ?_, fun statement hstatement => ?_⟩
  · rw [hbefore, hsplit]
    simp only [List.append_assoc, List.cons_append]
  · rcases List.mem_append.mp hstatement with hmem | hmem
    · exact hrest statement hmem
    · rcases List.mem_append.mp hmem with hmem | hmem
      · exact hlater statement hmem
      · rw [htail statement hmem]
        exact nofun

/-- Every chart has a part that starts it. -/
theorem HasParts.exists_start (hp : b.HasParts p) (hc : b.charts[i]? = some c) :
    ∃ start id, p.starts[i]? = some start ∧ c.start id = .ok start := by
  have hi : i < p.starts.length := by
    rw [hp.length_starts]
    exact (List.getElem?_eq_some_iff.mp hc).1
  obtain ⟨start, hget⟩ : ∃ start, p.starts[i]? = some start := ⟨_, List.getElem?_eq_getElem hi⟩
  obtain ⟨found, id, hfound, hstart⟩ := hp.starts i start hget
  obtain rfl := Option.some.inj (hfound.symm.trans hc)
  exact ⟨start, id, hget, hstart⟩

/-- That part declares the variables listed for the chart. -/
theorem HasParts.declares_iff (hp : b.HasParts p) (hc : b.charts[i]? = some c) {name : String} :
    p.Declares i name ↔ name ∈ c.declares := by
  obtain ⟨start, id, hget, hstart⟩ := hp.exists_start hc
  rw [Chart.mem_declares hstart, ScriptParts.Declares]
  simp only [hget, Option.some.injEq, exists_eq_left']

/-- The later starts are those of the later charts. -/
theorem HasParts.forall_later_iff (hp : b.HasParts p) {name : String} :
    (∀ later ∈ (p.starts.drop (i + 1)).flatten, later.declared? ≠ some name) ↔
      ∀ j d, i < j → b.charts[j]? = some d → name ∉ d.declares := by
  constructor
  · intro h j d hij hd hname
    obtain ⟨start, hstart, statement, hstatement, hsame⟩ := (hp.declares_iff hd).mpr hname
    refine h statement (List.mem_flatten.mpr ⟨start, ?_, hstatement⟩) hsame
    refine List.mem_of_getElem? (i := j - (i + 1)) ?_
    rw [List.getElem?_drop, show i + 1 + (j - (i + 1)) = j by omega, hstart]
  · intro h later hlater hsame
    obtain ⟨start, hstart, hlater⟩ := List.mem_flatten.mp hlater
    obtain ⟨k, hk⟩ := List.mem_iff_getElem?.mp hstart
    rw [List.getElem?_drop] at hk
    obtain ⟨d, id, hd, _⟩ := hp.starts _ _ hk
    exact h (i + 1 + k) d (by omega) hd
      ((hp.declares_iff hd).mp ⟨start, hk, later, hlater, hsame⟩)

/-- The start of a chart declares a variable that another is drawn with exactly when the names of the
two clash. -/
theorem HasParts.declares_iff_clashes (hp : b.HasParts p) {d : Chart}
    (hd : b.charts[i]? = some d) : (∃ name ∈ c.drawnWith, p.Declares i name) ↔ d.Clashes c := by
  simp only [hp.declares_iff hd, Chart.declares_clash_iff]

end Batch

/-- The last declarations of a chart's three variables before the call that draws it are those of its
own start: of the chart object, of its data and of its options. -/
structure ScriptParts.DeclaresOwnLast (p : ScriptParts) (i : Nat) (c : Chart) : Prop where
  chart : ∃ id, p.DeclaredLast i c.name.text (.chart c.type.path id)
  data : ∃ value, c.DeclaresData value ∧ p.DeclaredLast i c.dataName value
  options : ∃ literal, c.options.literal = .ok literal ∧
    p.DeclaredLast i c.optionsName (.options literal)

namespace Batch

variable {b : Batch} {p : ScriptParts} {i : Nat} {c : Chart}

/-- The last declarations of a chart's variables before it is drawn are its own exactly when the name
of no later chart clashes with its own. -/
theorem HasParts.declaresOwnLast_iff (hp : b.HasParts p) (hc : b.charts[i]? = some c) :
    p.DeclaresOwnLast i c ↔ ∀ j d, i < j → b.charts[j]? = some d → ¬ d.Clashes c := by
  obtain ⟨start, id, hget, hstart⟩ := hp.exists_start hc
  simp only [← Chart.declares_clash_iff, not_exists, not_and]
  constructor
  · rintro ⟨⟨id, hchart⟩, ⟨value, _, hdata⟩, ⟨literal, _, hoptions⟩⟩ j d hij hd name hname
    simp only [Chart.drawnWith, List.mem_cons, List.not_mem_nil, or_false] at hname
    rcases hname with rfl | rfl | rfl
    · exact hp.forall_later_iff.mp (hp.not_declared_of_declaredLast hget hchart) j d hij hd
    · exact hp.forall_later_iff.mp (hp.not_declared_of_declaredLast hget hdata) j d hij hd
    · exact hp.forall_later_iff.mp (hp.not_declared_of_declaredLast hget hoptions) j d hij hd
  · intro h
    have hlater {name : String} (hname : name ∈ c.drawnWith) :
        ∀ later ∈ (p.starts.drop (i + 1)).flatten, later.declared? ≠ some name :=
      hp.forall_later_iff.mpr fun j d hij hd => h j d hij hd name hname
    obtain ⟨data, literal, hdata, hliteral, hsplit⟩ := Chart.exists_of_start_eq_ok hstart
    obtain ⟨tables, value, hvalue, rfl, hdeclares⟩ := Chart.exists_of_dataDeclarations_eq_ok hdata
    refine ⟨⟨id, ?_⟩, ⟨value, hvalue, ?_⟩, ⟨literal, hliteral, ?_⟩⟩
    · refine hp.declaredLast hget [] _ hsplit (fun statement hstatement hsame => ?_)
        (hlater (by simp [Chart.drawnWith]))
      refine c.name_not_mem_tail ?_
      rw [hdeclares, List.tail_cons]
      have hmem := List.mem_filterMap.mpr ⟨statement, hstatement, hsame⟩
      simpa [Statement.declared?] using hmem
    · refine hp.declaredLast hget (.declare c.name.text (.chart c.type.path id) :: tables)
        [.declare c.optionsName (.options literal)] ?_ ?_ (hlater (by simp [Chart.drawnWith]))
      · rw [hsplit, List.append_assoc]
        rfl
      · simpa [Statement.declared?] using (c.dataName_ne_optionsName c).symm
    · refine hp.declaredLast hget (.declare c.name.text (.chart c.type.path id) ::
        (tables ++ [.declare c.dataName value])) [] ?_ (by simp)
        (hlater (by simp [Chart.drawnWith]))
      rw [hsplit]
      rfl

/-- The call that draws a chart follows on the statements before it. -/
theorem HasParts.exists_draw (hp : b.HasParts p) (hc : b.charts[i]? = some c) :
    ∃ rest, p.statements = p.beforeDraw i ++
      .draw c.name.text c.dataName c.optionsName c.converter? :: rest := by
  have hfinish : p.finishes[i]? = some c.finish := by
    rw [hp.finishes, List.getElem?_map, hc]
    rfl
  refine ⟨(p.finishes.drop (i + 1)).flatten ++ [.close], ?_⟩
  rw [ScriptParts.statements, ScriptParts.beforeDraw, flatten_eq_of_getElem? hfinish, List.getD,
    hfinish, Option.getD_some, Chart.finish, List.dropLast_concat]
  simp only [List.append_assoc, List.cons_append, List.nil_append]

/-- Every chart of a script is drawn by a call. The start of a chart declares a variable that another
is drawn with exactly when the names of the two clash; and the last declarations of a chart's
variables before its call are those of its own start exactly when no later chart clashes with it. -/
theorem redeclares_iff_clashes (loader : Loader) (b : Batch) (statements : List Statement)
    (h : b.statements loader = .ok statements) :
    ∃ p : ScriptParts, p.statements = statements ∧ b.HasParts p ∧
      ∀ i c, b.charts[i]? = some c →
        (∃ rest, statements = p.beforeDraw i ++
          .draw c.name.text c.dataName c.optionsName c.converter? :: rest) ∧
        (∀ j d, b.charts[j]? = some d →
          ((∃ name ∈ c.drawnWith, p.Declares j name) ↔ d.Clashes c)) ∧
        (p.DeclaresOwnLast i c ↔ ∀ j d, i < j → b.charts[j]? = some d → ¬ d.Clashes c) := by
  obtain ⟨p, rfl, hp⟩ := exists_hasParts h
  exact ⟨p, rfl, hp, fun i c hc =>
    ⟨hp.exists_draw hc, fun j d hd => hp.declares_iff_clashes hd, hp.declaresOwnLast_iff hc⟩⟩

/-- Another table. -/
def otherTable : TableSource := .json ⟨.object [("cols", .array [.text "k"])], rfl⟩

/-- Pie charts of these names, each of a table of its own. -/
def pies (first second : Identifier) : Batch :=
  ⟨[.plain first .pieChart sampleTable, .plain second .pieChart otherTable], some ["x", "y"]⟩

/-- Two pie charts always have a script. -/
theorem exists_statements_pies (loader : Loader) (first second : Identifier) :
    ∃ statements, (pies first second).statements loader = .ok statements := by
  refine Drawable.exists_statements loader ⟨by simp [pies], ?_, .inl ⟨_, rfl, rfl, by simp⟩⟩ ?_
  · intro c hc d hd
    simp only [pies, List.mem_cons, List.not_mem_nil, or_false] at hc hd
    rcases hc with rfl | rfl <;> rcases hd with rfl | rfl <;> rfl
  · intro c hc
    simp only [pies, List.mem_cons, List.not_mem_nil, or_false] at hc
    rcases hc with rfl | rfl <;> exact (Chart.built_plain ..).sound

/-- Charts named `before` and `after` declare nothing of each other's, and the last declarations are
their own. -/
theorem redeclares_iff_clashes_before_after :
    ∃ p : ScriptParts,
      (pies ⟨"before", by decide⟩ ⟨"after", by decide⟩).statements sampleLoader =
        .ok p.statements ∧
      ∀ i c, (pies ⟨"before", by decide⟩ ⟨"after", by decide⟩).charts[i]? = some c →
        p.DeclaresOwnLast i c := by
  obtain ⟨statements, h⟩ :=
    exists_statements_pies sampleLoader ⟨"before", by decide⟩ ⟨"after", by decide⟩
  obtain ⟨p, rfl, _, howns⟩ := redeclares_iff_clashes _ _ statements h
  refine ⟨p, h, fun i c hc => (howns i c hc).2.2.mpr fun j d hij hd => ?_⟩
  match i, j with
  | 0, 1 =>
    cases hc
    cases hd
    decide +kernel
  | 0, j + 2 => cases hd
  | 1, j + 2 => cases hd
  | i + 2, _ => cases hc

/-- Charts named `a` and `A` have the same data and options variables: the start of `A` declares a
variable again that `a` is drawn with, and so the last declarations are not those of `a`. -/
theorem not_declares_own_a_A :
    ∃ p : ScriptParts,
      (pies ⟨"a", by decide⟩ ⟨"A", by decide⟩).statements sampleLoader = .ok p.statements ∧
      (pies ⟨"a", by decide⟩ ⟨"A", by decide⟩).HasParts p ∧
      (∃ name ∈ (Chart.plain ⟨"a", by decide⟩ .pieChart sampleTable).drawnWith,
        p.Declares 1 name) ∧
      ¬ p.DeclaresOwnLast 0 (.plain ⟨"a", by decide⟩ .pieChart sampleTable) := by
  obtain ⟨statements, h⟩ :=
    exists_statements_pies sampleLoader ⟨"a", by decide⟩ ⟨"A", by decide⟩
  obtain ⟨p, rfl, hparts⟩ := exists_hasParts h
  have hclash : (Chart.plain ⟨"A", by decide⟩ .pieChart otherTable).Clashes
      (.plain ⟨"a", by decide⟩ .pieChart sampleTable) := by decide +kernel
  exact ⟨p, h, hparts, (hparts.declares_iff_clashes rfl).mpr hclash,
    fun howns => (hparts.declaresOwnLast_iff rfl).mp howns 1 _ Nat.one_pos rfl hclash⟩

end Batch

end ChartScript
