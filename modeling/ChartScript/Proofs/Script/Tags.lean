import ChartScript.Proofs.Script.Assembly
import ChartScript.Proofs.Script.Sealed

/-!
# Where a script can hold a tag

Three texts of a script are written between quotes as they were given: the version and the language
of the loader, and the element ids. All else in a script without code is sealed, so it is free of
tags exactly when these texts are.
-/

namespace ChartScript

open Text

/-- An expression in which no code is written and every name is inert. -/
def Expression.CodeFree : Expression → Prop
  | .chart path _ => Inert path.toList
  | .table source => source.CodeFree
  | .comparison owner old new => Inert owner.toList ∧ Inert old.toList ∧ Inert new.toList
  | .options literal => literal.CodeFree

/-- A comparison is inert. -/
theorem Expression.inert_comparison {owner old new : String}
    (h : (comparison owner old new).CodeFree) :
    Inert (comparison owner old new).text.toList := by
  obtain ⟨howner, hold, hnew⟩ := h
  simp only [text, String.toList_append, inert_append]
  exact ⟨⟨⟨⟨⟨howner, by decide⟩, hold⟩, by decide⟩, hnew⟩, by decide⟩

namespace Statement

/-- A statement in which no code is written and every name is inert. -/
def CodeFree : Statement → Prop
  | .load _ packages => ∀ package ∈ packages, Inert package.toList
  | .callback name => Inert name.toList
  | .declare name value => Inert name.toList ∧ value.CodeFree
  | .listen .. => False
  | .draw chart data options converter => Inert chart.toList ∧ Inert data.toList ∧
    Inert options.toList ∧ ∀ path ∈ converter, Inert path.toList
  | .close => True

/-- The texts that a statement holds as they were given. -/
def asGiven : Statement → List String
  | .load settings _ => settings.version :: settings.language.toList
  | .declare _ (.chart _ id) => [id]
  | _ => []

/-- A statement does not end in a bracket. -/
theorem bracket_not_mem_getLast?_text (s : Statement) : '<' ∉ s.text.toList.getLast? := by
  have hend {c : Char} (hc : c ≠ '<') (h : s.text.toList.getLast? = some c) :
      '<' ∉ s.text.toList.getLast? := by
    simpa [h] using hc
  cases s with
  | callback name => exact hend (c := '\x7b') (by decide) (getLast?_toList_append _ rfl)
  | close => exact hend (c := '\x7d') (by decide) rfl
  | _ => exact hend (c := ';') (by decide) (getLast?_toList_append _ rfl)

/-- In the end of a loading statement, a tag is in the language. -/
theorem tagFree_loadArgument {packages : List String}
    (h : ∀ package ∈ packages, Inert package.toList) (language : Option String) :
    TagFree ("'" ++ (", " ++ (loadArgument packages language ++ ");"))).toList ↔
      ∀ text ∈ language.toList, TagFree text.toList := by
  have hpackages : Sealed (",".intercalate (packages.map singleQuoted)).toList := by
    refine sealed_intercalate (.of_not_mem (by decide)) fun part hpart => ?_
    obtain ⟨package, hpackage, rfl⟩ := List.mem_map.mp hpart
    exact (h package hpackage).sealed.enclosed (by decide) (by decide)
  have hlist (after : String) (hafter : '<' ∉ after.toList) :
      Sealed ("'" ++ (", " ++ "\x7bpackages:[") ++ ",".intercalate (packages.map singleQuoted) ++
        after).toList :=
    hpackages.enclosed (by simp) hafter
  cases language with
  | none =>
    have hsealed := hlist ("]" ++ ("" ++ ("\x7d" ++ ");"))) (by simp)
    unfold loadArgument
    simp only [String.append_assoc] at hsealed ⊢
    exact iff_of_true hsealed.tagFree (by simp)
  | some language =>
    have hbefore := hlist ("]" ++ (", language: " ++ "'")) (by simp)
    have hafter : Sealed ("'" ++ ("\x7d" ++ ");")).toList := .of_not_mem (by simp)
    have hquote : '/' ∉ ("'" ++ ("\x7d" ++ ");")).toList.head? := by simp
    have hiff := hbefore.tagFree_between language hquote
    unfold loadArgument
    simp only [singleQuoted, String.append_assoc] at hiff ⊢
    rw [hiff, and_iff_left hafter.tagFree, Option.toList_some, List.forall_mem_singleton]

/-- In a loading statement, a tag is in the version or in the language. -/
theorem tagFree_load {settings : LoaderSettings} {packages : List String}
    (h : ∀ package ∈ packages, Inert package.toList) :
    TagFree (load settings packages).text.toList ↔
      ∀ text ∈ (load settings packages).asGiven, TagFree text.toList := by
  have hbefore : Sealed ("google.charts.load(" ++ "'").toList := .of_not_mem (by simp)
  have hafter : '/' ∉ ("'" ++ (", " ++
      (loadArgument packages settings.language ++ ");"))).toList.head? := by
    rw [head?_toList_append _ rfl]
    decide
  have htext : (load settings packages).text = "google.charts.load(" ++ "'" ++ settings.version ++
      ("'" ++ (", " ++ (loadArgument packages settings.language ++ ");"))) := by
    change "google.charts.load(" ++ singleQuoted settings.version ++ ", " ++
      loadArgument packages settings.language ++ ");" = _
    simp only [singleQuoted, String.append_assoc]
  rw [htext, hbefore.tagFree_between _ hafter, asGiven, List.forall_mem_cons,
    tagFree_loadArgument h]

/-- The opening of a declaration is inert. -/
theorem inert_declareOpening {name : String} (h : Inert name.toList) :
    Inert ("var " ++ name ++ " = ").toList := by
  simp only [String.toList_append, inert_append]
  exact ⟨⟨by decide, h⟩, by decide⟩

/-- In a declaration, a tag is in the element id of a chart. -/
theorem tagFree_declare {name : String} {value : Expression} (hname : Inert name.toList)
    (h : value.CodeFree) :
    TagFree (declare name value).text.toList ↔
      ∀ text ∈ (declare name value).asGiven, TagFree text.toList := by
  have hbefore := inert_declareOpening hname
  have hsealed (hvalue : Sealed value.text.toList) : TagFree (declare name value).text.toList := by
    have hdeclare : Sealed ("var " ++ name ++ " = " ++ value.text ++ ";").toList :=
      hvalue.enclosed hbefore.bracket_not_mem (by simp)
    exact hdeclare.tagFree
  cases value with
  | chart path id =>
    have hopening : Sealed ("var " ++ name ++ " = " ++
        ("new " ++ path ++ "(document.getElementById(\"")).toList := by
      have hpath : Sealed ("new " ++ path ++ "(document.getElementById(\"").toList :=
        h.sealed.enclosed (by simp) (by simp)
      rw [String.toList_append]
      exact hbefore.sealed.append hpath
    have hclosing : Sealed ("\"))" ++ ";").toList := .of_not_mem (by simp)
    have htext : (declare name (.chart path id)).text = "var " ++ name ++ " = " ++
        ("new " ++ path ++ "(document.getElementById(\"") ++ id ++ ("\"))" ++ ";") := by
      change "var " ++ name ++ " = " ++ Expression.text (.chart path id) ++ ";" = _
      simp only [Expression.text, String.append_assoc]
    rw [htext, hopening.tagFree_between _ (by simp), and_iff_left hclosing.tagFree,
      asGiven, List.forall_mem_singleton]
  | table source => exact iff_of_true (hsealed (blindToTexts_sealed.expression h)) (by simp [asGiven])
  | comparison owner old new =>
    exact iff_of_true (hsealed (Expression.inert_comparison h).sealed) (by simp [asGiven])
  | options literal => exact iff_of_true (hsealed (blindToTexts_sealed.spell h)) (by simp [asGiven])

/-- A call that draws is inert. -/
theorem inert_draw {chart data options : String} {converter : Option String}
    (h : (draw chart data options converter).CodeFree) :
    Inert (draw chart data options converter).text.toList := by
  obtain ⟨hchart, hdata, hoptions, hconverter⟩ := h
  have hdraw (argument : String) (h : Inert argument.toList) :
      Inert (chart ++ ".draw(" ++ data ++ ", " ++ argument ++ ");").toList := by
    simp only [String.toList_append, inert_append]
    exact ⟨⟨⟨⟨⟨hchart, by decide⟩, hdata⟩, by decide⟩, h⟩, by decide⟩
  cases converter with
  | none => exact hdraw options hoptions
  | some path =>
    refine hdraw (path ++ ".convertOptions(" ++ options ++ ")") ?_
    simp only [String.toList_append, inert_append]
    exact ⟨⟨⟨hconverter path rfl, by decide⟩, hoptions⟩, by decide⟩

/-- The opening of a callback is inert. -/
theorem inert_callback {name : String} (h : Inert name.toList) :
    Inert (callback name).text.toList := by
  change Inert ("google.charts.setOnLoadCallback(" ++ name ++ "); function " ++ name ++
    "() \x7b").toList
  simp only [String.toList_append, inert_append]
  exact ⟨⟨⟨⟨by decide, h⟩, by decide⟩, h⟩, by decide⟩

/-- In a statement without code, a tag is in a text that it holds as it was given. -/
theorem CodeFree.tagFree_text {s : Statement} (h : s.CodeFree) :
    TagFree s.text.toList ↔ ∀ text ∈ s.asGiven, TagFree text.toList := by
  cases s with
  | load settings packages => exact tagFree_load h
  | callback name =>
    exact iff_of_true (inert_callback h).sealed.tagFree (by simp [asGiven])
  | declare name value => exact tagFree_declare h.1 h.2
  | listen chart listener => exact h.elim
  | draw chart data options converter =>
    exact iff_of_true (inert_draw h).sealed.tagFree (by simp [asGiven])
  | close =>
    have hclose : '<' ∉ "\x7d".toList := by simp
    exact iff_of_true (Sealed.of_not_mem hclose).tagFree (by simp [asGiven])

/-- So it is in a script without code. -/
theorem tagFree_script {statements : List Statement} (h : ∀ s ∈ statements, s.CodeFree) :
    TagFree (script statements).toList ↔
      ∀ text ∈ statements.flatMap asGiven, TagFree text.toList := by
  have hends : ∀ part ∈ statements.map text, '<' ∉ part.toList.getLast? :=
    List.forall_mem_map.mpr fun s _ => s.bracket_not_mem_getLast?_text
  rw [script, tagFree_join hends, List.forall_mem_map, List.forall_mem_flatMap]
  exact forall₂_congr fun s hs => (h s hs).tagFree_text

end Statement

namespace ChartType

/-- The name of the class of a type is inert. -/
theorem inert_path (t : ChartType) : Inert t.path.toList := by
  have hlibrary : Inert t.library.word.toList := by
    cases t.library <;> decide
  have hclass : Inert t.className.toList := by
    cases t <;> decide
  simp only [path, String.toList_append, inert_append]
  exact ⟨⟨⟨by decide, hlibrary⟩, by decide⟩, hclass⟩

/-- The name of the package of a type is inert. -/
theorem inert_package (t : ChartType) : Inert t.package.toList := by
  cases t <;> decide

end ChartType

namespace Identifier

/-- An identifier is inert. -/
theorem inert_text (i : Identifier) : Inert i.text.toList := by
  obtain ⟨_, _, _, _, _, hall⟩ := identifierTail_of_isIdentifier i.valid
  exact inert_of_identifierTail hall

/-- So is what it makes when it is capitalized after other inert text. -/
theorem inert_capitalized (i : Identifier) {before : String} (hbefore : Inert before.toList) :
    Inert (before ++ capitalize i.text).toList := by
  obtain ⟨_, _, _, _, _, hall⟩ := identifierTail_of_isIdentifier i.valid
  rw [String.toList_append, inert_append]
  exact ⟨hbefore, inert_of_identifierTail (identifierTail_of_mem_capitalize hall)⟩

end Identifier

/-- The name of a callback is inert. -/
theorem inert_callbackName (ids : List String) : Inert (callbackName ids).toList := by
  rw [callbackName, String.toList_append, inert_append]
  exact ⟨by decide, inert_of_identifierTail
    (identifierTail_of_mem_capitalize identifierTail_of_mem_digest)⟩

/-- Data in whose tables no code is written. -/
def ChartData.CodeFree : ChartData → Prop
  | .table source => source.CodeFree
  | .comparison old new => (∀ source, old.table = .ok source → source.CodeFree) ∧
    ∀ source, new.table = .ok source → source.CodeFree

namespace Chart

/-- A chart without listeners, in whose options and data no code is written. -/
structure CodeFree (c : Chart) : Prop where
  listeners : c.listeners = []
  options : ∀ literal, c.options.literal = .ok literal → literal.CodeFree
  data : c.data.CodeFree

variable {c : Chart}

/-- The name of the data is inert. -/
theorem inert_dataName (c : Chart) : Inert c.dataName.toList :=
  c.name.inert_capitalized (by decide)

/-- The name of the options is inert. -/
theorem inert_optionsName (c : Chart) : Inert c.optionsName.toList :=
  c.name.inert_capitalized (by decide)

/-- The declarations for data without code are free of code and hold no text as it was given. -/
theorem CodeFree.dataDeclarations (h : c.CodeFree) {statements : List Statement}
    (hdata : c.dataDeclarations = .ok statements) :
    (∀ s ∈ statements, s.CodeFree) ∧ statements.flatMap Statement.asGiven = [] := by
  have hfree := h.data
  unfold Chart.dataDeclarations at hdata
  split at hdata
  · rename_i source hsource
    rw [hsource] at hfree
    cases hdata
    exact ⟨List.forall_mem_singleton.mpr ⟨c.inert_dataName, hfree⟩, rfl⟩
  · rename_i old new hcomparison
    rw [hcomparison] at hfree
    obtain ⟨oldTable, hold, hdata⟩ := bind_eq_ok.mp hdata
    obtain ⟨newTable, hnew, hdata⟩ := bind_eq_ok.mp hdata
    cases hdata
    have hnamed {before : String} (hbefore : Inert before.toList) :
        Inert (before ++ c.dataName).toList := by
      rw [String.toList_append, inert_append]
      exact ⟨hbefore, c.inert_dataName⟩
    have holdName : Inert c.oldDataName.toList := hnamed (by decide)
    have hnewName : Inert c.newDataName.toList := hnamed (by decide)
    refine ⟨?_, rfl⟩
    simp only [List.forall_mem_cons]
    exact ⟨⟨holdName, hfree.1 _ hold⟩, ⟨hnewName, hfree.2 _ hnew⟩,
      ⟨c.inert_dataName, c.name.inert_text, holdName, hnewName⟩, by simp⟩

/-- Starting a chart without code holds its element id as it was given, and no other text. -/
theorem CodeFree.start (h : c.CodeFree) {id : String} {statements : List Statement}
    (hstart : c.start id = .ok statements) :
    (∀ s ∈ statements, s.CodeFree) ∧ statements.flatMap Statement.asGiven = [id] := by
  obtain ⟨found, hfound, hstart⟩ := bind_eq_ok.mp hstart
  obtain ⟨data, hdata, hstart⟩ := bind_eq_ok.mp hstart
  obtain ⟨options, hoptions, hstart⟩ := bind_eq_ok.mp hstart
  obtain ⟨literal, hliteral, rfl⟩ := map_eq_ok.mp hoptions
  obtain ⟨hid, _⟩ := requireElementId_eq_ok.mp hfound
  obtain ⟨hfree, hgiven⟩ := h.dataDeclarations hdata
  cases hid
  cases hstart
  refine ⟨List.forall_mem_cons.mpr ⟨⟨c.name.inert_text, c.type.inert_path⟩,
    List.forall_mem_append.mpr ⟨hfree, List.forall_mem_singleton.mpr
      ⟨c.inert_optionsName, h.options literal hliteral⟩⟩⟩, ?_⟩
  rw [List.flatMap_cons, List.flatMap_append, hgiven]
  rfl

/-- Finishing a chart without code holds no text as it was given. -/
theorem CodeFree.finish (h : c.CodeFree) :
    (∀ s ∈ c.finish, s.CodeFree) ∧ c.finish.flatMap Statement.asGiven = [] := by
  have hfinish : c.finish = [.draw c.name.text c.dataName c.optionsName c.converter?] := by
    rw [Chart.finish, listening, h.listeners]
    rfl
  rw [hfinish]
  refine ⟨List.forall_mem_singleton.mpr ⟨c.name.inert_text, c.inert_dataName,
    c.inert_optionsName, fun path hpath => ?_⟩, rfl⟩
  unfold converter? at hpath
  split at hpath
  · cases hpath
  · cases hpath
    exact c.type.inert_path

end Chart

namespace Batch

variable {b : Batch} {loader : Loader}

/-- Starting charts without code holds their element ids as they were given, and no other text. -/
theorem codeFree_starts (h : ∀ c ∈ b.charts, c.CodeFree) {ids : List String}
    (hcount : ids.length ≤ b.charts.length) {starts : List (List Statement)}
    (hstarts : (b.charts.zip ids).mapM (fun (chart, id) => chart.start id) = .ok starts) :
    (∀ s ∈ starts.flatten, s.CodeFree) ∧ starts.flatten.flatMap Statement.asGiven = ids := by
  have hchart {pair : Chart × String} (hpair : pair ∈ b.charts.zip ids) : pair.1.CodeFree :=
    h _ (List.of_mem_zip hpair).1
  constructor
  · intro s hs
    obtain ⟨statements, hmem, hs⟩ := List.mem_flatten.mp hs
    obtain ⟨pair, hpair, hstart⟩ := exists_mem_of_mapM_eq_ok hstarts hmem
    exact ((hchart hpair).start hstart).1 s hs
  · have hgiven : starts.map (List.flatMap Statement.asGiven) =
        (b.charts.zip ids).map fun pair => [pair.2] :=
      map_eq_of_mapM_eq_ok (fun _ hpair _ hstart => ((hchart hpair).start hstart).2) hstarts
    calc starts.flatten.flatMap Statement.asGiven
        = (starts.map (List.flatMap Statement.asGiven)).flatten := by
          rw [← List.flatMap_id, List.flatMap_assoc]
          rfl
      _ = (b.charts.zip ids).map Prod.snd := by
          rw [hgiven, ← List.flatMap_def, List.map_eq_flatMap]
      _ = ids := List.map_snd_zip hcount

/-- Finishing charts without code holds no text as it was given. -/
theorem codeFree_finish (h : ∀ c ∈ b.charts, c.CodeFree) {statements : List Statement}
    (hfinish : b.finish = .ok statements) :
    (∀ s ∈ statements, s.CodeFree) ∧ statements.flatMap Statement.asGiven = [] := by
  obtain ⟨_, _, hfinish⟩ := bind_eq_ok.mp hfinish
  obtain ⟨_, _, hfinish⟩ := bind_eq_ok.mp hfinish
  cases hfinish
  constructor
  · refine List.forall_mem_append.mpr ⟨fun s hs => ?_, List.forall_mem_singleton.mpr trivial⟩
    obtain ⟨c, hc, hs⟩ := List.mem_flatMap.mp hs
    exact (h c hc).finish.1 s hs
  · rw [List.flatMap_append, List.flatMap_assoc,
      List.flatMap_eq_nil_iff.mpr fun c hc => (h c hc).finish.2]
    rfl

/-- A script for charts without code holds the settings of the loader and the element ids as they
were given, and no other text. -/
theorem codeFree_statements (h : ∀ c ∈ b.charts, c.CodeFree) {statements : List Statement}
    (hstatements : b.statements loader = .ok statements) :
    ∃ ids : List String, ids.map some = b.givenIds ∧ (∀ s ∈ statements, s.CodeFree) ∧
      statements.flatMap Statement.asGiven =
        loader.settings.version :: (loader.settings.language.toList ++ ids) := by
  obtain ⟨first, hfirst, hstatements⟩ := bind_eq_ok.mp hstatements
  obtain ⟨last, hlast, hstatements⟩ := bind_eq_ok.mp hstatements
  obtain ⟨_, hvalid, hfirst⟩ := bind_eq_ok.mp hfirst
  obtain ⟨ids, hids, hfirst⟩ := bind_eq_ok.mp hfirst
  obtain ⟨starts, hstarts, hfirst⟩ := bind_eq_ok.mp hfirst
  cases hfirst
  cases hstatements
  have hcounted := (validate_eq_ok.mp hvalid).2.2
  have hcount := length_resolvedIds hcounted hids
  obtain ⟨hstartsFree, hstartsGiven⟩ := codeFree_starts h hcount.le hstarts
  obtain ⟨hlastFree, hlastGiven⟩ := codeFree_finish h hlast
  have hpackages : ∀ package ∈ b.packages, Inert package.toList := by
    intro package hpackage
    obtain ⟨c, _, rfl⟩ := List.mem_map.mp (List.mem_eraseDups.mp hpackage)
    exact c.type.inert_package
  refine ⟨ids, map_some_of_resolvedIds hcounted hids, List.forall_mem_append.mpr
    ⟨List.forall_mem_cons.mpr ⟨hpackages, List.forall_mem_cons.mpr
      ⟨inert_callbackName ids, hstartsFree⟩⟩, hlastFree⟩, ?_⟩
  rw [List.flatMap_append, hlastGiven, List.append_nil, List.flatMap_cons, List.flatMap_cons,
    hstartsGiven]
  rfl

end Batch

end ChartScript
