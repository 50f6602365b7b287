import ChartScript.Proofs.Script.StringLiteral
import ChartScript.Proofs.Script.Variables

/-!
# Element ids in a script

The element of a chart is looked up under an id that the script holds between double quotes as it was
given. A script reads it back as that id exactly when the id is bare: a quote ends the literal too
early, a backslash begins an escape, and a line break may not stand there at all. No check on a batch
asks for bare ids.
-/

namespace ChartScript

namespace Chart

/-- The construction of a chart up to the literal that names its element. -/
def constructionOpening (c : Chart) : String :=
  "var " ++ c.name.text ++ " = new " ++ c.type.path ++ "(document.getElementById("

/-- In the construction of a chart, with what follows it, the argument of the look-up is a literal
that denotes an id, and the end of the statement follows on it directly. -/
def NamesElement (c : Chart) (construction : String) (id : String) : Prop :=
  ∃ literal rest, construction.toList = c.constructionOpening.toList ++ '"' :: literal ∧
    StringLiteral.read? literal = some (StringLiteral.units id.toList, "));".toList ++ rest)

/-- The construction of a chart in an element. -/
def construction (c : Chart) (id : String) : Statement :=
  .declare c.name.text (.chart c.type.path id)

variable {c : Chart} {id : String}

/-- The construction is its opening, the id between quotes, and the end of the statement. -/
theorem toList_text_construction (c : Chart) (id : String) :
    (c.construction id).text.toList =
      c.constructionOpening.toList ++ '"' :: (id.toList ++ '"' :: "));".toList) := by
  change ("var " ++ c.name.text ++ " = " ++
    ("new " ++ c.type.path ++ "(document.getElementById(\"" ++ id ++ "\"))") ++ ";").toList = _
  simp [constructionOpening]

/-- A bare id is read from the construction, whatever follows. -/
theorem namesElement_of_bare (h : StringLiteral.Bare id.toList) (following : String) :
    c.NamesElement ((c.construction id).text ++ following) id := by
  refine ⟨id.toList ++ '"' :: ("));".toList ++ following.toList), following.toList, ?_, ?_⟩
  · rw [String.toList_append, toList_text_construction]
    simp only [List.append_assoc, List.cons_append]
  · exact StringLiteral.read?_bare h _

/-- Only a bare id is read from the construction. -/
theorem bare_of_namesElement (h : c.NamesElement (c.construction id).text id) :
    StringLiteral.Bare id.toList := by
  obtain ⟨literal, rest, htext, hread⟩ := h
  rw [toList_text_construction, List.append_cancel_left_eq] at htext
  obtain ⟨_, rfl⟩ := List.cons.inj htext
  exact (StringLiteral.read?_quoted_iff (by decide)).mp ⟨_, hread⟩

end Chart

namespace Batch

/-- What is started of an accepted batch holds the construction of each chart in the element of the
id that the chart goes by. -/
theorem exists_constructions {loader : Loader} {b : Batch} {statements : List Statement}
    (h : b.start loader = .ok statements) :
    ∃ (ids : List String) (starts : List (List Statement)),
      b.resolvedIds = .ok ids ∧ ids.map some = b.givenIds ∧
      statements = .load loader.settings b.packages :: .callback (callbackName ids) ::
        starts.flatten ∧
      starts.length = b.charts.length ∧
      ∀ (i : Nat) c, b.charts[i]? = some c → ∃ id rest, ids[i]? = some id ∧
        starts[i]? = some (c.construction id :: rest) := by
  obtain ⟨ids, starts, hvalid, hids, hstatements, hlength, hstarts⟩ :=
    exists_starts_of_start_eq_ok h
  have hgiven := map_some_of_resolvedIds (validate_eq_ok.mp hvalid).2.2 hids
  refine ⟨ids, starts, hids, hgiven, hstatements, hlength, fun i c hc => ?_⟩
  obtain ⟨id, start, hid, hstart, hok⟩ := exists_start_of_getElem? hlength hstarts hc
  obtain ⟨data, literal, _, _, rfl⟩ := Chart.exists_of_start_eq_ok hok
  exact ⟨id, _, hid, hstart⟩

/-- In what is started of an accepted batch, every chart is constructed in the element of the id
that it goes by, the one bound to the batch or else its own. The id is read from the construction
exactly when it has no quote, no backslash and no line break, and then whatever follows. -/
theorem element_read_iff_bare (loader : Loader) (b : Batch) (statements : List Statement)
    (h : b.start loader = .ok statements) :
    ∃ (ids : List String) (starts : List (List Statement)),
      b.resolvedIds = .ok ids ∧ ids.map some = b.givenIds ∧
      statements = .load loader.settings b.packages :: .callback (callbackName ids) ::
        starts.flatten ∧
      starts.length = b.charts.length ∧
      ∀ (i : Nat) c, b.charts[i]? = some c → ∃ id rest, ids[i]? = some id ∧
        starts[i]? = some (c.construction id :: rest) ∧
        (c.NamesElement (c.construction id).text id ↔ StringLiteral.Bare id.toList) ∧
        (StringLiteral.Bare id.toList → ∀ following,
          c.NamesElement ((c.construction id).text ++ following) id) := by
  obtain ⟨ids, starts, hids, hgiven, hstatements, hlength, hconstructions⟩ :=
    exists_constructions h
  refine ⟨ids, starts, hids, hgiven, hstatements, hlength, fun i c hc => ?_⟩
  obtain ⟨id, rest, hid, hstart⟩ := hconstructions i c hc
  refine ⟨id, rest, hid, hstart, ⟨Chart.bare_of_namesElement, fun hbare => ?_⟩,
    Chart.namesElement_of_bare⟩
  have hnames := c.namesElement_of_bare hbare ""
  rwa [String.append_empty] at hnames

/-- A pie chart in the element of an id. -/
def pieIn (id : String) : Batch := ⟨[samplePie], some [id]⟩

/-- Every id that is not empty is accepted. -/
theorem exists_start_pieIn (id : String) (hid : id ≠ "") :
    ∃ statements, (pieIn id).start sampleLoader = .ok statements := by
  have hdrawable : (pieIn id).Drawable := by
    refine ⟨List.cons_ne_nil _ _, fun c hc d hd => ?_, .inl ⟨[id], rfl, rfl, by simpa using hid⟩⟩
    rw [List.mem_singleton.mp hc, List.mem_singleton.mp hd]
  obtain ⟨statements, h⟩ := hdrawable.exists_statements sampleLoader fun c hc => by
    rw [List.mem_singleton.mp hc]
    exact (Chart.built_plain ..).sound
  obtain ⟨first, hfirst, _⟩ := bind_eq_ok.mp h
  exact ⟨first, hfirst⟩

/-- An id in another script than Latin, and one that would close the script element, are read. -/
theorem element_read_bare_id :
    ∃ statements, (pieIn "</größe 図>").start sampleLoader = .ok statements ∧
      samplePie.construction "</größe 図>" ∈ statements ∧
        samplePie.NamesElement (samplePie.construction "</größe 図>").text "</größe 図>" := by
  obtain ⟨statements, h⟩ := exists_start_pieIn "</größe 図>" (by decide)
  obtain ⟨ids, starts, _, hgiven, rfl, _, hcharts⟩ := element_read_iff_bare _ _ statements h
  obtain ⟨id, rest, hid, hstart, hread, _⟩ := hcharts 0 samplePie rfl
  have hsame : some (some id) = some (some "</größe 図>") := by
    rw [← Option.map_some, ← hid, ← List.getElem?_map, hgiven]
    rfl
  cases hsame
  refine ⟨_, h, ?_, hread.mpr (by decide)⟩
  exact List.mem_cons_of_mem _ (List.mem_cons_of_mem _
    (List.mem_flatten.mpr ⟨_, List.mem_of_getElem? hstart, List.mem_cons_self⟩))

/-- Ids are not always read as they were given: a quote in an id closes the literal. -/
theorem not_element_read_quote :
    ¬ ∀ (loader : Loader) (b : Batch) (statements : List Statement),
      b.start loader = .ok statements → ∀ c ∈ b.charts, ∀ id, c.construction id ∈ statements →
        c.NamesElement (c.construction id).text id := by
  intro hread
  obtain ⟨statements, h⟩ := exists_start_pieIn "a\"b" (by decide)
  obtain ⟨ids, starts, _, hgiven, rfl, _, hcharts⟩ := exists_constructions h
  obtain ⟨id, rest, hid, hstart⟩ := hcharts 0 samplePie rfl
  have hsame : some (some id) = some (some "a\"b") := by
    rw [← Option.map_some, ← hid, ← List.getElem?_map, hgiven]
    rfl
  cases hsame
  have hmem : samplePie.construction "a\"b" ∈ starts.flatten :=
    List.mem_flatten.mpr ⟨_, List.mem_of_getElem? hstart, List.mem_cons_self⟩
  have hnames := hread _ _ _ h samplePie List.mem_cons_self _
    (List.mem_cons_of_mem _ (List.mem_cons_of_mem _ hmem))
  exact absurd (Chart.bare_of_namesElement hnames) (by decide)

end Batch

end ChartScript
