import ChartScript.Options.Writing
import ChartScript.Proofs.Options.Path
import ChartScript.Proofs.Outcome
import ChartScript.Proofs.Schema.Merge

/-!
# Where the two resolutions agree

Look-up and merging know the same names, and for each name both go by the nearest schema of the
chain that declares it. Look-up then takes the first declaration of that schema's own list and
merging the last. So the two agree on a name exactly when these are one declaration, as they are if
the list does not repeat the name. Where they are not, an assignment is checked against one kind and
the text against another, and what the first takes and the second refuses can be assigned and not
written.
-/

namespace ChartScript

namespace Schema

/-- The nearest schema of a chain that declares a name in its own list. -/
def declarer? (s : Schema) (name : String) : Option Schema :=
  s.lineage.find? fun t => t.own.any (·.name = name)

/-- Look-up tries the own lists along the chain. -/
theorem field?_eq_findSome? (name : String) :
    (s : Schema) → s.field? name = s.lineage.findSome? fun t => t.own.find? (·.name = name)
  | ⟨_, _, none, own⟩ => by rw [field?, lineage, List.findSome?_singleton]
  | ⟨_, _, some b, own⟩ => by
    rw [field?, field?_eq_findSome? name b, lineage, List.findSome?_cons]
    cases own.find? (·.name = name) <;> rfl

/-- What finds a declaration in every own list that has one of the name, and in no other, finds it
along a chain in the nearest schema that declares the name. -/
theorem findSome?_lineage {name : String}
    {pick : List (FieldSpec Schema) → Option (FieldSpec Schema)}
    (hpick : ∀ own, (pick own).isSome = own.any (·.name = name)) (s : Schema) :
    (s.lineage.findSome? fun t => pick t.own) = (s.declarer? name).bind fun t => pick t.own := by
  unfold declarer?
  induction s.lineage with
  | nil => rfl
  | cons t rest ih =>
    rw [List.findSome?_cons, List.find?_cons, ← hpick]
    cases hfound : pick t.own with
    | none => exact ih
    | some spec => exact hfound.symm

/-- Look-up gives the first declaration of the nearest schema that declares the name. -/
theorem field?_eq_first (s : Schema) (name : String) :
    s.field? name = (s.declarer? name).bind fun t => t.own.find? (·.name = name) := by
  rw [field?_eq_findSome?]
  exact findSome?_lineage (fun own => List.isSome_find?) s

/-- Merging leaves the last one. -/
theorem find?_fields_eq_last (s : Schema) (name : String) :
    s.fields.find? (·.name = name) =
      (s.declarer? name).bind fun t => t.own.findRev? (·.name = name) := by
  rw [find?_fields_eq_findSome?]
  refine findSome?_lineage (fun own => ?_) s
  rw [List.findRev?_eq_find?_reverse, List.isSome_find?, List.any_reverse]

/-- The resolved list holds the declaration that is found in it by name, and no other of the name.
-/
theorem find?_fields_eq_some_iff {s : Schema} {name : String} {spec : FieldSpec Schema} :
    s.fields.find? (·.name = name) = some spec ↔ spec ∈ s.fields ∧ spec.name = name := by
  constructor
  · intro h
    exact ⟨List.mem_of_find?_eq_some h, by simpa using List.find?_some h⟩
  · rintro ⟨hspec, rfl⟩
    exact (FieldSpec.find?_eq_some_iff_mem (nodup_names_fields s)).mpr hspec

/-- The nearest schema that declares a name has a first and a last declaration of it. -/
theorem exists_first_last_of_declarer? {s t : Schema} {name : String}
    (h : s.declarer? name = some t) :
    ∃ first last, t.own.find? (·.name = name) = some first ∧
      t.own.findRev? (·.name = name) = some last := by
  have hdeclares := List.find?_some h
  have hany : t.own.any (·.name = name) = true := hdeclares
  have hlast : (t.own.findRev? (·.name = name)).isSome = true := by
    rw [List.findRev?_eq_find?_reverse, List.isSome_find?, List.any_reverse, hany]
  obtain ⟨first, hfirst⟩ := Option.isSome_iff_exists.mp (List.isSome_find?.trans hany)
  obtain ⟨last, hlast⟩ := Option.isSome_iff_exists.mp hlast
  exact ⟨first, last, hfirst, hlast⟩

/-- Look-up and merging know the same names. -/
theorem isSome_field? (s : Schema) (name : String) :
    (s.field? name).isSome = (s.fields.find? (·.name = name)).isSome := by
  rw [field?_eq_first, find?_fields_eq_last]
  cases h : s.declarer? name with
  | none => rfl
  | some t =>
    obtain ⟨first, last, hfirst, hlast⟩ := exists_first_last_of_declarer? h
    rw [Option.bind_some, Option.bind_some, hfirst, hlast]
    rfl

/-- A name that look-up knows is the name of a declaration of the resolved list. -/
theorem exists_mem_fields_of_field? {s : Schema} {name : String} {spec : FieldSpec Schema}
    (h : s.field? name = some spec) : ∃ resolved ∈ s.fields, resolved.name = name := by
  have hsome := isSome_field? s name
  rw [h, Option.isSome_some] at hsome
  obtain ⟨resolved, hresolved⟩ := Option.isSome_iff_exists.mp hsome.symm
  exact ⟨resolved, find?_fields_eq_some_iff.mp hresolved⟩

/-- They agree on a name when the nearest schema that declares it has one declaration in both
places. -/
theorem field?_eq_find?_fields_iff (s : Schema) (name : String) :
    s.field? name = s.fields.find? (·.name = name) ↔ ∀ t, s.declarer? name = some t →
      t.own.find? (·.name = name) = t.own.findRev? (·.name = name) := by
  rw [field?_eq_first, find?_fields_eq_last]
  cases s.declarer? name <;> simp

end Schema

namespace Options

/-- Writing a list of fields fails if it fails for one of them. -/
theorem exists_members_eq_error {entries : List (String × OptionValue × Except Error Literal)}
    {specs : List (FieldSpec Schema)} {spec : FieldSpec Schema} (hspec : spec ∈ specs) {e : Error}
    (h : member entries spec = .error e) : ∃ e, members entries specs = .error e := by
  induction specs with
  | nil => exact absurd hspec List.not_mem_nil
  | cons first rest ih =>
    rw [members]
    cases hfirst : member entries first with
    | error e => exact ⟨e, rfl⟩
    | ok said =>
      rcases List.mem_cons.mp hspec with rfl | hrest
      · cases hfirst.symm.trans h
      · obtain ⟨e, hmembers⟩ := ih hrest
        rw [hmembers]
        exact ⟨e, rfl⟩

/-- A tree has no text when one of its values does not fit what the resolved list says. -/
theorem exists_render_eq_error {options : Options} {spec : FieldSpec Schema} {value : OptionValue}
    (hspec : spec ∈ options.schema.fields) (hget : options.get? spec.name = some value)
    (hfits : value.fits spec.kind = false) : ∃ e, options.render = .error e := by
  obtain ⟨schema, entries⟩ := options
  have hmember : member (fieldLiterals entries) spec =
      .error (.shapeMismatch spec.name spec.kind.describe value.shape) := by
    have hfind : Keyed.find? spec.name entries = some value := hget
    simp [member, find?_fieldLiterals, hfind, FieldSpec.check, hfits, bind, Except.bind]
  obtain ⟨e, hmembers⟩ := exists_members_eq_error hspec hmember
  refine ⟨e, ?_⟩
  rw [render, literal, hmembers]
  rfl

end Options

namespace Schema

/-- Look-up and the resolved list know the same names. Look-up gives what the resolved list holds
under a name exactly when the nearest schema that declares the name has one declaration as the first
and the last of that name in its own list. Where the two differ, an assigned value that fits what
look-up gives and not what the resolved list holds leaves a tree without a text. -/
theorem field?_resolves_iff (s : Schema) (name : String) :
    ((s.field? name).isSome = true ↔ ∃ spec ∈ s.fields, spec.name = name) ∧
      ((∀ spec, s.field? name = some spec ↔ spec ∈ s.fields ∧ spec.name = name) ↔
        ∀ t, s.declarer? name = some t →
          t.own.find? (·.name = name) = t.own.findRev? (·.name = name)) ∧
      ∀ (options changed : Options) (value : OptionValue), options.schema = s →
        options.set name value = .ok changed → ∀ spec ∈ s.fields, spec.name = name →
          value.fits spec.kind = false → ∃ e, changed.render = .error e := by
  refine ⟨?_, ?_, fun options changed value hschema hset spec hspec hname hfits => ?_⟩
  · rw [isSome_field?, Option.isSome_iff_exists]
    simp only [find?_fields_eq_some_iff]
  · rw [← field?_eq_find?_fields_iff]
    simp only [← find?_fields_eq_some_iff]
    exact Option.ext_iff.symm
  · obtain ⟨_, _, _, rfl⟩ := Options.set_eq_ok.mp hset
    subst hname
    exact Options.exists_render_eq_error (hschema.symm ▸ hspec)
      (Options.get?_store_self options spec.name value) hfits

/-- A schema that declares one name twice, for a number and for a text. -/
def ambiguous : Schema :=
  ⟨.custom 0, "Ambiguous", none, [Catalog.number "x", Catalog.text "x"]⟩

/-- Look-up takes the field of the ambiguous schema for a number and the resolved list has it for a
text, so a number can be assigned to it and cannot be written. -/
theorem not_field?_resolves_ambiguous :
    ¬ (∀ spec, ambiguous.field? "x" = some spec ↔ spec ∈ ambiguous.fields ∧ spec.name = "x") ∧
      ambiguous.field? "x" = some (Catalog.number "x") ∧
      ambiguous.fields = [Catalog.text "x"] ∧
      ∃ tree, (Options.empty ambiguous).set "x" (.number (.finite false .zero)) = .ok tree ∧
        tree.render = .error (.shapeMismatch "x" "a string" "a number") := by
  refine ⟨fun h => ?_, rfl, rfl, _, rfl, rfl⟩
  obtain ⟨hmem, _⟩ := (h (Catalog.number "x")).mp rfl
  cases List.mem_singleton.mp hmem

end Schema

end ChartScript
