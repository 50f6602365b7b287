import ChartScript.Proofs.Schema.Resolution

/-!
# Merging the fields of an extension

The resolved list of an extension begins with the names of its base, each in its place, and goes on
with the names that the extension alone declares, each once and in the order in which they are first
declared. What a name stands for is decided by the last declaration of the extension's own list, and
by the base where there is none. Along a chain of any length this makes the schema decide that is
the nearest to declare the name, and keeps the names of every base in front.
-/

namespace ChartScript

namespace FieldSpec

variable {σ : Type}

/-- An override leaves the names as they are, or adds a new one at the end. -/
theorem names_override (specs : List (FieldSpec σ)) (spec : FieldSpec σ) :
    (override specs spec).map (·.name) =
      if spec.name ∈ specs.map (·.name) then specs.map (·.name)
      else specs.map (·.name) ++ [spec.name] := by
  induction specs with
  | nil => rfl
  | cons first rest ih =>
    rw [override]
    by_cases hfirst : first.name = spec.name
    · rw [if_pos hfirst, List.map_cons, List.map_cons, hfirst, if_pos List.mem_cons_self]
    · have hmem : spec.name ∈ (first :: rest).map (·.name) ↔ spec.name ∈ rest.map (·.name) :=
        List.mem_cons.trans (or_iff_right (Ne.symm hfirst))
      rw [if_neg hfirst, List.map_cons, ih]
      simp only [hmem]
      split <;> rfl

/-- Overrides leave the names in front as they are, and add each new one once, in the order in which
they first occur. -/
theorem names_foldl_override (own specs : List (FieldSpec σ)) :
    (own.foldl override specs).map (·.name) = specs.map (·.name) ++
      ((own.map (·.name)).filter (· ∉ specs.map (·.name))).eraseDups := by
  induction own generalizing specs with
  | nil => exact (List.append_nil _).symm
  | cons spec rest ih =>
    rw [List.foldl_cons, ih, names_override, List.map_cons]
    by_cases hold : spec.name ∈ specs.map (·.name)
    · rw [if_pos hold, List.filter_cons_of_neg (by simpa using hold)]
    · have hnew : (rest.map (·.name)).filter (· ∉ specs.map (·.name) ++ [spec.name]) =
          ((rest.map (·.name)).filter (· ∉ specs.map (·.name))).filter fun name =>
            !name == spec.name := by
        rw [List.filter_filter]
        refine List.filter_congr fun name _ => ?_
        rw [← Bool.decide_coe (!name == spec.name), ← Bool.decide_and, decide_eq_decide]
        simp [not_or, and_comm]
      rw [if_neg hold, List.filter_cons_of_pos (by simpa using hold), List.eraseDups_cons, hnew,
        List.append_assoc]
      rfl

end FieldSpec

namespace Schema

/-- A schema that extends another merges its own declarations into the fields of that one. -/
theorem fields_of_base {s b : Schema} (h : s.base = some b) :
    s.fields = s.own.foldl FieldSpec.override b.fields := by
  obtain ⟨identity, name, base, own⟩ := s
  obtain rfl : base = some b := h
  rfl

/-- A name stands for the last declaration of the schema's own list, or for what it stands for in
the base. -/
theorem find?_fields_of_base {s b : Schema} (h : s.base = some b) (name : String) :
    s.fields.find? (·.name = name) =
      (s.own.findRev? (·.name = name)).or (b.fields.find? (·.name = name)) := by
  rw [fields_of_base h, FieldSpec.find?_foldl_override, List.findRev?_eq_find?_reverse]

/-- Along a chain a name stands for the last declaration in the nearest schema that declares it. -/
theorem find?_fields_eq_findSome? (name : String) :
    (s : Schema) → s.fields.find? (·.name = name) =
      s.lineage.findSome? fun t => t.own.findRev? (·.name = name)
  | ⟨_, _, none, own⟩ => by
    rw [fields, FieldSpec.find?_foldl_override, ← List.findRev?_eq_find?_reverse, lineage,
      List.findSome?_singleton]
    exact Option.or_none
  | ⟨_, _, some b, own⟩ => by
    rw [find?_fields_of_base rfl, find?_fields_eq_findSome? name b, lineage, List.findSome?_cons]
    cases own.findRev? (·.name = name) <;> rfl

/-- The names of every schema of a chain stay in front, each in its place. -/
theorem names_fields_isPrefix :
    {s t : Schema} → t ∈ s.lineage → t.fields.map (·.name) <+: s.fields.map (·.name)
  | ⟨_, _, none, _⟩, _, ht => by
    obtain rfl := List.mem_singleton.mp ht
    exact List.prefix_rfl
  | ⟨_, _, some b, own⟩, t, ht => by
    rcases List.mem_cons.mp ht with rfl | ht
    · exact List.prefix_rfl
    · refine (names_fields_isPrefix ht).trans ?_
      rw [fields, FieldSpec.names_foldl_override]
      exact List.prefix_append _ _

/-- The fields of an extension are those of its base, each in its place, and after them those that
it alone declares, in the order of first declaration; no name stands twice. A field that the
extension declares is what it declares last under that name, and every other field is that of the
base. Along the whole chain, the names of each base stay in front in their places, and a name stands
for the last declaration in the nearest schema that declares it. -/
theorem fields_extension (s b : Schema) (h : s.base = some b) :
    s.fields.map (·.name) = b.fields.map (·.name) ++
        ((s.own.map (·.name)).filter (· ∉ b.fields.map (·.name))).eraseDups ∧
      (s.fields.map (·.name)).Nodup ∧
      (∀ spec, spec ∈ s.fields ↔ s.own.findRev? (·.name = spec.name) = some spec ∨
        spec.name ∉ s.own.map (·.name) ∧ spec ∈ b.fields) ∧
      (∀ t ∈ s.lineage, t.fields.map (·.name) <+: s.fields.map (·.name)) ∧
      ∀ name, s.fields.find? (·.name = name) =
        s.lineage.findSome? fun t => t.own.findRev? (·.name = name) := by
  refine ⟨?_, nodup_names_fields s, fun spec => ?_, fun _ => names_fields_isPrefix,
    fun name => find?_fields_eq_findSome? name s⟩
  · rw [fields_of_base h, FieldSpec.names_foldl_override]
  · have hown : s.own.findRev? (·.name = spec.name) = none ↔ spec.name ∉ s.own.map (·.name) := by
      rw [List.findRev?_eq_find?_reverse, List.find?_eq_none]
      simp
    rw [← FieldSpec.find?_eq_some_iff_mem (nodup_names_fields s), find?_fields_of_base h,
      Option.or_eq_some_iff, hown, FieldSpec.find?_eq_some_iff_mem (nodup_names_fields b)]

/-- A legend with a new field and a field of its base, each of them declared twice. -/
def revisedLegend : Schema :=
  ⟨.custom 0, "RevisedLegend", some Catalog.legend,
    [Catalog.text "note", Catalog.text "position", Catalog.number "note", Catalog.flag "position"]⟩

/-- The revised legend has the position in its old place, the note once at the end, and both as they
are declared last. -/
theorem fields_extension_revisedLegend :
    revisedLegend.base = some Catalog.legend ∧
      revisedLegend.fields.map (·.name) = ["alignment", "position", "textStyle", "note"] ∧
      Catalog.flag "position" ∈ revisedLegend.fields ∧
      Catalog.number "note" ∈ revisedLegend.fields ∧
      Catalog.object "textStyle" Catalog.textStyle ∈ revisedLegend.fields := by
  obtain ⟨hnames, _, hspec, _, _⟩ := fields_extension revisedLegend Catalog.legend rfl
  refine ⟨rfl, hnames.trans (by decide), (hspec _).mpr (Or.inl rfl), (hspec _).mpr (Or.inl rfl),
    (hspec _).mpr (Or.inr ⟨by decide, ?_⟩)⟩
  simp [Catalog.legend, Catalog.schema, fields, FieldSpec.override, Catalog.choice, Catalog.object]

end Schema

end ChartScript
