import ChartScript.Catalog.Index

/-!
# Two ways to resolve a field

A declaration is looked up from the extension towards the base, and the resolved field list is
merged from the base outwards. Where no schema of a chain declares a field twice, the two agree:
the resolved list holds for each name the declaration that look-up gives, and no name twice.

`Unrepeated` asks this of a schema and its bases, which is what the resolution of its fields needs,
and `RepeatFree` of every schema that it mentions, as bases or in its fields, which passes to the
nodes of a tree. Both are facts about each schema of the catalog.
-/

namespace ChartScript

/-- The schema that a kind of field nests, if it nests one. -/
def FieldKind.nested? {σ : Type} : FieldKind σ → Option σ
  | .object schema | .scalarOrObject _ schema | .indexed schema | .objectList schema => some schema
  | .scalar _ | .code | .scalarList _ => none

namespace FieldSpec

variable {σ : Type}

/-- Looking a name up after an override finds the new declaration or what was there. -/
theorem find?_override (specs : List (FieldSpec σ)) (spec : FieldSpec σ) (name : String) :
    (override specs spec).find? (·.name = name) =
      if spec.name = name then some spec else specs.find? (·.name = name) := by
  induction specs with
  | nil => by_cases h : spec.name = name <;> simp [override, h]
  | cons first rest ih =>
    by_cases hfirst : first.name = spec.name
    · rw [override, if_pos hfirst]
      by_cases hname : spec.name = name
      · simp [hname]
      · simp [hname, hfirst]
    · rw [override, if_neg hfirst]
      by_cases hname : first.name = name
      · have hspec : spec.name ≠ name := fun h => hfirst (hname.trans h.symm)
        simp [hname, hspec]
      · simp only [List.find?_cons, hname, decide_false]
        exact ih

/-- After several overrides the last declaration of a name counts. -/
theorem find?_foldl_override (own specs : List (FieldSpec σ)) (name : String) :
    (own.foldl override specs).find? (·.name = name) =
      (own.reverse.find? (·.name = name)).or (specs.find? (·.name = name)) := by
  induction own generalizing specs with
  | nil => simp
  | cons spec rest ih =>
    rw [List.foldl_cons, ih, find?_override, List.reverse_cons, List.find?_append]
    by_cases h : spec.name = name <;> simp [h]

/-- The names after an override are those before it and the name of the new declaration. -/
theorem mem_names_override {specs : List (FieldSpec σ)} {spec : FieldSpec σ} {name : String}
    (h : name ∈ (override specs spec).map (·.name)) :
    name = spec.name ∨ name ∈ specs.map (·.name) := by
  induction specs with
  | nil => exact Or.inl (List.mem_singleton.mp h)
  | cons first rest ih =>
    simp only [override] at h
    split at h
    · rcases List.mem_cons.mp h with rfl | hrest
      · exact Or.inl rfl
      · exact Or.inr (List.mem_cons_of_mem _ hrest)
    · rcases List.mem_cons.mp h with rfl | hrest
      · exact Or.inr List.mem_cons_self
      · exact (ih hrest).imp_right (List.mem_cons_of_mem _)

/-- An override repeats no name. -/
theorem nodup_names_override {specs : List (FieldSpec σ)} (spec : FieldSpec σ)
    (h : (specs.map (·.name)).Nodup) : ((override specs spec).map (·.name)).Nodup := by
  induction specs with
  | nil => exact List.nodup_cons.mpr ⟨List.not_mem_nil, List.nodup_nil⟩
  | cons first rest ih =>
    obtain ⟨hfirst, hrest⟩ := List.nodup_cons.mp h
    simp only [override]
    split
    · rename_i heq
      change first.name ∉ rest.map (·.name) at hfirst
      rw [heq] at hfirst
      exact List.nodup_cons.mpr ⟨hfirst, hrest⟩
    · rename_i hne
      refine List.nodup_cons.mpr ⟨fun hmem => ?_, ih hrest⟩
      rcases mem_names_override hmem with heq | hmem
      · exact hne heq
      · exact hfirst hmem

/-- Overrides repeat no name. -/
theorem nodup_names_foldl_override (own : List (FieldSpec σ)) {specs : List (FieldSpec σ)}
    (h : (specs.map (·.name)).Nodup) : ((own.foldl override specs).map (·.name)).Nodup := by
  induction own generalizing specs with
  | nil => exact h
  | cons spec rest ih => exact ih (nodup_names_override spec h)

/-- In a list that repeats no name, the direction of look-up does not matter. -/
theorem find?_reverse {specs : List (FieldSpec σ)} (h : (specs.map (·.name)).Nodup)
    (name : String) :
    specs.reverse.find? (·.name = name) = specs.find? (·.name = name) := by
  induction specs with
  | nil => rfl
  | cons first rest ih =>
    obtain ⟨hfirst, hrest⟩ := List.nodup_cons.mp h
    rw [List.reverse_cons, List.find?_append, ih hrest]
    by_cases hname : first.name = name
    · have hnone : rest.find? (·.name = name) = none := by
        rw [List.find?_eq_none]
        intro spec hspec
        simp only [decide_eq_true_eq]
        intro heq
        exact hfirst (List.mem_map.mpr ⟨spec, hspec, heq.trans hname.symm⟩)
      simp [hname, hnone]
    · simp [hname]

/-- In a list that repeats no name, looking a declaration up by its name finds it. -/
theorem find?_eq_some_iff_mem {specs : List (FieldSpec σ)} (h : (specs.map (·.name)).Nodup)
    {spec : FieldSpec σ} : specs.find? (·.name = spec.name) = some spec ↔ spec ∈ specs := by
  refine ⟨List.mem_of_find?_eq_some, fun hspec => ?_⟩
  obtain ⟨before, after, rfl⟩ := List.append_of_mem hspec
  rw [List.find?_eq_some_iff_append]
  refine ⟨by simp, before, after, rfl, fun other hother => ?_⟩
  rw [List.map_append, List.nodup_append] at h
  simpa using h.2.2 _ (List.mem_map_of_mem hother) _ List.mem_cons_self

end FieldSpec

namespace Schema

/-- A schema and its bases, from the extension towards the base. -/
def lineage : Schema → List Schema
  | ⟨identity, name, none, own⟩ => [⟨identity, name, none, own⟩]
  | ⟨identity, name, some base, own⟩ => ⟨identity, name, some base, own⟩ :: base.lineage

/-- Neither a schema nor one of its bases declares a field twice in its own list. An extension may
still declare a field of its base anew. -/
def Unrepeated (s : Schema) : Prop :=
  ∀ t ∈ s.lineage, (t.own.map (·.name)).Nodup

/-- A schema mentions itself, the schemas that its base mentions, and those that the schemas nested
in its own fields mention. -/
inductive Mentions : Schema → Schema → Prop
  | self (s : Schema) : Mentions s s
  | base {s b t : Schema} (h : s.base = some b) (rest : Mentions b t) : Mentions s t
  | nested {s n t : Schema} {spec : FieldSpec Schema} (h : spec ∈ s.own)
      (nested : spec.kind.nested? = some n) (rest : Mentions n t) : Mentions s t

/-- The own lists of all schemas that a schema mentions have a property. -/
def Throughout (p : List (FieldSpec Schema) → Prop) (s : Schema) : Prop :=
  ∀ t, s.Mentions t → p t.own

/-- No schema that is mentioned declares a field twice in its own list. -/
def RepeatFree : Schema → Prop :=
  Throughout fun own => (own.map (·.name)).Nodup

/-- What a base mentions is mentioned. -/
theorem mentions_of_mem_lineage {u : Schema} :
    {s t : Schema} → t ∈ s.lineage → t.Mentions u → s.Mentions u
  | ⟨_, _, none, _⟩, _, ht, hu => by
    obtain rfl := List.mem_singleton.mp ht
    exact hu
  | ⟨_, _, some _, _⟩, _, ht, hu => by
    rcases List.mem_cons.mp ht with rfl | ht
    · exact hu
    · exact .base rfl (mentions_of_mem_lineage ht hu)

/-- What the own lists of all mentioned schemas have, those of a schema and its bases have. -/
theorem Throughout.of_mem_lineage {p : List (FieldSpec Schema) → Prop} {s t : Schema}
    (h : s.Throughout p) (ht : t ∈ s.lineage) : p t.own :=
  h t (mentions_of_mem_lineage ht (.self t))

/-- Without repetition in all that is mentioned there is none in a schema and its bases. -/
theorem RepeatFree.unrepeated {s : Schema} (h : s.RepeatFree) : s.Unrepeated :=
  fun _ ht => h.of_mem_lineage ht

/-- A declaration that is looked up stands in the own list of the schema or of one of its bases. -/
theorem exists_mem_own_of_field? {name : String} {spec : FieldSpec Schema} :
    {s : Schema} → s.field? name = some spec → ∃ t ∈ s.lineage, spec ∈ t.own
  | ⟨_, _, none, _⟩, h => ⟨_, List.mem_singleton_self _, List.mem_of_find?_eq_some h⟩
  | ⟨_, _, some _, _⟩, h => by
    simp only [field?, Option.or_eq_some_iff] at h
    rcases h with h | ⟨_, h⟩
    · exact ⟨_, List.mem_cons_self, List.mem_of_find?_eq_some h⟩
    · obtain ⟨t, ht, hmem⟩ := exists_mem_own_of_field? h
      exact ⟨t, List.mem_cons_of_mem _ ht, hmem⟩

/-- What holds throughout a schema holds throughout the schema nested in a field. -/
theorem Throughout.nested {p : List (FieldSpec Schema) → Prop} {s n : Schema}
    (h : s.Throughout p) {name : String} {spec : FieldSpec Schema}
    (hspec : s.field? name = some spec) (hnested : spec.kind.nested? = some n) :
    n.Throughout p := by
  obtain ⟨t, ht, hmem⟩ := exists_mem_own_of_field? hspec
  exact fun u hu => h u (mentions_of_mem_lineage ht (.nested hmem hnested hu))

mutual

/-- Check the own lists of a schema and of all that it mentions. -/
def checks (check : List (FieldSpec Schema) → Bool) : Schema → Bool
  | ⟨_, _, none, own⟩ => check own && specsCheck check own
  | ⟨_, _, some base, own⟩ => check own && specsCheck check own && base.checks check

/-- Check the schemas nested in declarations. -/
def specsCheck (check : List (FieldSpec Schema) → Bool) : List (FieldSpec Schema) → Bool
  | [] => true
  | ⟨_, kind, _⟩ :: rest => kindChecks check kind && specsCheck check rest

/-- Check the schema nested in a kind of field. -/
def kindChecks (check : List (FieldSpec Schema) → Bool) : FieldKind Schema → Bool
  | .object schema | .scalarOrObject _ schema | .indexed schema | .objectList schema =>
    schema.checks check
  | .scalar _ | .code | .scalarList _ => true

end

variable {check : List (FieldSpec Schema) → Bool}

/-- A check of declarations checks the schema nested in each. -/
theorem checks_of_nested {specs : List (FieldSpec Schema)} (h : specsCheck check specs = true)
    {spec : FieldSpec Schema} (hspec : spec ∈ specs) {n : Schema}
    (hnested : spec.kind.nested? = some n) : n.checks check = true := by
  induction specs with
  | nil => simp at hspec
  | cons first rest ih =>
    simp only [specsCheck, Bool.and_eq_true] at h
    rcases List.mem_cons.mp hspec with rfl | hrest
    · obtain ⟨name, kind, default⟩ := spec
      cases kind <;> simp_all [FieldKind.nested?, kindChecks]
    · exact ih h.2 hrest

/-- The check looks at the schema's own list, at what its fields nest and at its base. -/
theorem of_checks {s : Schema} (h : s.checks check = true) :
    check s.own = true ∧ specsCheck check s.own = true ∧
      ∀ b, s.base = some b → b.checks check = true := by
  obtain ⟨identity, name, base, own⟩ := s
  cases base with
  | none =>
    simp only [checks, Bool.and_eq_true] at h
    exact ⟨h.1, h.2, fun b hb => by simp at hb⟩
  | some base =>
    simp only [checks, Bool.and_eq_true] at h
    refine ⟨h.1.1, h.1.2, fun b hb => ?_⟩
    obtain rfl := Option.some.inj hb
    exact h.2

/-- What is checked of a schema holds throughout it. -/
theorem throughout_of_checks {p : List (FieldSpec Schema) → Prop} [DecidablePred p] {s : Schema}
    (h : s.checks (fun own => decide (p own)) = true) : s.Throughout p := by
  intro t ht
  induction ht with
  | self s => exact of_decide_eq_true (of_checks h).1
  | base hbase _ ih => exact ih ((of_checks h).2.2 _ hbase)
  | nested hmem hnested _ ih => exact ih (checks_of_nested (of_checks h).2.1 hmem hnested)

/-- The resolved list repeats no name, whatever the own lists repeat. -/
theorem nodup_names_fields : (s : Schema) → (s.fields.map (·.name)).Nodup
  | ⟨_, _, none, own⟩ => FieldSpec.nodup_names_foldl_override own List.nodup_nil
  | ⟨_, _, some b, own⟩ => FieldSpec.nodup_names_foldl_override own (nodup_names_fields b)

/-- A field stands between fields of other names in the resolved list. -/
theorem exists_fields_append {s : Schema} {spec : FieldSpec Schema} (h : spec ∈ s.fields) :
    ∃ before after, s.fields = before ++ spec :: after ∧
      (∀ other ∈ before, other.name ≠ spec.name) ∧ ∀ other ∈ after, other.name ≠ spec.name := by
  obtain ⟨before, after, hfields⟩ := List.append_of_mem h
  have hnames := nodup_names_fields s
  rw [hfields, List.map_append, List.map_cons, List.nodup_append, List.nodup_cons] at hnames
  obtain ⟨_, ⟨hafter, _⟩, hbefore⟩ := hnames
  refine ⟨before, after, hfields, fun other hother => ?_, fun other hother heq => ?_⟩
  · exact hbefore _ (List.mem_map_of_mem hother) _ List.mem_cons_self
  · exact hafter (heq ▸ List.mem_map_of_mem hother)

/-- Without repetition, the resolved list holds for each name what look-up gives. -/
theorem find?_fields (name : String) :
    {s : Schema} → s.Unrepeated → s.fields.find? (·.name = name) = s.field? name
  | ⟨_, _, none, own⟩, h => by
    have hown : (own.map (·.name)).Nodup := h _ (List.mem_singleton_self _)
    rw [fields, FieldSpec.find?_foldl_override, FieldSpec.find?_reverse hown, field?]
    simp
  | ⟨_, _, some b, own⟩, h => by
    have hown : (own.map (·.name)).Nodup := h _ List.mem_cons_self
    have hbase : b.Unrepeated := fun t ht => h t (List.mem_cons_of_mem _ ht)
    rw [fields, FieldSpec.find?_foldl_override, FieldSpec.find?_reverse hown, field?,
      find?_fields name hbase]

/-- Without repetition, look-up gives back each declaration of the resolved list. -/
theorem field?_of_mem_fields {s : Schema} (h : s.Unrepeated) {spec : FieldSpec Schema}
    (hspec : spec ∈ s.fields) : s.field? spec.name = some spec := by
  rw [← find?_fields spec.name h]
  exact (FieldSpec.find?_eq_some_iff_mem (nodup_names_fields s)).mpr hspec

/-- And the resolved list holds what look-up gives. -/
theorem mem_fields_of_field? {s : Schema} (h : s.Unrepeated) {name : String}
    {spec : FieldSpec Schema} (hspec : s.field? name = some spec) : spec ∈ s.fields := by
  rw [← find?_fields name h] at hspec
  exact List.mem_of_find?_eq_some hspec

end Schema

/-- No schema of the catalog mentions a schema that declares a field twice. -/
theorem Catalog.repeatFree_of_mem {s : Schema} (h : s ∈ Catalog.all) : s.RepeatFree := by
  have hall :
      Catalog.all.all (Schema.checks fun own => decide (own.map (·.name)).Nodup) = true := by
    decide +kernel
  exact Schema.throughout_of_checks (List.all_eq_true.mp hall s h)

end ChartScript
