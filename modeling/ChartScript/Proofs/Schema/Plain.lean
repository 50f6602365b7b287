import ChartScript.Chart.Type
import ChartScript.Proofs.Schema.Resolution
import ChartScript.Text.Identifier

/-!
# Plain schemas

What a schema has to be for its trees to be written and read back, and for no code to get into them
unmarked. The schemas of the catalog are such, and so are those of all chart types, which stand in
the catalog.
-/

namespace ChartScript

/-- Whether a field of a kind holds nothing but code. -/
def FieldKind.isCode {σ : Type} : FieldKind σ → Bool
  | .code => true
  | _ => false

/-- No schema that is mentioned declares a field twice in its own list, and their fields are named
by identifiers and hold more than code. -/
def Schema.Plain : Schema → Prop :=
  Throughout fun own => (own.map (·.name)).Nodup ∧
    ∀ spec ∈ own, Text.isIdentifier spec.name.toList = true ∧ spec.kind.isCode = false

/-- A field of a plain schema is not for code. -/
theorem Schema.Plain.isCode_eq {s : Schema} (h : s.Plain) {name : String} {spec : FieldSpec Schema}
    (hspec : s.field? name = some spec) : spec.kind.isCode = false := by
  obtain ⟨t, ht, hmem⟩ := exists_mem_own_of_field? hspec
  exact ((h.of_mem_lineage ht).2 spec hmem).2

/-- The schemas of the catalog are plain. -/
theorem Catalog.plain_of_mem {s : Schema} (h : s ∈ Catalog.all) : s.Plain := by
  have hall : Catalog.all.all (Schema.checks fun own => decide ((own.map (·.name)).Nodup ∧
      ∀ spec ∈ own, Text.isIdentifier spec.name.toList = true ∧ spec.kind.isCode = false)) =
        true := by
    decide +kernel
  exact Schema.throughout_of_checks (List.all_eq_true.mp hall s h)

namespace ChartType

/-- The schema of every type stands in the catalog. -/
theorem schema_mem_catalog (t : ChartType) : t.schema ∈ Catalog.all := by
  cases t <;> simp [schema, Catalog.all]

/-- So does the schema of every comparison. -/
theorem comparisonSchema_mem_catalog {t : ChartType} {s : Schema}
    (h : t.comparisonSchema? = some s) : s ∈ Catalog.all := by
  cases t <;> simp only [comparisonSchema?, Option.some.injEq, reduceCtorEq] at h <;>
    subst h <;> simp [Catalog.all]

end ChartType

end ChartScript
