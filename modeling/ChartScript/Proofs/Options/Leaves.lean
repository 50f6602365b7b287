import ChartScript.Proofs.Options.AddressPath

/-!
# Leaves

A leaf is a value with the address where it is to stand. Leaves of which no address is a prefix of
another one can be written in any order, and through the paths of their addresses if no segment has
a dot in it. What is written to a node is written below it when the node is put below a step.
-/

namespace ChartScript

namespace Address

/-- Neither of two addresses is a prefix of the other. -/
def Independent (a b : Address) : Prop :=
  ¬ a.IsPrefix b ∧ ¬ b.IsPrefix a

/-- Independence has no direction. -/
theorem Independent.symm {a b : Address} (h : a.Independent b) : b.Independent a :=
  ⟨h.2, h.1⟩

/-- A prefix starts with the same field. -/
theorem IsPrefix.head_eq {a b : Address} (h : a.IsPrefix b) : a.head = b.head := by
  rcases h with rfl | ⟨step, rest, hsteps, hfield⟩
  · rfl
  · obtain ⟨steps, field⟩ := a
    obtain ⟨others, last⟩ := b
    obtain rfl : others = steps ++ step :: rest := hsteps
    cases steps with
    | nil => exact hfield.symm
    | cons first steps => rfl

/-- Addresses that start with different fields are independent. -/
theorem independent_of_head_ne {a b : Address} (h : a.head ≠ b.head) : a.Independent b :=
  ⟨fun hprefix => h hprefix.head_eq, fun hprefix => h hprefix.head_eq.symm⟩

/-- A prefix of an address below a step goes through the step. -/
theorem IsPrefix.of_under {a b : Address} {step through : Step}
    (h : (a.under step).IsPrefix (b.under through)) : step = through ∧ a.IsPrefix b := by
  rcases h with heq | ⟨next, rest, hsteps, hfield⟩
  · obtain ⟨hsteps, hfield⟩ := Address.mk.inj heq
    obtain ⟨hstep, hbelow⟩ := List.cons.inj hsteps
    exact ⟨hstep, .inl (congrArg₂ Address.mk hbelow hfield)⟩
  · obtain ⟨hstep, hbelow⟩ := List.cons.inj hsteps
    exact ⟨hstep.symm, .inr ⟨next, rest, hbelow, hfield⟩⟩

/-- Addresses below one step are independent there if they are independent. -/
theorem Independent.under {a b : Address} (h : a.Independent b) (step : Step) :
    (a.under step).Independent (b.under step) :=
  ⟨fun hprefix => h.1 hprefix.of_under.2, fun hprefix => h.2 hprefix.of_under.2⟩

/-- Addresses below different steps are independent. -/
theorem independent_under_of_ne {step through : Step} (h : step ≠ through) (a b : Address) :
    (a.under step).Independent (b.under through) :=
  ⟨fun hprefix => h hprefix.of_under.1, fun hprefix => h hprefix.of_under.1.symm⟩

/-- An address below a step has no dot in its segments if neither part has. -/
theorem DotFree.under {a : Address} (h : a.DotFree) {step : Step} (hfield : '.' ∉ step.field.toList) :
    (a.under step).DotFree := by
  rw [DotFree, segments_under, List.forall_mem_append]
  refine ⟨?_, h⟩
  cases step <;> simpa [Step.segments, Step.field, Label.dot_not_mem_text] using hfield

end Address

/-- A value and the address where it stands. -/
structure Leaf where
  address : Address
  value : OptionValue

/-- The same leaf from above a step. -/
def Leaf.under (step : Step) (leaf : Leaf) : Leaf := ⟨leaf.address.under step, leaf.value⟩

namespace Options

/-- Writing leaves one after another leads from one tree to another. -/
inductive WritesAll : Options → List Leaf → Options → Prop
  | nil {options : Options} : WritesAll options [] options
  | cons {options next changed : Options} {leaf : Leaf} {leaves : List Leaf}
    (first : Writes leaf.value leaf.address.field options leaf.address.steps next)
    (rest : WritesAll next leaves changed) : WritesAll options (leaf :: leaves) changed

variable {options next changed child : Options} {leaves others : List Leaf}

/-- More leaves are written after the first ones. -/
theorem WritesAll.append (h : options.WritesAll leaves next) (h' : next.WritesAll others changed) :
    options.WritesAll (leaves ++ others) changed := by
  induction h with
  | nil => exact h'
  | cons first _ ih => exact .cons first (ih h')

section Under

variable {step : Step} {spec : FieldSpec Schema} {declared : Schema}

/-- What is written to a node that has been put below a step is written below the step. -/
theorem WritesAll.place (h : child.WritesAll leaves next)
    (hspec : options.schema.field? step.field = some spec)
    (hopens : step.opens? spec.kind = some declared) :
    (options.place child step).WritesAll (leaves.map (.under step)) (options.place next step) := by
  induction h with
  | nil => exact .nil
  | @cons child middle last leaf leaves first _ ih =>
    have hspec' : (options.place child step).schema.field? step.field = some spec := by
      rw [schema_place, hspec]
    rw [← nodeAt_place_self hspec hopens child] at first
    have hfirst := Writes.step hspec' hopens first
    rw [place_place_self hspec hopens] at hfirst
    exact .cons hfirst ih

/-- What is written to the node that a step opens is written below the step, if it is anything. -/
theorem WritesAll.under (h : (options.nodeAt declared step).WritesAll leaves next)
    (hne : leaves ≠ []) (hspec : options.schema.field? step.field = some spec)
    (hopens : step.opens? spec.kind = some declared) :
    options.WritesAll (leaves.map (.under step)) (options.place next step) := by
  cases h with
  | nil => exact absurd rfl hne
  | cons first rest => exact .cons (.step hspec hopens first) (rest.place hspec hopens)

end Under

/-- Leaves with independent addresses are written in any order. -/
theorem WritesAll.perm (hperm : leaves.Perm others) (h : options.WritesAll leaves changed)
    (hindependent : leaves.Pairwise fun a b => a.address.Independent b.address) :
    options.WritesAll others changed := by
  induction hperm generalizing options with
  | nil => exact h
  | cons leaf _ ih =>
    cases h with
    | cons first rest => exact .cons first (ih rest (List.pairwise_cons.mp hindependent).2)
  | swap a b rest =>
    cases h with
    | cons first hnext =>
      cases hnext with
      | cons second hrest =>
        obtain ⟨hfwd, hbwd⟩ := (List.pairwise_cons.mp hindependent).1 _ List.mem_cons_self
        obtain ⟨middle, hmiddle, hlast⟩ := first.comm second hfwd hbwd
        exact .cons hmiddle (.cons hlast hrest)
  | trans hfirst _ ih ih' =>
    refine ih' (ih h hindependent) ?_
    exact (hfirst.pairwise_iff fun hab => hab.symm).mp hindependent

/-- Assign values through paths one after another, up to the first assignment that is refused. -/
def assignEach (options : Options) : List (String × OptionValue) → Except Error Options
  | [] => .ok options
  | (path, value) :: rest =>
    match options.assign path value with
    | (.ok (), changed) => changed.assignEach rest
    | (.error e, _) => .error e

/-- Leaves whose addresses have no dots in their segments are assigned through their paths. -/
theorem WritesAll.assignEach_eq_ok (h : options.WritesAll leaves changed)
    (hdots : ∀ leaf ∈ leaves, leaf.address.DotFree) :
    options.assignEach (leaves.map fun leaf => (leaf.address.path, leaf.value)) = .ok changed := by
  induction h with
  | nil => rfl
  | cons first _ ih =>
    obtain ⟨hfirst, hrest⟩ := List.forall_mem_cons.mp hdots
    rw [List.map_cons, assignEach, first.assign_path hfirst]
    exact ih hrest

/-- Writing leaves leads from one tree to another; their addresses are independent and have no dots
in their segments. -/
structure Fills (options : Options) (leaves : List Leaf) (changed : Options) : Prop where
  writes : options.WritesAll leaves changed
  independent : leaves.Pairwise fun a b => a.address.Independent b.address
  dotFree : ∀ leaf ∈ leaves, leaf.address.DotFree

namespace Fills

/-- No leaves are written. -/
theorem nil : options.Fills [] options :=
  ⟨.nil, .nil, fun _ h => absurd h List.not_mem_nil⟩

/-- More leaves are written after the first ones, independently of them. -/
theorem append (h : options.Fills leaves next) (h' : next.Fills others changed)
    (hcross : ∀ a ∈ leaves, ∀ b ∈ others, a.address.Independent b.address) :
    options.Fills (leaves ++ others) changed where
  writes := h.writes.append h'.writes
  independent := List.pairwise_append.mpr ⟨h.independent, h'.independent, hcross⟩
  dotFree := List.forall_mem_append.mpr ⟨h.dotFree, h'.dotFree⟩

/-- Leaves of the node that a step opens are leaves below the step. -/
theorem under {step : Step} {spec : FieldSpec Schema} {declared : Schema}
    (h : (options.nodeAt declared step).Fills leaves next) (hne : leaves ≠ [])
    (hspec : options.schema.field? step.field = some spec)
    (hopens : step.opens? spec.kind = some declared) (hfield : '.' ∉ step.field.toList) :
    options.Fills (leaves.map (.under step)) (options.place next step) where
  writes := h.writes.under hne hspec hopens
  independent := List.Pairwise.map _ (fun _ _ hab => hab.under step) h.independent
  dotFree := by
    intro leaf hleaf
    obtain ⟨below, hbelow, rfl⟩ := List.mem_map.mp hleaf
    exact (h.dotFree below hbelow).under hfield

/-- The leaves can be assigned through their paths in any order. -/
theorem assignEach_eq_ok (h : options.Fills leaves changed) (hperm : others.Perm leaves) :
    options.assignEach (others.map fun leaf => (leaf.address.path, leaf.value)) = .ok changed :=
  (h.writes.perm hperm.symm h.independent).assignEach_eq_ok fun leaf hleaf =>
    h.dotFree leaf (hperm.mem_iff.mp hleaf)

end Fills

end Options

end ChartScript
