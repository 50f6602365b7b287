import ChartScript.Proofs.Options.Address
import ChartScript.Proofs.Outcome

/-!
# The address of a path

The segments of a path spell steps: the name of a field that holds an object is a step on its own,
the name of a field that holds entries or items is one together with the label after it. Which of
the two a name is depends on the nodes that the steps before it lead to, so a walk along segments
takes the tree along. A walk stops anywhere; the address of a path is where only the name of a
field is left. An assignment turns at each node to the step that the walk takes there.
-/

namespace ChartScript

namespace Step

/-- The segments that spell a step. -/
def Spells : Step → List String → Prop
  | .object field, segments => segments = [field]
  | .entry field label, segments =>
    ∃ segment, Label.ofText? segment = some label ∧ segments = [field, segment]
  | .item field position, segments =>
    ∃ segment label, Label.ofText? segment = some label ∧ label.toNat = position ∧
      segments = [field, segment]

/-- A step is spelled by one segment or two. -/
theorem Spells.ne_nil {step : Step} {segments : List String} (h : step.Spells segments) :
    segments ≠ [] := by
  cases step with
  | object field =>
    rw [show segments = [field] from h]
    exact List.cons_ne_nil _ _
  | entry field label =>
    obtain ⟨segment, _, rfl⟩ := h
    exact List.cons_ne_nil _ _
  | item field position =>
    obtain ⟨segment, label, _, _, rfl⟩ := h
    exact List.cons_ne_nil _ _

end Step

namespace Schema

variable {path : String} {s : Schema} {segments rest taken : List String} {step : Step}

/-- What is written is the field that is the only segment. -/
theorem turn_eq_write {field : String} (h : s.turn path segments = .write field) :
    segments = [field] := by
  have hlabel (name segment : String) (tail : List String) (through : UInt32 → Step) :
      Turn.throughLabel path name segment tail through ≠ .write field := by
    unfold Turn.throughLabel
    split
    · simp
    · split <;> simp
  rcases segments with _ | ⟨name, _ | ⟨segment, tail⟩⟩
  · cases h
  · cases h
    rfl
  · simp only [turn] at h
    split at h
    · cases h
    · split at h
      · cases h
      · cases h
      · exact absurd h (hlabel name segment tail _)
      · exact absurd h (hlabel name segment tail _)
      · cases h

/-- The step that a label leads through is spelled by the field and the label. -/
theorem exists_of_throughLabel {field segment : String} {tail : List String}
    {through : UInt32 → Step}
    (h : Turn.throughLabel path field segment tail through = .go step rest) :
    rest ≠ [] ∧ tail = rest ∧
      ∃ label, Label.ofText? segment = some label ∧ step = through label := by
  unfold Turn.throughLabel at h
  split at h
  · cases h
  · split at h
    · cases h
    · rename_i label hlabel
      obtain ⟨rfl, rfl⟩ := Turn.go.inj h
      exact ⟨List.cons_ne_nil _ _, rfl, label, hlabel, rfl⟩

/-- The step that an assignment turns to is spelled by the first segments, and there are more. -/
theorem spells_of_turn (h : s.turn path segments = .go step rest) :
    rest ≠ [] ∧ ∃ taken, segments = taken ++ rest ∧ step.Spells taken := by
  rcases segments with _ | ⟨field, _ | ⟨segment, tail⟩⟩
  · cases h
  · cases h
  · simp only [turn] at h
    split at h
    · cases h
    · split at h
      · obtain ⟨rfl, rfl⟩ := Turn.go.inj h
        exact ⟨List.cons_ne_nil _ _, [field], rfl, rfl⟩
      · obtain ⟨rfl, rfl⟩ := Turn.go.inj h
        exact ⟨List.cons_ne_nil _ _, [field], rfl, rfl⟩
      · obtain ⟨hne, rfl, label, hlabel, rfl⟩ := exists_of_throughLabel h
        exact ⟨hne, [field, segment], rfl, segment, hlabel, rfl⟩
      · obtain ⟨hne, rfl, label, hlabel, rfl⟩ := exists_of_throughLabel h
        exact ⟨hne, [field, segment], rfl, segment, label, hlabel, rfl, rfl⟩
      · cases h

/-- An assignment turns to the step that the segments spell, if the step can be opened and more
segments follow. -/
theorem turn_of_spells {spec : FieldSpec Schema} {declared : Schema}
    (hspec : s.field? step.field = some spec) (hopens : step.opens? spec.kind = some declared)
    (hspells : step.Spells taken) (hrest : rest ≠ []) :
    s.turn path (taken ++ rest) = .go step rest := by
  obtain ⟨next, others, rfl⟩ := List.exists_cons_of_ne_nil hrest
  obtain ⟨name, kind, default⟩ := spec
  cases step with
  | object field =>
    obtain rfl : taken = [field] := hspells
    change s.field? field = some _ at hspec
    rcases Step.opens?_object.mp hopens with rfl | ⟨scalar, rfl⟩ <;>
      simp only [List.cons_append, List.nil_append, turn, hspec]
  | entry field label =>
    obtain ⟨segment, hlabel, rfl⟩ := hspells
    change s.field? field = some _ at hspec
    obtain rfl := Step.opens?_entry.mp hopens
    simp only [List.cons_append, List.nil_append, turn, hspec, Turn.throughLabel, hlabel]
  | item field position =>
    obtain ⟨segment, label, hlabel, rfl, rfl⟩ := hspells
    change s.field? field = some _ at hspec
    obtain ⟨rfl, _⟩ := Step.opens?_item.mp hopens
    simp only [List.cons_append, List.nil_append, turn, hspec, Turn.throughLabel, hlabel]

end Schema

namespace Options

/-- The first of the segments spell steps that can be opened one after another, and some segments
are left. -/
inductive Walk : Options → List String → List Step → List String → Prop
  /-- No step is taken. -/
  | here {options : Options} {segments : List String} : Walk options segments [] segments
  /-- A step through a field that nests nodes, and on from the node it leads to. -/
  | step {options : Options} {step : Step} {spec : FieldSpec Schema} {declared : Schema}
    {taken rest left : List String} {steps : List Step}
    (hspec : options.schema.field? step.field = some spec)
    (hopens : step.opens? spec.kind = some declared) (hspells : step.Spells taken)
    (hwalk : Walk (options.nodeAt declared step) rest steps left) :
    Walk options (taken ++ rest) (step :: steps) left

/-- The segments of a path lead to an address: they spell its steps, and then its field is left. -/
def LeadsTo (options : Options) (segments : List String) (a : Address) : Prop :=
  options.Walk segments a.steps [a.field]

variable {options : Options} {segments rest left : List String} {step : Step} {steps : List Step}

/-- Where no step is taken all segments are left. -/
theorem Walk.left_eq (h : options.Walk segments [] left) : left = segments := by
  cases h with
  | here => rfl

/-- Where segments are left there were some. -/
theorem Walk.segments_ne_nil (h : options.Walk segments steps left) (hleft : left ≠ []) :
    segments ≠ [] := by
  cases h with
  | here => exact hleft
  | step _ _ hspells _ => exact List.append_ne_nil_of_left_ne_nil hspells.ne_nil _

/-- An assignment turns to the first step of a walk after which segments are left, and the walk
goes on below. -/
theorem Walk.turn (h : options.Walk segments (step :: steps) left) (hleft : left ≠ [])
    (path : String) :
    ∃ spec declared rest, options.schema.field? step.field = some spec ∧
      step.opens? spec.kind = some declared ∧
      options.schema.turn path segments = .go step rest ∧
      (options.nodeAt declared step).Walk rest steps left := by
  cases h with
  | step hspec hopens hspells hwalk =>
    exact ⟨_, _, _, hspec, hopens,
      Schema.turn_of_spells hspec hopens hspells (hwalk.segments_ne_nil hleft), hwalk⟩

/-- Every step of a walk can be opened. -/
theorem reach_eq_ok {spec : FieldSpec Schema} {declared : Schema}
    (hspec : options.schema.field? step.field = some spec)
    (hopens : step.opens? spec.kind = some declared) :
    options.reach step = .ok (options.nodeAt declared step) := by
  have hname : spec.name = step.field := Schema.name_of_field? hspec
  obtain ⟨name, kind, default⟩ := spec
  obtain rfl : name = step.field := hname
  replace hspec := spec_eq_ok.mpr hspec
  cases step with
  | object field =>
    rcases Step.opens?_object.mp hopens with rfl | ⟨scalar, rfl⟩
    · exact bind_eq_ok.mpr ⟨_, hspec, rfl⟩
    · exact bind_eq_ok.mpr ⟨_, hspec, rfl⟩
  | entry field label =>
    obtain rfl := Step.opens?_entry.mp hopens
    exact bind_eq_ok.mpr ⟨_, hspec, rfl⟩
  | item field position =>
    obtain ⟨rfl, hlimit⟩ := Step.opens?_item.mp hopens
    refine bind_eq_ok.mpr ⟨_, hspec, ?_⟩
    simp only [if_neg (Nat.not_le_of_lt hlimit), nodeAt, Step.field]
    rcases (options.itemsAt field)[position]? with _ | item
    · rfl
    · cases item <;> rfl

/-- An assignment that can open the step it turns to takes the first step of a walk. -/
theorem Walk.of_turn {path : String} {child : Options}
    (hturn : options.schema.turn path segments = .go step rest)
    (hreach : options.reach step = .ok child) (hwalk : child.Walk rest steps left) :
    options.Walk segments (step :: steps) left := by
  obtain ⟨_, taken, rfl, hspells⟩ := Schema.spells_of_turn hturn
  obtain ⟨spec, declared, hspec, hopens, rfl⟩ := exists_opens_of_reach hreach
  exact .step hspec hopens hspells hwalk

/-- A walk after which segments are left takes the step that an assignment turns to. -/
theorem Walk.along {path : String} {through : Step} {spec : FieldSpec Schema} {declared : Schema}
    (hturn : options.schema.turn path segments = .go step rest)
    (hspec : options.schema.field? step.field = some spec)
    (hopens : step.opens? spec.kind = some declared)
    (hwalk : options.Walk segments (through :: steps) left) (hleft : left ≠ []) :
    through = step ∧ (options.nodeAt declared step).Walk rest steps left := by
  obtain ⟨spec', declared', rest', hspec', hopens', hturn', hbelow⟩ := hwalk.turn hleft path
  obtain ⟨rfl, rfl⟩ := Turn.go.inj (hturn.symm.trans hturn')
  obtain rfl := Option.some.inj (hspec.symm.trans hspec')
  obtain rfl := Option.some.inj (hopens.symm.trans hopens')
  exact ⟨rfl, hbelow⟩

/-- Walks along the same segments after which one segment is left are the same. -/
theorem Walk.unique {others : List Step} {field field' : String}
    (h : options.Walk segments steps [field]) (h' : options.Walk segments others [field']) :
    steps = others ∧ field = field' := by
  induction steps generalizing options segments others with
  | nil =>
    obtain rfl := h.left_eq
    cases others with
    | nil =>
      obtain ⟨rfl, _⟩ := List.cons.inj h'.left_eq
      exact ⟨rfl, rfl⟩
    | cons other others =>
      obtain ⟨_, _, _, _, _, hturn, _⟩ := h'.turn (List.cons_ne_nil _ _) ""
      cases hturn
  | cons step steps ih =>
    obtain ⟨spec, declared, rest, hspec, hopens, hturn, hbelow⟩ :=
      h.turn (List.cons_ne_nil _ _) ""
    cases others with
    | nil =>
      obtain rfl := h'.left_eq
      cases hturn
    | cons other others =>
      obtain ⟨rfl, hbelow'⟩ := h'.along hturn hspec hopens (List.cons_ne_nil _ _)
      obtain ⟨rfl, rfl⟩ := ih hbelow hbelow'
      exact ⟨rfl, rfl⟩

/-- A path has one address. -/
theorem LeadsTo.unique {a b : Address} (ha : options.LeadsTo segments a)
    (hb : options.LeadsTo segments b) : a = b := by
  obtain ⟨hsteps, hfield⟩ := Walk.unique ha hb
  obtain ⟨steps, field⟩ := a
  obtain rfl : steps = b.steps := hsteps
  obtain rfl : field = b.field := hfield
  rfl

end Options

end ChartScript
