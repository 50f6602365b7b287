import ChartScript.Proofs.Options.Assignment
import ChartScript.Proofs.Options.Content
import ChartScript.Proofs.Options.EntryOrder

/-!
# Independent assignments

A successful assignment by path is a checked write at the address of the path: the nodes on the way
are opened and put back, and what is opened depends on the tree along these steps only. Two writes
at addresses of which neither is a prefix of the other commute. Where they part, they go through
different fields, labels or positions, and putting nodes back there commutes, the padding of a list
included; above that place the steps are the same, and it suffices that the nodes below agree.
-/

namespace ChartScript

namespace Step

/-- Two steps go through one field at different labels or positions. -/
inductive Beside : Step → Step → Prop
  | entry (field : String) {label other : UInt32} (h : label ≠ other) :
    Beside (.entry field label) (.entry field other)
  | item (field : String) {position other : Nat} (h : position ≠ other) :
    Beside (.item field position) (.item field other)

/-- Different steps that open one field lead to nodes of one schema, one beside the other. -/
theorem beside_of_opens? {step through : Step} {kind : FieldKind Schema} {declared nested : Schema}
    (hopens : step.opens? kind = some declared) (hopens' : through.opens? kind = some nested)
    (hfield : through.field = step.field) (hne : through ≠ step) :
    nested = declared ∧ step.Beside through := by
  have hsame : some nested = some declared :=
    (nested?_of_opens? hopens').symm.trans (nested?_of_opens? hopens)
  refine ⟨Option.some.inj hsame, ?_⟩
  cases step with
  | object name =>
    cases through with
    | object other => exact absurd (congrArg Step.object hfield) hne
    | entry other label => cases kind <;> simp_all [opens?]
    | item other position => cases kind <;> simp_all [opens?]
  | entry name label =>
    cases through with
    | entry other label' =>
      obtain rfl : other = name := hfield
      exact .entry other fun h => hne (congrArg (Step.entry other) h.symm)
    | object other => cases kind <;> simp_all [opens?]
    | item other position => cases kind <;> simp_all [opens?]
  | item name position =>
    cases through with
    | item other position' =>
      obtain rfl : other = name := hfield
      exact .item other fun h => hne (congrArg (Step.item other) h.symm)
    | object other => cases kind <;> simp_all [opens?]
    | entry other label => cases kind <;> simp_all [opens?]

end Step

namespace Options

/-- The changed tree is what becomes of the options when the value is written to the field at the
end of the steps: the value fits the field, and the nodes on the way are opened and put back. -/
inductive Writes (value : OptionValue) (field : String) : Options → List Step → Options → Prop
  /-- The field of the node itself. -/
  | here {options : Options} {spec : FieldSpec Schema}
    (hspec : options.schema.field? field = some spec) (hfits : value.fits spec.kind = true) :
    Writes value field options [] (options.store field value)
  /-- Below a step through a field that nests nodes. -/
  | step {options changed : Options} {step : Step} {spec : FieldSpec Schema} {declared : Schema}
    {steps : List Step} (hspec : options.schema.field? step.field = some spec)
    (hopens : step.opens? spec.kind = some declared)
    (hbelow : Writes value field (options.nodeAt declared step) steps changed) :
    Writes value field options (step :: steps) (options.place changed step)

variable {options other changed : Options} {value : OptionValue} {field : String}
  {segments : List String} {steps : List Step}

/-- A write of a field succeeds exactly when the field is declared and takes the value. -/
theorem write_eq_ok :
    options.write field value = (.ok (), changed) ↔ options.set field value = .ok changed := by
  unfold write
  cases options.set field value <;> simp

/-- Along segments that lead to an address, an assignment succeeds exactly when the value can be
written there. -/
theorem Walk.assignAt_eq_ok {path : String} {left : List String}
    (h : options.Walk segments steps left) (hleft : left = [field]) :
    options.assignAt path value segments = (.ok (), changed) ↔
      Writes value field options steps changed := by
  induction h generalizing changed with
  | here =>
    subst hleft
    rw [assignAt_eq]
    refine (write_eq_ok.trans set_eq_ok).trans ⟨?_, fun h => ?_⟩
    · rintro ⟨spec, hspec, hfits, rfl⟩
      exact .here hspec hfits
    · cases h with
      | here hspec hfits => exact ⟨_, hspec, hfits, rfl⟩
  | @step options step spec declared taken rest left steps hspec hopens hspells hwalk ih =>
    have hrest : rest ≠ [] := hwalk.segments_ne_nil (hleft ▸ List.cons_ne_nil _ _)
    rw [assignAt_eq, Schema.turn_of_spells hspec hopens hspells hrest]
    simp only [within_eq (reach_eq_ok hspec hopens), Prod.mk.injEq]
    constructor
    · rintro ⟨hok, rfl⟩
      exact .step hspec hopens ((ih hleft).mp (Prod.ext hok rfl))
    · intro h
      cases h with
      | step hspec' hopens' hbelow =>
        obtain rfl := Option.some.inj (hspec.symm.trans hspec')
        obtain rfl := Option.some.inj (hopens.symm.trans hopens')
        rw [(ih hleft).mpr hbelow]
        exact ⟨rfl, rfl⟩

/-- An assignment along segments that lead to an address writes there, if it succeeds. -/
theorem LeadsTo.assignAt_eq_ok {path : String} {a : Address} (h : options.LeadsTo segments a) :
    options.assignAt path value segments = (.ok (), changed) ↔
      Writes value a.field options a.steps changed :=
  Walk.assignAt_eq_ok h rfl

section Commuting

variable {step through : Step} {spec : FieldSpec Schema} {declared nested : Schema}

/-- Writes of different fields commute. -/
theorem store_comm {name : String} (h : field ≠ name) (options : Options) (a b : OptionValue) :
    (options.store field a).store name b = (options.store name b).store field a :=
  congrArg (Options.mk options.schema) (Keyed.insert_comm h a b options.entries)

/-- Of two writes of one field the second counts. -/
theorem store_store_self (options : Options) (field : String) (a b : OptionValue) :
    (options.store field a).store field b = options.store field b :=
  congrArg (Options.mk options.schema) (Keyed.insert_insert_self field a b options.entries)

/-- The node that a step leads to depends on the value of the field of the step. -/
theorem nodeAt_congr (h : other.get? step.field = options.get? step.field) (declared : Schema) :
    other.nodeAt declared step = options.nodeAt declared step := by
  rw [nodeAt_eq, nodeAt_eq, below?_congr h]

/-- So does what the field holds once a node has been put back. -/
theorem placed_congr (h : other.get? step.field = options.get? step.field) (declared : Schema)
    (child : Options) : other.placed declared child step = options.placed declared child step := by
  cases step with
  | object field => rfl
  | entry field label =>
    change other.get? field = options.get? field at h
    rw [placed, placed, entriesAt, entriesAt, h]
  | item field position =>
    change other.get? field = options.get? field at h
    rw [placed, placed, itemsAt, itemsAt, h]

/-- Writing a field and putting a node back through another one commute. -/
theorem place_store_comm (hspec : options.schema.field? step.field = some spec)
    (hopens : step.opens? spec.kind = some declared) (hne : step.field ≠ field)
    (value : OptionValue) (child : Options) :
    (options.store field value).place child step = (options.place child step).store field value := by
  have hstored : (options.store field value).schema.field? step.field = some spec := hspec
  rw [place_eq_store child hspec hopens, place_eq_store child hstored hopens,
    placed_congr (get?_store_of_ne hne options value), store_comm hne.symm]

/-- What is put where a step leads is what the step leads to. -/
theorem nodeAt_place_self (hspec : options.schema.field? step.field = some spec)
    (hopens : step.opens? spec.kind = some declared) (child : Options) :
    (options.place child step).nodeAt declared step = child := by
  rw [nodeAt_eq, below?_place_self hspec hopens]
  rfl

/-- A list that is long enough is not padded. -/
theorem padTo_of_lt {position : Nat} {items : List OptionValue} (h : position < items.length)
    (declared : Schema) : padTo declared position items = items := by
  rw [padTo, Nat.sub_eq_zero_of_le h, List.replicate_zero, List.append_nil]

/-- The order in which a list is padded to two positions does not matter. -/
theorem padTo_comm (declared : Schema) (first second : Nat) (items : List OptionValue) :
    padTo declared second (padTo declared first items) =
      padTo declared first (padTo declared second items) := by
  simp only [padTo, List.append_assoc, List.replicate_append_replicate, List.length_append,
    List.length_replicate]
  congr 2
  omega

/-- Padding leaves an item that is set alone. -/
theorem padTo_set {position : Nat} {items : List OptionValue} (h : position < items.length)
    (declared : Schema) (second : Nat) (item : OptionValue) :
    padTo declared second (items.set position item) =
      (padTo declared second items).set position item := by
  rw [padTo, padTo, List.length_set, List.set_append_left _ _ h]

/-- The entries of a field below which a node has been put. -/
theorem entriesAt_place {label : UInt32}
    (hspec : options.schema.field? (Step.entry field label).field = some spec)
    (hopens : (Step.entry field label).opens? spec.kind = some declared) (child : Options) :
    (options.place child (.entry field label)).entriesAt field =
      Keyed.insert label child (options.entriesAt field) := by
  have hget : (options.place child (.entry field label)).get? field = _ :=
    get?_place_self hspec hopens child
  rw [entriesAt, hget]
  rfl

/-- The items of a field below which a node has been put. -/
theorem itemsAt_place {position : Nat}
    (hspec : options.schema.field? (Step.item field position).field = some spec)
    (hopens : (Step.item field position).opens? spec.kind = some declared) (child : Options) :
    (options.place child (.item field position)).itemsAt field =
      (padTo declared position (options.itemsAt field)).set position (.object child) := by
  have hget : (options.place child (.item field position)).get? field = _ :=
    get?_place_self hspec hopens child
  rw [itemsAt, hget]
  rfl

/-- A list that has been padded to a position has it. -/
theorem lt_length_padTo (declared : Schema) (position : Nat) (items : List OptionValue) :
    position < (padTo declared position items).length := by
  rw [length_padTo]
  omega

/-- A node put back along a step takes the place of one put back before. -/
theorem placed_place_self (hspec : options.schema.field? step.field = some spec)
    (hopens : step.opens? spec.kind = some declared) (first second : Options) :
    (options.place first step).placed declared second step =
      options.placed declared second step := by
  cases step with
  | object name => rfl
  | entry name label =>
    rw [placed, entriesAt_place hspec hopens, Keyed.insert_insert_self, placed]
  | item name position =>
    have hlength := lt_length_padTo declared position (options.itemsAt name)
    rw [placed, itemsAt_place hspec hopens, padTo_set hlength, padTo_of_lt hlength, List.set_set,
      placed]

/-- Of two nodes put back along one step the second counts. -/
theorem place_place_self (hspec : options.schema.field? step.field = some spec)
    (hopens : step.opens? spec.kind = some declared) (first second : Options) :
    (options.place first step).place second step = options.place second step := by
  have hspec' : (options.place first step).schema.field? step.field = some spec := by
    rw [schema_place, hspec]
  rw [place_eq_store second hspec' hopens, placed_place_self hspec hopens,
    place_eq_store first hspec hopens, store_store_self, place_eq_store second hspec hopens]

/-- Along another step the same node is opened after a node has been put back. -/
theorem nodeAt_place_of_ne (hspec : options.schema.field? step.field = some spec)
    (hopens : step.opens? spec.kind = some declared) {spec' : FieldSpec Schema}
    (hspec' : options.schema.field? through.field = some spec')
    (hopens' : through.opens? spec'.kind = some nested) (hne : through ≠ step) (child : Options) :
    (options.place child step).nodeAt nested through = options.nodeAt nested through := by
  by_cases hfield : through.field = step.field
  · obtain rfl : spec' = spec := Option.some.inj (hspec'.symm.trans (hfield ▸ hspec))
    obtain ⟨rfl, hbeside⟩ := Step.beside_of_opens? hopens hopens' hfield hne
    cases hbeside with
    | entry name hlabel =>
      rw [nodeAt, nodeAt, entriesAt_place hspec hopens, Keyed.find?_insert_of_ne hlabel.symm]
    | @item name position other hposition =>
      rw [nodeAt, nodeAt, itemsAt_place hspec hopens, List.getElem?_set_ne hposition]
      rcases getElem?_padTo nested position (options.itemsAt name) other with hkept | ⟨hnone, hpad⟩
      · rw [hkept]
      · rw [hnone, hpad]
  · exact nodeAt_congr (get?_place_of_ne hspec hopens child hfield) nested

/-- Nodes put back along two steps through one field write the field once. -/
theorem place_place_of_field_eq (hspec : options.schema.field? step.field = some spec)
    (hopens : step.opens? spec.kind = some declared)
    (hopens' : through.opens? spec.kind = some nested) (hfield : through.field = step.field)
    (first second : Options) :
    (options.place first step).place second through =
      options.store step.field ((options.place first step).placed nested second through) := by
  have hspec' : (options.place first step).schema.field? through.field = some spec := by
    rw [schema_place, hfield, hspec]
  rw [place_eq_store second hspec' hopens', hfield]
  conv_lhs => rw [place_eq_store first hspec hopens]
  rw [place_eq_store first hspec hopens, store_store_self]

/-- Nodes put back beside each other are both there, whichever came first. -/
theorem placed_place_comm (hspec : options.schema.field? step.field = some spec)
    (hopens : step.opens? spec.kind = some declared)
    (hspec' : options.schema.field? through.field = some spec)
    (hopens' : through.opens? spec.kind = some declared) (h : step.Beside through)
    (first second : Options) :
    (options.place first step).placed declared second through =
      (options.place second through).placed declared first step := by
  cases h with
  | entry name hlabel =>
    rw [placed, placed, entriesAt_place hspec hopens, entriesAt_place hspec' hopens',
      Keyed.insert_comm hlabel]
  | @item name position other hposition =>
    have hlength := lt_length_padTo declared position (options.itemsAt name)
    have hlength' := lt_length_padTo declared other (options.itemsAt name)
    rw [placed, placed, itemsAt_place hspec hopens, itemsAt_place hspec' hopens', padTo_set hlength,
      padTo_set hlength', padTo_comm, List.set_comm _ _ hposition]

/-- Nodes put back along different steps are both there, whichever came first. -/
theorem place_comm (hspec : options.schema.field? step.field = some spec)
    (hopens : step.opens? spec.kind = some declared) {spec' : FieldSpec Schema}
    (hspec' : options.schema.field? through.field = some spec')
    (hopens' : through.opens? spec'.kind = some nested) (hne : through ≠ step)
    (first second : Options) :
    (options.place first step).place second through =
      (options.place second through).place first step := by
  by_cases hfield : through.field = step.field
  · obtain rfl : spec' = spec := Option.some.inj (hspec'.symm.trans (hfield ▸ hspec))
    obtain ⟨rfl, hbeside⟩ := Step.beside_of_opens? hopens hopens' hfield hne
    rw [place_place_of_field_eq hspec hopens hopens' hfield,
      place_place_of_field_eq hspec' hopens' hopens hfield.symm,
      placed_place_comm hspec hopens hspec' hopens' hbeside, hfield]
  · have hspec'' : (options.place second through).schema.field? step.field = some spec := by
      rw [schema_place, hspec]
    rw [place_eq_store first hspec hopens, place_store_comm hspec' hopens' hfield,
      place_eq_store first hspec'' hopens,
      placed_congr (get?_place_of_ne hspec' hopens' second (Ne.symm hfield))]

end Commuting

/-- Of two writes at addresses of which neither is a prefix of the other, the second can be made
first, and then the first leads to the same tree. -/
theorem Writes.comm {first second : Options} {next : OptionValue} {last : String}
    {others : List Step} (hfirst : Writes value field options steps first)
    (hsecond : Writes next last first others second)
    (hfwd : ¬ (⟨steps, field⟩ : Address).IsPrefix ⟨others, last⟩)
    (hbwd : ¬ (⟨others, last⟩ : Address).IsPrefix ⟨steps, field⟩) :
    ∃ middle, Writes next last options others middle ∧
      Writes value field middle steps second := by
  induction hfirst generalizing second others with
  | @here options spec hspec hfits =>
    cases hsecond with
    | here hspec' hfits' =>
      have hne : field ≠ last := fun h => hfwd (Address.isPrefix_of_head h.symm)
      refine ⟨_, .here hspec' hfits', ?_⟩
      rw [store_comm hne]
      exact .here hspec hfits
    | @step _ _ step _ declared others hspec' hopens' hbelow =>
      replace hspec' : options.schema.field? step.field = some _ := hspec'
      have hne : step.field ≠ field := fun h => hfwd (Address.isPrefix_of_head h)
      rw [nodeAt_congr (get?_store_of_ne hne options value)] at hbelow
      refine ⟨_, .step hspec' hopens' hbelow, ?_⟩
      rw [place_store_comm hspec' hopens' hne]
      exact .here ((schema_place ..).symm ▸ hspec) hfits
  | @step options changed step spec declared steps hspec hopens hbelow ih =>
    cases hsecond with
    | here hspec' hfits' =>
      have hne : step.field ≠ last := fun h => hbwd (Address.isPrefix_of_head h)
      rw [schema_place] at hspec'
      refine ⟨_, .here hspec' hfits', ?_⟩
      rw [← place_store_comm hspec hopens hne]
      refine .step hspec hopens ?_
      rw [nodeAt_congr (get?_store_of_ne hne options next)]
      exact hbelow
    | @step _ changed' through spec' nested others hspec' hopens' hbelow' =>
      rw [schema_place] at hspec'
      -- through one step the writes commute below it, through two the nodes are put back side by side
      by_cases hne : through = step
      · subst hne
        obtain rfl : spec' = spec := Option.some.inj (hspec'.symm.trans hspec)
        obtain rfl : nested = declared := Option.some.inj (hopens'.symm.trans hopens)
        rw [nodeAt_place_self hspec hopens] at hbelow'
        obtain ⟨middle, hmiddle, hlast⟩ := ih hbelow' (fun h => hfwd (h.under through))
          fun h => hbwd (h.under through)
        refine ⟨_, .step hspec hopens hmiddle, ?_⟩
        rw [place_place_self hspec hopens changed,
          ← place_place_self hspec hopens middle changed']
        refine .step ((schema_place ..).symm ▸ hspec) hopens ?_
        rw [nodeAt_place_self hspec hopens]
        exact hlast
      · rw [nodeAt_place_of_ne hspec hopens hspec' hopens' hne] at hbelow'
        refine ⟨_, .step hspec' hopens' hbelow', ?_⟩
        rw [place_comm hspec hopens hspec' hopens' hne]
        refine .step ((schema_place ..).symm ▸ hspec) hopens ?_
        rw [nodeAt_place_of_ne hspec' hopens' hspec hopens (Ne.symm hne)]
        exact hbelow

/-- A walk without steps leaves all segments. -/
theorem walk_nil_iff {left : List String} : options.Walk segments [] left ↔ left = segments :=
  ⟨Walk.left_eq, fun h => h ▸ .here⟩

/-- A walk through a step depends on the schema of the node and on the walk from the node that the
step leads to. -/
theorem walk_cons_congr {through : Step} {left : List String}
    (hschema : other.schema = options.schema)
    (hbelow : ∀ spec nested rest, options.schema.field? through.field = some spec →
      through.opens? spec.kind = some nested →
        ((other.nodeAt nested through).Walk rest steps left ↔
          (options.nodeAt nested through).Walk rest steps left)) :
    other.Walk segments (through :: steps) left ↔ options.Walk segments (through :: steps) left := by
  constructor <;> intro h
  · cases h with
    | step hspec hopens hspells hwalk =>
      rw [hschema] at hspec
      exact .step hspec hopens hspells ((hbelow _ _ _ hspec hopens).mp hwalk)
  · cases h with
    | step hspec hopens hspells hwalk =>
      exact .step (hschema ▸ hspec) hopens hspells ((hbelow _ _ _ hspec hopens).mpr hwalk)

/-- A path leads to the same address before and after a write, if the address does not go through
what was written. -/
theorem Writes.leadsTo_iff {b : Address} (h : Writes value field options steps changed)
    (hfwd : ¬ (⟨steps, field⟩ : Address).IsPrefix b) :
    changed.LeadsTo segments b ↔ options.LeadsTo segments b := by
  obtain ⟨others, last⟩ := b
  induction h generalizing segments others with
  | @here options spec hspec hfits =>
    cases others with
    | nil => exact walk_nil_iff.trans walk_nil_iff.symm
    | cons through others =>
      refine walk_cons_congr rfl fun _ nested _ _ _ => ?_
      have hne : through.field ≠ field := fun h => hfwd (Address.isPrefix_of_head h)
      rw [nodeAt_congr (get?_store_of_ne hne options value)]
  | @step options changed step spec declared steps hspec hopens hbelow ih =>
    cases others with
    | nil => exact walk_nil_iff.trans walk_nil_iff.symm
    | cons through others =>
      refine walk_cons_congr (schema_place ..) fun spec' nested rest hspec' hopens' => ?_
      by_cases hne : through = step
      · subst hne
        obtain rfl : spec' = spec := Option.some.inj (hspec'.symm.trans hspec)
        obtain rfl : nested = declared := Option.some.inj (hopens'.symm.trans hopens)
        rw [nodeAt_place_self hspec hopens]
        exact ih others fun h => hfwd (h.under through)
      · rw [nodeAt_place_of_ne hspec hopens hspec' hopens' hne]

/-- Two assignments by path to addresses of which neither is a prefix of the other can be made in
either order: if one order succeeds, so does the other, and the trees that they leave behind are the
same, lists included. Trees that differ from them in the order in which nodes keep their entries have
one text, and there is a text if the tree and the values are well-typed over schemas that repeat no
field in a list of their own. The address of the second path may be taken before or after the first
assignment. -/
theorem assign_comm (options : Options) (p q : String) (v w : OptionValue) (a b : Address)
    (ha : options.LeadsTo (pathSegments p) a)
    (hb : options.LeadsTo (pathSegments q) b ∨
      (options.assign p v).2.LeadsTo (pathSegments q) b)
    (hab : ¬ a.IsPrefix b) (hba : ¬ b.IsPrefix a) (hp : (options.assign p v).1 = .ok ())
    (hq : ((options.assign p v).2.assign q w).1 = .ok ()) :
    (options.assign q w).1 = .ok () ∧ ((options.assign q w).2.assign p v).1 = .ok () ∧
      ((options.assign q w).2.assign p v).2 = ((options.assign p v).2.assign q w).2 ∧
      (∀ t u : Options, t.All Distinct → u.All Distinct →
        t.canonical = ((options.assign p v).2.assign q w).2 →
        u.canonical = ((options.assign q w).2.assign p v).2 → t.render = u.render) ∧
      (options.WellTypedOver Schema.RepeatFree → v.Given Schema.RepeatFree →
        w.Given Schema.RepeatFree → ∃ text,
          ((options.assign p v).2.assign q w).2.render = .ok text ∧
            ((options.assign q w).2.assign p v).2.render = .ok text) := by
  have hfirst : Writes v a.field options a.steps (options.assign p v).2 :=
    (LeadsTo.assignAt_eq_ok ha).mp (Prod.ext hp rfl)
  have hqb : (options.assign p v).2.LeadsTo (pathSegments q) b :=
    hb.elim (hfirst.leadsTo_iff hab).mpr id
  have hsecond : Writes w b.field (options.assign p v).2 b.steps
      ((options.assign p v).2.assign q w).2 :=
    (LeadsTo.assignAt_eq_ok hqb).mp (Prod.ext hq rfl)
  obtain ⟨middle, hmiddle, hlast⟩ := hfirst.comm hsecond hab hba
  have hassign : options.assign q w = (.ok (), middle) :=
    (LeadsTo.assignAt_eq_ok ((hfirst.leadsTo_iff hab).mp hqb)).mpr hmiddle
  have hassign' : middle.assign p v = (.ok (), ((options.assign p v).2.assign q w).2) :=
    (LeadsTo.assignAt_eq_ok ((hmiddle.leadsTo_iff hba).mpr ha)).mpr hlast
  rw [hassign, hassign']
  refine ⟨rfl, rfl, rfl, fun t u ht hu hfirst hsecond => ?_, fun hwell hv hw => ?_⟩
  · rw [← render_canonical ht, ← render_canonical hu, hfirst, hsecond]
  · have hfree := Schema.hereditary_repeatFree
    have htree := ((hwell.assign hfree p hv).1.assign hfree q hw).1
    have htext := (htree.mono fun _ => Schema.RepeatFree.unrepeated).render_eq_ok
    exact ⟨_, htext, htext⟩

/-- Colouring the third slice of a pie and the text of its second: each pads the list of slices, and
both orders lead to one tree. -/
theorem assign_comm_slices :
    (samplePie.assign "parts.1.textStyle.color" (.text "blue")).1 = .ok () ∧
      ((samplePie.assign "parts.1.textStyle.color" (.text "blue")).2.assign "parts.+2.color"
        (.text "red")).2 =
          ((samplePie.assign "parts.+2.color" (.text "red")).2.assign "parts.1.textStyle.color"
            (.text "blue")).2 ∧
      ((samplePie.assign "parts.1.textStyle.color" (.text "blue")).2.assign "parts.+2.color"
        (.text "red")).2.render.toOption =
          some ("\x7btitle:\"Shares\",parts:[first," ++
            "\x7btextStyle:\x7bcolor:\"blue\"\x7d\x7d,\x7bcolor:\"red\"\x7d]\x7d") := by
  have ha : samplePie.Walk (["parts", "+2"] ++ ["color"]) [.item "parts" 2] ["color"] :=
    .step rfl rfl ⟨"+2", 2, rfl, rfl, rfl⟩ .here
  have hb : samplePie.Walk (["parts", "1"] ++ (["textStyle"] ++ ["color"]))
      [.item "parts" 1, .object "textStyle"] ["color"] :=
    .step rfl rfl ⟨"1", 1, rfl, rfl, rfl⟩ (.step rfl rfl rfl .here)
  obtain ⟨hok, _, hsame, _⟩ := assign_comm samplePie "parts.+2.color" "parts.1.textStyle.color"
    (.text "red") (.text "blue") ⟨[.item "parts" 2], "color"⟩
    ⟨[.item "parts" 1, .object "textStyle"], "color"⟩ ha (.inl hb)
    (by rintro (h | ⟨_, _, h, _⟩) <;> cases h) (by rintro (h | ⟨_, _, h, _⟩) <;> cases h) rfl rfl
  exact ⟨hok, hsame, by decide +kernel⟩

end Options

end ChartScript
