import ChartScript.Proofs.Options.Assignment

/-!
# What a refused assignment leaves behind

An assignment by path opens one step after another until it is refused. Opening a step makes a node
of whatever stands in the slot of the step, so the slots that the steps go through lose what they
held if that was no node; all other slots hold what they held, and no slot comes to hold anything
but nodes. Again one step is the unit: what opening it does to the slots of its own field is said
first, and a whole path follows by induction on its segments.
-/

namespace ChartScript

/-- A place for a value in a tree: a field of the node that steps lead to, or a position of the list
in that field. -/
structure Slot where
  steps : List Step
  field : String
  position : Option Nat

namespace OptionValue

/-- What a value holds at a position of it, or as a whole. -/
def at? : OptionValue → Option Nat → Option OptionValue
  | value, none => some value
  | .list items, some i => items[i]?
  | _, some _ => none

/-- Positions are held by lists. -/
theorem at?_some_eq_some {held value : OptionValue} {i : Nat} :
    held.at? (some i) = some value ↔ ∃ items, held = .list items ∧ items[i]? = some value := by
  cases held <;> simp [at?]

end OptionValue

/-- Whether a step goes through its field as a whole, or through a position of it. -/
def Step.Covers : Step → Option Nat → Prop
  | _, none => True
  | .item _ position, some i => position = i
  | _, some _ => False

namespace Options

/-- The value in a slot, if there is one. -/
def held? (options : Options) (slot : Slot) : Option OptionValue :=
  (options.read? ⟨slot.steps, slot.field⟩).bind (·.at? slot.position)

/-- An assignment along segments opens a step that goes through a slot. -/
def Opens (options : Options) (segments : List String) (slot : Slot) : Prop :=
  ∃ step left, options.Walk segments (slot.steps ++ [step]) left ∧ left ≠ [] ∧
    step.field = slot.field ∧ step.Covers slot.position

/-- The changed tree holds what the options hold, except in slots that were opened. -/
structure Survives (options changed : Options) (opened : Slot → Prop) : Prop where
  /-- What is no node and has none below it is held as before, unless its slot was opened, and
  nothing of this sort is new. -/
  values : ∀ (slot : Slot) (value : OptionValue), value.nodes = [] →
    (changed.held? slot = some value ↔ options.held? slot = some value ∧ ¬ opened slot)
  /-- The nodes are still there. -/
  nodes : ∀ (steps : List Step) (node : Options), options.descend? steps = some node →
    ∃ found, changed.descend? steps = some found ∧ found.schema = node.schema

variable {options : Options}

/-- Everything survives where nothing was opened. -/
theorem survives_self {opened : Slot → Prop} (hopened : ∀ slot, ¬ opened slot) :
    options.Survives options opened where
  values slot _ _ := ⟨fun hheld => ⟨hheld, hopened slot⟩, fun h => h.1⟩
  nodes _ node hnode := ⟨node, hnode, rfl⟩

/-- What a field holds at a position is an item of its list. -/
theorem get?_bind_at? (options : Options) (field : String) (i : Nat) :
    (options.get? field).bind (·.at? (some i)) = (options.itemsAt field)[i]? := by
  rw [itemsAt]
  cases options.get? field with
  | none => rfl
  | some held => cases held <;> rfl

section Place

variable {step : Step} {spec : FieldSpec Schema} {declared : Schema}

/-- Putting a node into the slot of a step makes a node of what was there; at other positions of the
field it brings in nothing but empty objects. -/
theorem at?_placed (hfitting : options.Fitting)
    (hspec : options.schema.field? step.field = some spec)
    (hopens : step.opens? spec.kind = some declared) (child : Options) (position : Option Nat)
    {value : OptionValue} (hvalue : value.nodes = []) :
    (options.placed declared child step).at? position = some value ↔
      (options.get? step.field).bind (·.at? position) = some value ∧ ¬ step.Covers position := by
  have hobject (node : Options) : some (OptionValue.object node) ≠ some value := by
    rintro ⟨⟩
    cases hvalue
  cases position with
  | none =>
    -- as a whole the field holds a node or has one below
    have hplaced : some (options.placed declared child step) ≠ some value := by
      rintro ⟨⟩
      have hchild := OptionValue.mem_nodes_of_below?
        (below?_placed_self options declared child step)
      rw [hvalue] at hchild
      exact List.not_mem_nil hchild
    exact ⟨fun h => absurd h hplaced, fun h => absurd trivial h.2⟩
  | some i =>
    have hlist (hnone : (options.placed declared child step).at? (some i) = none)
        (hkind : ∀ items, (OptionValue.list items).fits spec.kind = false) :
        (options.placed declared child step).at? (some i) = some value ↔
          (options.get? step.field).bind (·.at? (some i)) = some value ∧
            ¬ step.Covers (some i) := by
      rw [hnone]
      refine ⟨fun h => (nomatch h), fun h => ?_⟩
      obtain ⟨held, hget, hat⟩ := Option.bind_eq_some_iff.mp h.1
      obtain ⟨items, rfl, _⟩ := OptionValue.at?_some_eq_some.mp hat
      have hfits := hfitting.get? hget hspec
      rw [hkind items] at hfits
      cases hfits
    cases step with
    | object field =>
      refine hlist rfl fun items => ?_
      rcases Step.opens?_object.mp hopens with hkind | ⟨scalar, hkind⟩ <;> rw [hkind] <;> rfl
    | entry field label =>
      refine hlist rfl fun items => ?_
      rw [Step.opens?_entry.mp hopens]
      rfl
    | item field position =>
      change ((padTo declared position (options.itemsAt field)).set position (.object child))[i]? =
        some value ↔ (options.get? field).bind (·.at? (some i)) = some value ∧ ¬ position = i
      rw [get?_bind_at?]
      by_cases hi : position = i
      · subst hi
        have hlength : position < (padTo declared position (options.itemsAt field)).length := by
          rw [length_padTo]
          omega
        rw [List.getElem?_set_self hlength]
        exact ⟨fun h => absurd h (hobject child), fun h => absurd rfl h.2⟩
      · rw [List.getElem?_set_ne hi]
        rcases getElem?_padTo declared position (options.itemsAt field) i with
          hkept | ⟨hnone, hpad⟩
        · rw [hkept]
          exact ⟨fun h => ⟨h, hi⟩, fun h => h.1⟩
        · rw [hnone, hpad]
          exact ⟨fun h => absurd h (hobject _), fun h => nomatch h.1⟩

/-- Where the work on the node of a step lets survive what was not opened, so does putting the node
back: the step is opened, and whatever was opened below it. -/
theorem Survives.under (hfitting : options.Fitting)
    (hspec : options.schema.field? step.field = some spec)
    (hopens : step.opens? spec.kind = some declared) {changed : Options}
    {opened openedBelow : Slot → Prop}
    (h : (options.nodeAt declared step).Survives changed openedBelow)
    (hhere : ∀ field position, opened ⟨[], field, position⟩ ↔
      step.field = field ∧ step.Covers position)
    (hbelow : ∀ through rest field position, opened ⟨through :: rest, field, position⟩ ↔
      through = step ∧ openedBelow ⟨rest, field, position⟩) :
    options.Survives (options.place changed step) opened where
  values slot value hvalue := by
    obtain ⟨steps, field, position⟩ := slot
    cases steps with
    | nil =>
      rw [hhere]
      change ((options.place changed step).get? field).bind _ = _ ↔ (options.get? field).bind _ = _ ∧ _
      by_cases hfield : step.field = field
      · subst hfield
        rw [get?_place_self hspec hopens]
        refine (at?_placed hfitting hspec hopens changed position hvalue).trans ?_
        exact and_congr_right fun _ => not_congr ⟨fun h => ⟨rfl, h⟩, fun h => h.2⟩
      · rw [get?_place_of_ne hspec hopens changed (Ne.symm hfield)]
        exact ⟨fun h => ⟨h, fun hopened => hfield hopened.1⟩, fun h => h.1⟩
    | cons through rest =>
      rw [hbelow]
      change ((options.place changed step).read? (Address.under through ⟨rest, field⟩)).bind _ = _ ↔
        (options.read? (Address.under through ⟨rest, field⟩)).bind _ = _ ∧ _
      by_cases hthrough : through = step
      · subst hthrough
        rw [read?_place_under hspec hopens, ← read?_nodeAt options declared]
        refine (h.values ⟨rest, field, position⟩ value hvalue).trans ?_
        exact and_congr_right fun _ => not_congr ⟨fun h => ⟨rfl, h⟩, fun h => h.2⟩
      · rw [read?_place_of_ne hfitting hspec hopens changed hthrough]
        exact ⟨fun h => ⟨h, fun hopened => hthrough hopened.1⟩, fun h => h.1⟩
  nodes steps node hnode := by
    cases steps with
    | nil =>
      obtain rfl := Option.some.inj hnode
      exact ⟨_, rfl, schema_place ..⟩
    | cons through rest =>
      obtain ⟨first, hfirst, hrest⟩ := Option.bind_eq_some_iff.mp hnode
      by_cases hthrough : through = step
      · subst hthrough
        have hnodeAt : options.nodeAt declared through = first := by
          rw [nodeAt_eq, hfirst]
          rfl
        obtain ⟨found, hfound, hschema⟩ := h.nodes rest node (hnodeAt ▸ hrest)
        refine ⟨found, ?_, hschema⟩
        rw [descend?, below?_place_self hspec hopens]
        exact hfound
      · rcases below?_place_of_ne hfitting hspec hopens changed hthrough with hsame | ⟨hnone, _⟩
        · refine ⟨node, ?_, rfl⟩
          rw [descend?, hsame]
          exact hnode
        · rw [hnone] at hfirst
          cases hfirst

end Place

section Opens

variable {path : String} {segments rest : List String} {step : Step} {slot : Slot}

/-- What opens a slot starts with the step that the assignment turns to. -/
theorem Opens.exists_turn (h : options.Opens segments slot) (path : String) :
    ∃ step spec declared rest, options.schema.field? step.field = some spec ∧
      step.opens? spec.kind = some declared ∧
        options.schema.turn path segments = .go step rest := by
  obtain ⟨last, left, hwalk, hleft, _⟩ := h
  obtain ⟨first, steps, hsteps⟩ := List.exists_cons_of_ne_nil
    (List.append_ne_nil_of_right_ne_nil slot.steps (List.cons_ne_nil last []))
  rw [hsteps] at hwalk
  obtain ⟨spec, declared, rest, hspec, hopens, hturn, _⟩ := hwalk.turn hleft path
  exact ⟨first, spec, declared, rest, hspec, hopens, hturn⟩

/-- Of the slots of the node itself, those of the step are opened. -/
theorem opens_here {spec : FieldSpec Schema} {declared : Schema}
    (hturn : options.schema.turn path segments = .go step rest)
    (hspec : options.schema.field? step.field = some spec)
    (hopens : step.opens? spec.kind = some declared) (field : String) (position : Option Nat) :
    options.Opens segments ⟨[], field, position⟩ ↔ step.field = field ∧ step.Covers position := by
  constructor
  · rintro ⟨through, left, hwalk, hleft, hcovers⟩
    obtain ⟨rfl, _⟩ := Walk.along hturn hspec hopens hwalk hleft
    exact hcovers
  · intro hcovers
    have hwalk : options.Walk segments [step] rest :=
      .of_turn hturn (reach_eq_ok hspec hopens) .here
    exact ⟨step, rest, hwalk, (Schema.spells_of_turn hturn).1, hcovers⟩

/-- Of the slots further down, those below the step are opened that are opened in its node. -/
theorem opens_below {spec : FieldSpec Schema} {declared : Schema}
    (hturn : options.schema.turn path segments = .go step rest)
    (hspec : options.schema.field? step.field = some spec)
    (hopens : step.opens? spec.kind = some declared) (through : Step) (steps : List Step)
    (field : String) (position : Option Nat) :
    options.Opens segments ⟨through :: steps, field, position⟩ ↔
      through = step ∧ (options.nodeAt declared step).Opens rest ⟨steps, field, position⟩ := by
  constructor
  · rintro ⟨last, left, hwalk, hleft, hcovers⟩
    obtain ⟨rfl, hbelow⟩ := Walk.along hturn hspec hopens hwalk hleft
    exact ⟨rfl, last, left, hbelow, hleft, hcovers⟩
  · rintro ⟨rfl, last, left, hwalk, hleft, hcovers⟩
    exact ⟨last, left, .of_turn hturn (reach_eq_ok hspec hopens) hwalk, hleft, hcovers⟩

end Opens

/-- An assignment along segments that is refused lets everything survive but what was held in the
slots it opened. -/
theorem WellTyped.survives_refusal {path : String} {value : OptionValue} (segments : List String)
    {options : Options} {e : Error} (hwell : options.WellTyped)
    (hrefused : (options.assignAt path value segments).1 = .error e) :
    options.Survives (options.assignAt path value segments).2 (options.Opens segments) := by
  rw [assignAt_eq] at hrefused ⊢
  cases hturn : options.schema.turn path segments with
  | stop e =>
    refine survives_self fun slot hopened => ?_
    obtain ⟨_, _, _, _, _, _, hgo⟩ := hopened.exists_turn path
    cases hturn.symm.trans hgo
  | write field =>
    rw [hturn] at hrefused
    simp only [write] at hrefused ⊢
    cases hset : options.set field value with
    | ok changed =>
      rw [hset] at hrefused
      cases hrefused
    | error e =>
      refine survives_self fun slot hopened => ?_
      obtain ⟨_, _, _, _, _, _, hgo⟩ := hopened.exists_turn path
      cases hturn.symm.trans hgo
  | go step rest =>
    have hlt := Schema.length_lt_of_turn hturn
    rw [hturn] at hrefused
    simp only at hrefused ⊢
    cases hreach : options.reach step with
    | error e =>
      rw [within_eq_of_error hreach]
      refine survives_self fun slot hopened => ?_
      obtain ⟨through, _, _, _, hspec, hopens, hgo⟩ := hopened.exists_turn path
      obtain ⟨rfl, _⟩ := Turn.go.inj (hturn.symm.trans hgo)
      cases hreach.symm.trans (reach_eq_ok hspec hopens)
    | ok child =>
      rw [within_eq hreach] at hrefused ⊢
      obtain ⟨spec, declared, hspec, hopens, rfl⟩ := exists_opens_of_reach hreach
      exact (WellTyped.survives_refusal rest (hwell.nodeAt hspec hopens) hrefused).under
        hwell.here.2 hspec hopens (opens_here hturn hspec hopens)
        (opens_below hturn hspec hopens)
termination_by segments.length

/-- An assignment by path to a well-typed tree that is refused keeps every value that is no node and
has none below it in its field or at its position of a list, unless it opened a node in that very
place; it brings in no such value, and every node is still there under its schema. -/
theorem refused_assign_keeps_unopened (options : Options) (path : String) (value : OptionValue)
    (e : Error) (hwell : options.WellTyped)
    (hrefused : (options.assign path value).1 = .error e) :
    options.Survives (options.assign path value).2 (options.Opens (pathSegments path)) :=
  hwell.survives_refusal (pathSegments path) hrefused

/-- A line chart with a title and without a legend. -/
def sampleLine : Options :=
  ((Options.empty Catalog.lineChart).store "title" (.text "Sales")).store "legend" (.text "none")

/-- The line chart is well-typed. -/
theorem wellTyped_sampleLine : sampleLine.WellTyped := by
  have htitle : ((Options.empty Catalog.lineChart).store "title" (.text "Sales")).WellTypedOver
      fun _ => True :=
    (WellTypedOver.empty trivial).store rfl rfl (.of_nodes_nil trivial rfl)
  have hline : sampleLine.WellTypedOver fun _ => True :=
    htitle.store rfl (by decide +kernel) (.of_nodes_nil trivial rfl)
  exact hline.wellTyped

/-- Refused assignments do lose values: opening the legend makes an object of it before its field
is refused. -/
theorem not_refused_assign_keeps_all :
    ¬ ∀ (options : Options) (path : String) (value : OptionValue) (e : Error), options.WellTyped →
      (options.assign path value).1 = .error e →
        ∀ (slot : Slot) (held : OptionValue), held.nodes = [] → options.held? slot = some held →
          (options.assign path value).2.held? slot = some held := by
  intro hkeeps
  have hlegend := hkeeps sampleLine "legend.colour" (.text "red") (.unknownOption "AdvancedLegend" "colour")
    wellTyped_sampleLine rfl ⟨[], "legend", none⟩ (.text "none") rfl rfl
  cases hlegend

/-- The title of the line chart survives what its legend does not. -/
theorem refused_legend_keeps_title :
    sampleLine.WellTyped ∧
      (sampleLine.assign "legend.colour" (.text "red")).1 =
        .error (.unknownOption "AdvancedLegend" "colour") ∧
        sampleLine.Survives (sampleLine.assign "legend.colour" (.text "red")).2
          (sampleLine.Opens (pathSegments "legend.colour")) ∧
          (sampleLine.assign "legend.colour" (.text "red")).2.held? ⟨[], "title", none⟩ =
            some (.text "Sales") :=
  ⟨wellTyped_sampleLine, rfl,
    refused_assign_keeps_unopened _ _ _ _ wellTyped_sampleLine rfl, rfl⟩

end Options

end ChartScript
