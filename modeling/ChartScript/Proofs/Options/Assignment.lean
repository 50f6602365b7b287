import ChartScript.Catalog.Visualization
import ChartScript.Options.Writing
import ChartScript.Proofs.Options.Import
import ChartScript.Proofs.Options.Walk

/-!
# What an assignment by path writes

A successful assignment writes at the address of its path and nowhere else: what is read at other
addresses is what was read before, and the lists and collections on the way change at one position
and at one label, apart from the padding of a list. One write of a field has this effect at the
address without steps. If work on a node has it, then putting the node back has it one step further
up, so the effect of a whole path follows by induction on its segments.
-/

namespace ChartScript

namespace Options

/-- The list at an address; empty where there is none. -/
def listAt (options : Options) (a : Address) : List OptionValue :=
  match options.read? a with
  | some (.list items) => items
  | _ => []

/-- The labelled collection at an address; empty where there is none. -/
def collectionAt (options : Options) (a : Address) : List (UInt32 × Options) :=
  match options.read? a with
  | some (.indexed entries) => entries
  | _ => []

/-- The changed tree differs from the options in the value at an address and in nothing else. -/
structure WrittenAt (options changed : Options) (a : Address) (value : OptionValue) : Prop where
  /-- The value is read at the address. -/
  here : changed.read? a = some value
  /-- What neither contains the address nor lies below it reads as before. -/
  elsewhere : ∀ b : Address, ¬ a.IsPrefix b → ¬ b.IsPrefix a → changed.read? b = options.read? b
  /-- A list on the way is just long enough for its position or as long as it was. Its other items
  are kept, and items that it did not have are empty objects. -/
  lists : ∀ (before after : List Step) (field : String) (position : Nat),
    a.steps = before ++ .item field position :: after →
      position < listLimit ∧ ∃ items, changed.read? ⟨before, field⟩ = some (.list items) ∧
        items.length = max (options.listAt ⟨before, field⟩).length (position + 1) ∧
        ∀ i, i ≠ position → items[i]? = (options.listAt ⟨before, field⟩)[i]? ∨
          (options.listAt ⟨before, field⟩)[i]? = none ∧
            ∃ schema, items[i]? = some (.object (empty schema))
  /-- A collection on the way has the same nodes as before at its other labels. -/
  collections : ∀ (before after : List Step) (field : String) (label : UInt32),
    a.steps = before ++ .entry field label :: after →
      ∃ entries, changed.read? ⟨before, field⟩ = some (.indexed entries) ∧
        ∀ other, other ≠ label →
          Keyed.find? other entries = Keyed.find? other (options.collectionAt ⟨before, field⟩)

variable {options : Options}

/-- Lists are read in the node that a step opens. -/
theorem listAt_nodeAt (options : Options) (declared : Schema) (step : Step) (a : Address) :
    (options.nodeAt declared step).listAt a = options.listAt (a.under step) := by
  rw [listAt, listAt, read?_nodeAt]

/-- Collections are read in the node that a step opens. -/
theorem collectionAt_nodeAt (options : Options) (declared : Schema) (step : Step) (a : Address) :
    (options.nodeAt declared step).collectionAt a = options.collectionAt (a.under step) := by
  rw [collectionAt, collectionAt, read?_nodeAt]

/-- Storing a value writes its field. -/
theorem writtenAt_store (options : Options) (field : String) (value : OptionValue) :
    options.WrittenAt (options.store field value) ⟨[], field⟩ value where
  here := get?_store_self options field value
  elsewhere b hbelow _ := by
    refine read?_congr (get?_store_of_ne (fun hhead => ?_) options value)
    exact hbelow (Address.isPrefix_of_head hhead)
  lists before after field position hsteps := by
    cases before <;> cases hsteps
  collections before after field label hsteps := by
    cases before <;> cases hsteps

section Place

variable {step : Step} {spec : FieldSpec Schema} {declared : Schema} {child changed : Options}

/-- What is read below a step once a node has been put there is read in the node. -/
theorem read?_place_under (hspec : options.schema.field? step.field = some spec)
    (hopens : step.opens? spec.kind = some declared) (child : Options) (a : Address) :
    (options.place child step).read? (a.under step) = child.read? a := by
  rw [read?_under, below?_place_self hspec hopens]
  rfl

/-- Putting back a node keeps what is read along other steps. -/
theorem read?_place_of_ne (hfitting : options.Fitting)
    (hspec : options.schema.field? step.field = some spec)
    (hopens : step.opens? spec.kind = some declared) (child : Options) {through : Step}
    (hne : through ≠ step) (a : Address) :
    (options.place child step).read? (a.under through) = options.read? (a.under through) := by
  rw [read?_under, read?_under]
  rcases below?_place_of_ne hfitting hspec hopens child hne with hsame | ⟨hnone, hempty⟩
  · rw [hsame]
  · rw [hnone, hempty]
    exact read?_empty declared a

/-- The list that an item has been put into. -/
theorem lists_placed {field : String} {position : Nat}
    (hspec : options.schema.field? (Step.item field position).field = some spec)
    (hopens : (Step.item field position).opens? spec.kind = some declared) (child : Options) :
    position < listLimit ∧ ∃ items,
      (options.place child (.item field position)).read? ⟨[], field⟩ = some (.list items) ∧
        items.length = max (options.listAt ⟨[], field⟩).length (position + 1) ∧
        ∀ i, i ≠ position → items[i]? = (options.listAt ⟨[], field⟩)[i]? ∨
          (options.listAt ⟨[], field⟩)[i]? = none ∧
            ∃ schema, items[i]? = some (.object (empty schema)) := by
  refine ⟨(Step.opens?_item.mp hopens).2, _, get?_place_self hspec hopens child, ?_, ?_⟩
  · rw [List.length_set, length_padTo]
    rfl
  · intro i hi
    rw [List.getElem?_set_ne hi.symm]
    rcases getElem?_padTo declared position (options.itemsAt field) i with hkept | ⟨hnone, hpad⟩
    · exact Or.inl hkept
    · exact Or.inr ⟨hnone, declared, hpad⟩

/-- The collection that an entry has been put into. -/
theorem collections_placed {field : String} {label : UInt32}
    (hspec : options.schema.field? (Step.entry field label).field = some spec)
    (hopens : (Step.entry field label).opens? spec.kind = some declared) (child : Options) :
    ∃ entries, (options.place child (.entry field label)).read? ⟨[], field⟩ =
        some (.indexed entries) ∧
      ∀ other, other ≠ label →
        Keyed.find? other entries = Keyed.find? other (options.collectionAt ⟨[], field⟩) :=
  ⟨_, get?_place_self hspec hopens child, fun _ hother => Keyed.find?_insert_of_ne hother child _⟩

/-- What is written in the node that a step opens is written below the step. -/
theorem WrittenAt.under (hfitting : options.Fitting)
    (hspec : options.schema.field? step.field = some spec)
    (hopens : step.opens? spec.kind = some declared) {a : Address} {value : OptionValue}
    (h : (options.nodeAt declared step).WrittenAt changed a value) :
    options.WrittenAt (options.place changed step) (a.under step) value where
  here := by
    rw [read?_place_under hspec hopens]
    exact h.here
  elsewhere b hbelow habove := by
    obtain ⟨steps, field⟩ := b
    cases steps with
    | nil =>
      refine get?_place_of_ne hspec hopens changed fun hfield => habove ?_
      exact Address.isPrefix_of_head hfield.symm
    | cons through rest =>
      change (options.place changed step).read? (Address.under through ⟨rest, field⟩) =
        options.read? (Address.under through ⟨rest, field⟩)
      by_cases hne : through = step
      · subst hne
        rw [read?_place_under hspec hopens, ← read?_nodeAt]
        exact h.elsewhere _ (fun hwithin => hbelow (hwithin.under through))
          fun hwithin => habove (hwithin.under through)
      · exact read?_place_of_ne hfitting hspec hopens changed hne _
  lists before after field position hsteps := by
    cases before with
    | nil =>
      obtain ⟨rfl, _⟩ := List.cons.inj hsteps
      exact lists_placed hspec hopens changed
    | cons first before =>
      obtain ⟨rfl, hrest⟩ := List.cons.inj hsteps
      have hbelow := h.lists before after field position hrest
      rw [listAt_nodeAt, ← read?_place_under hspec hopens] at hbelow
      exact hbelow
  collections before after field label hsteps := by
    cases before with
    | nil =>
      obtain ⟨rfl, _⟩ := List.cons.inj hsteps
      exact collections_placed hspec hopens changed
    | cons first before =>
      obtain ⟨rfl, hrest⟩ := List.cons.inj hsteps
      have hbelow := h.collections before after field label hrest
      rw [collectionAt_nodeAt, ← read?_place_under hspec hopens] at hbelow
      exact hbelow

end Place

/-- A step that can be opened is worked on at its node, and the node is put back. -/
theorem within_eq {step : Step} {child : Options} (hreach : options.reach step = .ok child)
    (work : Options → Except Error Unit × Options) :
    options.within step work = ((work child).1, options.place (work child).2 step) := by
  rw [within, hreach]

/-- A step that cannot be opened leaves everything as it is. -/
theorem within_eq_of_error {step : Step} {e : Error} (hreach : options.reach step = .error e)
    (work : Options → Except Error Unit × Options) :
    options.within step work = (.error e, options) := by
  rw [within, hreach]

/-- An assignment along segments that succeeds writes at the address they lead to. -/
theorem WellTyped.exists_writtenAt {path : String} {value : OptionValue} (segments : List String)
    {options : Options} (hwell : options.WellTyped)
    (hok : (options.assignAt path value segments).1 = .ok ()) :
    ∃ a, options.LeadsTo segments a ∧
      options.WrittenAt (options.assignAt path value segments).2 a value := by
  rw [assignAt_eq] at hok ⊢
  cases hturn : options.schema.turn path segments with
  | stop e =>
    rw [hturn] at hok
    cases hok
  | write field =>
    rw [hturn] at hok
    obtain rfl := Schema.turn_eq_write hturn
    simp only [write] at hok ⊢
    cases hset : options.set field value with
    | error e =>
      rw [hset] at hok
      cases hok
    | ok changed =>
      obtain ⟨_, _, _, rfl⟩ := set_eq_ok.mp hset
      exact ⟨⟨[], field⟩, .here, writtenAt_store options field value⟩
  | go step rest =>
    have hlt := Schema.length_lt_of_turn hturn
    rw [hturn] at hok
    simp only at hok ⊢
    cases hreach : options.reach step with
    | error e =>
      rw [within_eq_of_error hreach] at hok
      cases hok
    | ok child =>
      rw [within_eq hreach] at hok ⊢
      obtain ⟨spec, declared, hspec, hopens, rfl⟩ := exists_opens_of_reach hreach
      obtain ⟨a, hleads, hwritten⟩ := WellTyped.exists_writtenAt rest (hwell.nodeAt hspec hopens) hok
      exact ⟨a.under step, .of_turn hturn hreach hleads,
        hwritten.under hwell.here.2 hspec hopens⟩
termination_by segments.length

/-- An assignment by path to a well-typed tree that succeeds writes the value at the one address that
the path leads to, and nothing else. -/
theorem assign_writes_address (options : Options) (path : String) (value : OptionValue)
    (hwell : options.WellTyped) (hok : (options.assign path value).1 = .ok ()) :
    ∃ a, options.LeadsTo (pathSegments path) a ∧
      (∀ b, options.LeadsTo (pathSegments path) b → b = a) ∧
        options.WrittenAt (options.assign path value).2 a value := by
  obtain ⟨a, hleads, hwritten⟩ := hwell.exists_writtenAt (pathSegments path) hok
  exact ⟨a, hleads, fun b hb => hb.unique hleads, hwritten⟩

/-- A pie whose slices stand in a row. -/
def slicedPie : Schema :=
  ⟨.custom 1, "SlicedPie", some Catalog.pieChart, [⟨"parts", .objectList Catalog.slice, none⟩]⟩

/-- A pie with a title and one slice, which is code. -/
def samplePie : Options :=
  ((Options.empty slicedPie).store "title" (.text "Shares")).store "parts" (.list [.code "first"])

/-- Colouring the third slice keeps the first and brings in an empty second one. -/
theorem assign_writes_third_slice :
    samplePie.WellTyped ∧ (samplePie.assign "parts.+2.color" (.text "red")).1 = .ok () ∧
      (∃ a, samplePie.LeadsTo (pathSegments "parts.+2.color") a ∧
        (∀ b, samplePie.LeadsTo (pathSegments "parts.+2.color") b → b = a) ∧
          samplePie.WrittenAt (samplePie.assign "parts.+2.color" (.text "red")).2 a
            (.text "red")) ∧
        (samplePie.assign "parts.+2.color" (.text "red")).2.render.toOption =
          some "\x7btitle:\"Shares\",parts:[first,\x7b\x7d,\x7bcolor:\"red\"\x7d]\x7d" := by
  have htitle : ((Options.empty slicedPie).store "title" (.text "Shares")).WellTypedOver
      fun _ => True :=
    (WellTypedOver.empty trivial).store rfl rfl (.of_nodes_nil trivial rfl)
  have hpie : samplePie.WellTypedOver fun _ => True :=
    htitle.store rfl rfl (.of_nodes_nil trivial rfl)
  have hok : (samplePie.assign "parts.+2.color" (.text "red")).1 = .ok () := by rfl
  exact ⟨hpie.wellTyped, hok, assign_writes_address _ _ _ hpie.wellTyped hok, by decide +kernel⟩

end Options

end ChartScript
