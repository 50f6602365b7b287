import ChartScript.Proofs.Options.Address
import ChartScript.Proofs.Options.Building
import ChartScript.Proofs.Options.Vacancy
import ChartScript.Proofs.Schema.Agreement
import ChartScript.Proofs.Script.ToldApart

/-!
# Equal trees and their texts

Trees compare equal when their schemas have one name and the assigned values compare equal, numbers
as numbers. Their texts say more: the order and the defaults of the fields, which come from the
schemas themselves, and the sign of a zero. Where schemas of one name are laid out alike, equal
trees have contents that differ at most in signs of zeros, and their texts tell such contents apart.
So they have one text exactly when they hold the same numbers, signs included.
-/

namespace ChartScript

mutual

/-- The numbers of a value, also in the nodes below it, one after another. -/
def OptionValue.numbers : OptionValue → List Binary64
  | .number value => [value]
  | .list items => OptionValue.itemNumbers items
  | .object options => options.numbers
  | .indexed entries => Options.labelledNumbers entries
  | _ => []

/-- The numbers of a tree. -/
def Options.numbers : Options → List Binary64
  | ⟨_, entries⟩ => Options.entryNumbers entries

/-- The numbers of items. -/
def OptionValue.itemNumbers : List OptionValue → List Binary64
  | [] => []
  | item :: rest => item.numbers ++ OptionValue.itemNumbers rest

/-- The numbers of labelled nodes. -/
def Options.labelledNumbers : List (UInt32 × Options) → List Binary64
  | [] => []
  | (_, options) :: rest => options.numbers ++ Options.labelledNumbers rest

/-- The numbers of assigned values. -/
def Options.entryNumbers : List (String × OptionValue) → List Binary64
  | [] => []
  | (_, value) :: rest => value.numbers ++ Options.entryNumbers rest

end

/-- How the objects of a schema are laid out: the names of the fields in order, and the defaults. -/
def Schema.layout (s : Schema) : List (String × Option FieldDefault) :=
  s.fields.map fun spec => (spec.name, spec.default)

/-- Where nodes of two trees stand in the same place, schemas of one name are laid out alike. -/
def Options.LaidOutAlike (a b : Options) : Prop :=
  ∀ steps n m, a.descend? steps = some n → b.descend? steps = some m →
    n.schema.name = m.schema.name → n.schema.layout = m.schema.layout

/-- The numbers of items, one by one. -/
theorem OptionValue.itemNumbers_eq_flatMap (items : List OptionValue) :
    OptionValue.itemNumbers items = items.flatMap OptionValue.numbers := by
  induction items with
  | nil => rfl
  | cons item rest ih => rw [itemNumbers, ih, List.flatMap_cons]

/-- The numbers of labelled nodes, one by one. -/
theorem Options.labelledNumbers_eq_flatMap (entries : List (UInt32 × Options)) :
    Options.labelledNumbers entries = entries.flatMap fun entry => entry.2.numbers := by
  induction entries with
  | nil => rfl
  | cons entry rest ih => rw [labelledNumbers, ih, List.flatMap_cons]

/-- The numbers of a tree, value by value. -/
theorem Options.numbers_eq_flatMap (options : Options) :
    options.numbers = options.entries.flatMap fun entry => entry.2.numbers := by
  obtain ⟨schema, entries⟩ := options
  rw [numbers]
  induction entries with
  | nil => rfl
  | cons entry rest ih => rw [entryNumbers, ih, List.flatMap_cons]

mutual

/-- A vacant value holds no number. -/
theorem OptionValue.numbers_of_isVacant : (value : OptionValue) → value.isVacant = true →
    value.numbers = []
  | .object options, h => by
    rw [OptionValue.isVacant] at h
    rw [OptionValue.numbers, Options.numbers_of_isVacant options h]
  | .indexed [], _ => by
    rw [OptionValue.numbers, Options.labelledNumbers]
  | .flag _, h | .number _, h | .text _, h | .moment _, h | .code _, h | .list _, h
  | .indexed (_ :: _), h => by
    simp [OptionValue.isVacant] at h

/-- A vacant tree holds no number. -/
theorem Options.numbers_of_isVacant : (options : Options) → options.isVacant = true →
    options.numbers = []
  | ⟨_, entries⟩, h => by
    rw [Options.isVacant] at h
    rw [Options.numbers, Options.entryNumbers_of_entriesVacant entries h]

/-- Vacant values hold no number. -/
theorem Options.entryNumbers_of_entriesVacant : (entries : List (String × OptionValue)) →
    Options.entriesVacant entries = true → Options.entryNumbers entries = []
  | [], _ => by rw [Options.entryNumbers]
  | (_, value) :: rest, h => by
    rw [Options.entriesVacant, Bool.and_eq_true] at h
    rw [Options.entryNumbers, OptionValue.numbers_of_isVacant value h.1,
      Options.entryNumbers_of_entriesVacant rest h.2, List.append_nil]

end

section Pairs

variable {α β γ : Type} {f : α → List γ} {g : β → List γ} {xs : List α} {ys : List β}

/-- Lists of images are the same when the images are, pair by pair. -/
theorem map_eq_map_iff_forall₂ {f : α → γ} {g : β → γ} :
    xs.map f = ys.map g ↔ List.Forall₂ (fun x y => f x = g y) xs ys := by
  rw [← List.forall₂_eq_eq_eq, List.forall₂_map_left_iff, List.forall₂_map_right_iff]

/-- Two relations that agree on pairs hold of the same lists. -/
theorem forall₂_congr_of_forall₂ {R P Q : α → β → Prop} (h : List.Forall₂ R xs ys)
    (hPQ : ∀ x y, R x y → (P x y ↔ Q x y)) : List.Forall₂ P xs ys ↔ List.Forall₂ Q xs ys := by
  induction h with
  | nil => exact iff_of_true .nil .nil
  | cons hfirst _ ih => rw [List.forall₂_cons, List.forall₂_cons, hPQ _ _ hfirst, ih]

/-- Parts of the same lengths make one list when they are the same, pair by pair. -/
theorem flatMap_eq_flatMap_iff (h : List.Forall₂ (fun x y => (f x).length = (g y).length) xs ys) :
    xs.flatMap f = ys.flatMap g ↔ List.Forall₂ (fun x y => f x = g y) xs ys := by
  induction h with
  | nil => exact iff_of_true rfl .nil
  | cons hlength _ ih =>
    rw [List.flatMap_cons, List.flatMap_cons, List.forall₂_cons,
      List.append_eq_append_iff_of_size_eq_left hlength, ih]

/-- What is selected from a list is the same when it is for every item, provided that the same items
are selected. -/
theorem filterMap_eq_filterMap_iff {f g : α → Option β} {R : β → β → Prop}
    (h : ∀ x ∈ xs, Option.Rel R (f x) (g x)) :
    xs.filterMap f = xs.filterMap g ↔ ∀ x ∈ xs, f x = g x := by
  induction xs with
  | nil => simp
  | cons x rest ih =>
    obtain ⟨hx, hrest⟩ := List.forall_mem_cons.mp h
    rw [List.forall_mem_cons, ← ih hrest]
    cases hf : f x <;> cases hg : g x <;> rw [hf, hg] at hx <;> cases hx
    · simp [hf, hg]
    · simp [hf, hg]

end Pairs

namespace OptionValue

/-- Two values agree but for the signs of zeros: they are vacant together, what is written of them
is told apart by its text, and it is the same exactly when their numbers are. -/
structure Agree (v w : OptionValue) : Prop where
  isVacant : v.isVacant = w.isVacant
  toldApart : v.content.ToldApart w.content
  content_iff : v.content = w.content ↔ v.numbers = w.numbers
  numbers : List.Forall₂ (fun x y => x.sameValue y = true) v.numbers w.numbers

/-- A value without numbers agrees with itself. -/
theorem agree_self {value : OptionValue} (h : value.numbers = []) : value.Agree value where
  isVacant := rfl
  toldApart := Literal.toldApart_self _
  content_iff := iff_of_true rfl rfl
  numbers := by
    rw [h]
    exact .nil

/-- Numbers that compare equal agree. -/
theorem agree_number {x y : Binary64} (h : x.sameValue y = true) :
    (number x).Agree (number y) where
  isVacant := rfl
  toldApart := Literal.toldApart_number h
  content_iff := by
    simp [content, numbers]
  numbers := .cons h .nil

/-- Values that compare equal agree, or have nodes or items below that compare equal. -/
theorem same_cases {v w : OptionValue} (h : v.same w = true) :
    v.Agree w ∨ (∃ a b, v = object a ∧ w = object b ∧ a.same b = true) ∨
      (∃ es fs, v = indexed es ∧ w = indexed fs ∧ sameLabelled es fs = true) ∨
        ∃ xs ys, v = list xs ∧ w = list ys ∧ sameItems xs ys = true := by
  cases v with
  | flag a =>
    cases w <;> simp only [same, Bool.false_eq_true, beq_iff_eq] at h
    exact .inl (h ▸ agree_self rfl)
  | number a =>
    cases w <;> simp only [same, Bool.false_eq_true] at h
    exact .inl (agree_number h)
  | text a =>
    cases w <;> simp only [same, Bool.false_eq_true, beq_iff_eq] at h
    exact .inl (h ▸ agree_self rfl)
  | moment a =>
    cases w <;> simp only [same, Bool.false_eq_true, beq_iff_eq] at h
    exact .inl (h ▸ agree_self rfl)
  | code a =>
    cases w <;> simp only [same, Bool.false_eq_true, beq_iff_eq] at h
    exact .inl (h ▸ agree_self rfl)
  | list xs =>
    cases w <;> simp only [same, Bool.false_eq_true] at h
    exact .inr (.inr (.inr ⟨xs, _, rfl, rfl, h⟩))
  | object a =>
    cases w <;> simp only [same, Bool.false_eq_true] at h
    exact .inr (.inl ⟨a, _, rfl, rfl, h⟩)
  | indexed es =>
    cases w <;> simp only [same, Bool.false_eq_true] at h
    exact .inr (.inr (.inl ⟨es, _, rfl, rfl, h⟩))

/-- Lists that compare equal have items that do. -/
theorem forall₂_of_sameItems {xs ys : List OptionValue} (h : sameItems xs ys = true) :
    List.Forall₂ (fun v w => v.same w = true) xs ys := by
  induction xs generalizing ys with
  | nil =>
    cases ys with
    | nil => exact .nil
    | cons y ys => simp [sameItems] at h
  | cons x xs ih =>
    cases ys with
    | nil => simp [sameItems] at h
    | cons y ys =>
      rw [sameItems, Bool.and_eq_true] at h
      exact .cons h.1 (ih h.2)

/-- Collections that compare equal have the same labels, and nodes that compare equal. -/
theorem forall₂_of_sameLabelled {es fs : List (UInt32 × Options)} (h : sameLabelled es fs = true) :
    List.Forall₂ (fun e f => e.1 = f.1 ∧ e.2.same f.2 = true) es fs := by
  induction es generalizing fs with
  | nil =>
    cases fs with
    | nil => exact .nil
    | cons f fs => simp [sameLabelled] at h
  | cons e es ih =>
    obtain ⟨key, value⟩ := e
    cases fs with
    | nil => simp [sameLabelled] at h
    | cons f fs =>
      obtain ⟨key', value'⟩ := f
      simp only [sameLabelled, Bool.and_eq_true, beq_iff_eq] at h
      exact .cons h.1 (ih h.2)

/-- Entries that compare equal assign to the same fields values that compare equal. -/
theorem forall₂_of_sameEntries {es fs : List (String × OptionValue)}
    (h : Options.sameEntries es fs = true) :
    List.Forall₂ (fun e f => e.1 = f.1 ∧ e.2.same f.2 = true) es fs := by
  induction es generalizing fs with
  | nil =>
    cases fs with
    | nil => exact .nil
    | cons f fs => simp [Options.sameEntries] at h
  | cons e es ih =>
    obtain ⟨key, value⟩ := e
    cases fs with
    | nil => simp [Options.sameEntries] at h
    | cons f fs =>
      obtain ⟨key', value'⟩ := f
      simp only [Options.sameEntries, Bool.and_eq_true, beq_iff_eq] at h
      exact .cons h.1 (ih h.2)

/-- Lists agree whose items do. -/
theorem agree_list {xs ys : List OptionValue} (h : List.Forall₂ Agree xs ys) :
    (list xs).Agree (list ys) where
  isVacant := rfl
  toldApart := by
    rw [content, content, itemContents_eq_map, itemContents_eq_map]
    refine Literal.toldApart_array ?_
    rw [List.forall₂_map_left_iff, List.forall₂_map_right_iff]
    exact h.imp fun _ _ hpair => hpair.toldApart
  content_iff := by
    rw [content, content, numbers, numbers, Literal.array.injEq, itemContents_eq_map,
      itemContents_eq_map, itemNumbers_eq_flatMap, itemNumbers_eq_flatMap, map_eq_map_iff_forall₂,
      flatMap_eq_flatMap_iff (h.imp fun _ _ hpair => hpair.numbers.length_eq),
      forall₂_congr_of_forall₂ h fun _ _ hpair => hpair.content_iff]
  numbers := by
    rw [numbers, numbers, itemNumbers_eq_flatMap, itemNumbers_eq_flatMap]
    exact List.rel_flatMap (h.imp fun _ _ hpair => hpair.numbers) fun _ _ hpair => hpair

/-- Collections agree that have the same labels, and nodes that agree. -/
theorem agree_indexed {es fs : List (UInt32 × Options)}
    (h : List.Forall₂ (fun e f => e.1 = f.1 ∧ (object e.2).Agree (object f.2)) es fs) :
    (indexed es).Agree (indexed fs) where
  isVacant := by
    cases h <;> rfl
  toldApart := by
    rw [content, content, Options.entryContents_eq_map, Options.entryContents_eq_map]
    refine Literal.toldApart_object ?_
    rw [List.forall₂_map_left_iff, List.forall₂_map_right_iff]
    exact h.imp fun _ _ hpair => ⟨congrArg Key.label hpair.1, hpair.2.toldApart⟩
  content_iff := by
    have hlengths : List.Forall₂ (fun e f => e.2.numbers.length = f.2.numbers.length) es fs :=
      h.imp fun _ _ hpair => hpair.2.numbers.length_eq
    rw [content, content, numbers, numbers, Literal.object.injEq, Options.entryContents_eq_map,
      Options.entryContents_eq_map, Options.labelledNumbers_eq_flatMap,
      Options.labelledNumbers_eq_flatMap, map_eq_map_iff_forall₂, flatMap_eq_flatMap_iff hlengths]
    refine forall₂_congr_of_forall₂ h fun _ _ hpair => ?_
    rw [Prod.mk.injEq, Key.label.injEq, and_iff_right hpair.1]
    exact hpair.2.content_iff
  numbers := by
    rw [numbers, numbers, Options.labelledNumbers_eq_flatMap, Options.labelledNumbers_eq_flatMap]
    exact List.rel_flatMap (h.imp fun _ _ hpair => hpair.2.numbers) fun _ _ hpair => hpair

end OptionValue

namespace Options

variable {a b : Options}

/-- Which fields have something to say, and their defaults, is said by the layout of the schema. -/
theorem filterMap_said_of_layout {s t : Schema} (h : s.layout = t.layout) (options : Options) :
    s.fields.filterMap options.said = t.fields.filterMap options.said := by
  -- the kind of a field does not matter to what is said
  have hlayout (u : Schema) : u.fields.filterMap options.said =
      u.layout.filterMap fun field => options.said ⟨field.1, .code, field.2⟩ := by
    rw [Schema.layout, List.filterMap_map]
    rfl
  rw [hlayout, hlayout, h]

/-- What is said for a field of two nodes is the same if the numbers of the values are, and only
then. -/
theorem said_eq_iff {spec : FieldSpec Schema} {v w : OptionValue} (ha : a.get? spec.name = some v)
    (hb : b.get? spec.name = some w) (h : v.Agree w) :
    a.said spec = b.said spec ↔ v.numbers = w.numbers := by
  rw [said_of_get? ha, said_of_get? hb, h.isVacant, ← h.content_iff]
  split
  · rename_i hvacant
    rw [h.content_iff, v.numbers_of_isVacant (h.isVacant.trans hvacant),
      w.numbers_of_isVacant hvacant]
    exact iff_of_true rfl rfl
  · simp

/-- Two nodes that are laid out alike and assign values that agree to the same fields. -/
structure Paired (a b : Options) : Prop where
  ordered : a.Ordered ∧ b.Ordered
  fitting : a.Fitting
  layout : b.schema.layout = a.schema.layout
  keys : a.entries.map (·.1) = b.entries.map (·.1)
  values : ∀ field v w, a.get? field = some v → b.get? field = some w → v.Agree w

namespace Paired

/-- A field is assigned in both nodes or in neither. -/
theorem get?_cases (h : Paired a b) (field : String) :
    (a.get? field = none ∧ b.get? field = none) ∨
      ∃ v w, a.get? field = some v ∧ b.get? field = some w ∧ v.Agree w := by
  have hsome : (a.get? field).isSome = (b.get? field).isSome := by
    rw [get?, get?, Bool.eq_iff_iff, Keyed.isSome_find?, Keyed.isSome_find?, h.keys]
  cases hv : a.get? field with
  | none =>
    rw [hv, Option.isSome_none] at hsome
    exact .inl ⟨rfl, Option.not_isSome_iff_eq_none.mp (Bool.eq_false_iff.mp hsome.symm)⟩
  | some v =>
    rw [hv, Option.isSome_some] at hsome
    obtain ⟨w, hw⟩ := Option.isSome_iff_exists.mp hsome.symm
    exact .inr ⟨v, w, rfl, hw, h.values field v w hv hw⟩

/-- The entries agree pair by pair. -/
theorem entries_agree (h : Paired a b) :
    List.Forall₂ (fun e f => e.2.Agree f.2) a.entries b.entries :=
  (Keyed.forall₂_iff_find? h.ordered.1.1 h.keys).mpr h.values

/-- The nodes are vacant together. -/
theorem isVacant_eq (h : Paired a b) : a.isVacant = b.isVacant := by
  rw [Bool.eq_iff_iff, isVacant_iff h.ordered.1.1, isVacant_iff h.ordered.2.1]
  refine forall_congr' fun field => ?_
  rcases h.get?_cases field with ⟨hv, hw⟩ | ⟨v, w, hv, hw, hagree⟩
  · simp [hv, hw]
  · simp [hv, hw, hagree.isVacant]

/-- What the nodes have to say for a field is told apart. -/
theorem said_toldApart (h : Paired a b) (spec : FieldSpec Schema) :
    Option.Rel Literal.MembersToldApart (a.said spec) (b.said spec) := by
  rcases h.get?_cases spec.name with ⟨hv, hw⟩ | ⟨v, w, hv, hw, hagree⟩
  · rw [said_of_get?_eq_none hv, said_of_get?_eq_none hw]
    cases spec.default with
    | none => exact .none
    | some value => exact .some ⟨rfl, Literal.toldApart_self _⟩
  · rw [said_of_get? hv, said_of_get? hw, hagree.isVacant]
    split
    · exact .none
    · exact .some ⟨rfl, hagree.toldApart⟩

/-- The nodes have the same numbers if the values of each field do. -/
theorem numbers_iff (h : Paired a b) : a.numbers = b.numbers ↔
    ∀ field v w, a.get? field = some v → b.get? field = some w → v.numbers = w.numbers := by
  rw [numbers_eq_flatMap, numbers_eq_flatMap, flatMap_eq_flatMap_iff
    (h.entries_agree.imp fun _ _ hpair => hpair.numbers.length_eq)]
  exact Keyed.forall₂_iff_find? (R := fun v w => v.numbers = w.numbers) h.ordered.1.1 h.keys

/-- What is written of them is the same if the values of each field have the same numbers. -/
theorem content_iff (h : Paired a b) : a.content = b.content ↔
    ∀ field v w, a.get? field = some v → b.get? field = some w → v.numbers = w.numbers := by
  rw [content_eq_object, content_eq_object, Literal.object.injEq, filterMap_said_of_layout h.layout,
    filterMap_eq_filterMap_iff fun spec _ => h.said_toldApart spec]
  constructor
  · intro hsaid field v w hv hw
    obtain ⟨declared, hdeclared, _⟩ := h.fitting _ (Keyed.mem_of_find?_eq_some hv)
    obtain ⟨spec, hspec, rfl⟩ := Schema.exists_mem_fields_of_field? hdeclared
    exact (said_eq_iff hv hw (h.values _ v w hv hw)).mp (hsaid spec hspec)
  · intro hnumbers spec _
    rcases h.get?_cases spec.name with ⟨hv, hw⟩ | ⟨v, w, hv, hw, hagree⟩
    · rw [said_of_get?_eq_none hv, said_of_get?_eq_none hw]
    · exact (said_eq_iff hv hw hagree).mpr (hnumbers _ v w hv hw)

/-- The nodes agree. -/
theorem agree (h : Paired a b) : (OptionValue.object a).Agree (.object b) where
  isVacant := h.isVacant_eq
  toldApart := by
    rw [OptionValue.content, OptionValue.content, content_eq_object, content_eq_object,
      filterMap_said_of_layout h.layout]
    exact Literal.toldApart_object (List.rel_filterMap (R := Eq)
      (fun spec _ heq => heq ▸ h.said_toldApart spec) (List.forall₂_same.mpr fun _ _ => rfl))
  content_iff := by
    rw [OptionValue.content, OptionValue.content, OptionValue.numbers, OptionValue.numbers,
      h.content_iff, h.numbers_iff]
  numbers := by
    rw [OptionValue.numbers, OptionValue.numbers, numbers_eq_flatMap, numbers_eq_flatMap]
    exact List.rel_flatMap (h.entries_agree.imp fun _ _ hpair => hpair.numbers)
      fun _ _ hpair => hpair

end Paired

end Options

namespace OptionValue

/-- The items of a list that fits are no lists or collections themselves. -/
theorem item_of_fits {items : List OptionValue} {kind : FieldKind Schema}
    (hfits : (list items).fits kind = true) {item : OptionValue} (hitem : item ∈ items) :
    (∀ es, item ≠ indexed es) ∧ ∀ xs, item ≠ list xs := by
  cases kind with
  | objectList declared =>
    rcases fits_objectList.mp hfits item hitem with ⟨node, rfl, _⟩ | ⟨source, rfl⟩ <;> simp
  | scalarList kind =>
    have hitem := List.all_eq_true.mp hfits item hitem
    constructor <;> rintro _ rfl <;> cases hitem
  | _ => cases hfits

/-- Values that compare equal agree, if the nodes do that a step leads to in both. -/
theorem agree_of_same {v w : OptionValue} {kind : FieldKind Schema} (hfits : v.fits kind = true)
    (hordered : v.Ordered ∧ w.Ordered) (hsame : v.same w = true) (field : String)
    (hnodes : ∀ step n m, step.field = field → v.below? step = some n → w.below? step = some m →
      n.same m = true → (object n).Agree (object m)) : v.Agree w := by
  rcases same_cases hsame with hagree | ⟨a, b, rfl, rfl, hbelow⟩ | ⟨es, fs, rfl, rfl, hbelow⟩ |
    ⟨xs, ys, rfl, rfl, hbelow⟩
  · exact hagree
  · exact hnodes (.object field) a b rfl rfl rfl hbelow
  · obtain ⟨hlabels, hfound⟩ := (Keyed.forall₂_key_iff_find? (R := fun n m => n.same m = true)
      hordered.1).mp (forall₂_of_sameLabelled hbelow)
    exact agree_indexed ((Keyed.forall₂_key_iff_find? (R := fun n m => (object n).Agree (object m))
      hordered.1).mpr ⟨hlabels, fun label n m hn hm =>
        hnodes (.entry field label) n m rfl hn hm (hfound label n m hn hm)⟩)
  · obtain ⟨hlength, hitems⟩ := List.forall₂_iff_get.mp (forall₂_of_sameItems hbelow)
    refine agree_list (List.forall₂_iff_get.mpr ⟨hlength, fun i hi hi' => ?_⟩)
    obtain ⟨hcollection, hlist⟩ := item_of_fits hfits (List.get_mem xs ⟨i, hi⟩)
    rcases same_cases (hitems i hi hi') with hagree | ⟨n, m, hn, hm, hitem⟩ | ⟨es, _, hes, _⟩ |
      ⟨items, _, hitems, _⟩
    · exact hagree
    · rw [hn, hm]
      refine hnodes (.item field i) n m rfl ?_ ?_ hitem
      · rw [below?, List.getElem?_eq_getElem hi]
        exact congrArg object? hn
      · rw [below?, List.getElem?_eq_getElem hi']
        exact congrArg object? hm
    · exact absurd hes (hcollection es)
    · exact absurd hitems (hlist items)

end OptionValue

namespace Options

variable {a b : Options}

/-- Nodes in one place below trees that are laid out alike are laid out alike. -/
theorem LaidOutAlike.below (h : a.LaidOutAlike b) {step : Step} {n m : Options}
    (hn : a.below? step = some n) (hm : b.below? step = some m) : n.LaidOutAlike m := by
  intro steps n' m' hn' hm'
  refine h (step :: steps) n' m' ?_ ?_
  · rw [descend?, hn]
    exact hn'
  · rw [descend?, hm]
    exact hm'

/-- Trees that compare equal agree, if they are laid out alike. -/
theorem WellTyped.agree_of_same (ha : a.WellTyped) (hb : b.WellTyped) (hsame : a.same b = true)
    (hlayout : a.LaidOutAlike b) : (OptionValue.object a).Agree (.object b) := by
  induction ha generalizing b with
  | @intro a here below ih =>
    obtain ⟨hordered, hfitting⟩ := here
    obtain ⟨hname, hentries⟩ : a.schema.name = b.schema.name ∧
        sameEntries a.entries b.entries = true := by
      obtain ⟨schema, entries⟩ := a
      rwa [same, Bool.and_eq_true, beq_iff_eq] at hsame
    obtain ⟨hkeys, hfound⟩ := (Keyed.forall₂_key_iff_find? (R := fun v w => v.same w = true)
      hordered.1).mp (OptionValue.forall₂_of_sameEntries hentries)
    refine Paired.agree ⟨⟨hordered, hb.here.1⟩, hfitting, (hlayout [] a b rfl rfl hname).symm,
      hkeys, fun field v w hv hw => ?_⟩
    obtain ⟨spec, _, hfits⟩ := hfitting _ (Keyed.mem_of_find?_eq_some hv)
    refine OptionValue.agree_of_same hfits ⟨hordered.2 _ (Keyed.mem_of_find?_eq_some hv),
      hb.here.1.2 _ (Keyed.mem_of_find?_eq_some hw)⟩ (hfound field v w hv hw) field
      fun step n m hstep hn hm hnodes => ?_
    subst hstep
    have hbelow : a.below? step = some n := by rw [below?, hv]; exact hn
    have hbelow' : b.below? step = some m := by rw [below?, hw]; exact hm
    exact ih n (mem_children_of_below? hbelow) (hb.of_mem (mem_children_of_below? hbelow')) hnodes
      (hlayout.below hbelow hbelow')

/-- Built trees that compare equal, and whose schemas are laid out alike where they have one name,
hold the same numbers but for the signs of zeros; they have one text exactly when these signs are
the same as well. Trees built over schemas that repeat no field in a list of their own do have
texts. -/
theorem render_eq_iff_of_same (a b : Options) (ha : a.Built fun _ => True)
    (hb : b.Built fun _ => True) (hsame : a.same b = true) (hlayout : a.LaidOutAlike b) :
    List.Forall₂ (fun x y => x = y ∨ ∃ s t, x = .finite s .zero ∧ y = .finite t .zero)
        a.numbers b.numbers ∧
      (∀ s t, a.render = .ok s → b.render = .ok t → (s = t ↔ a.numbers = b.numbers)) ∧
        (a.Built Schema.RepeatFree → b.Built Schema.RepeatFree →
          ∃ s t, a.render = .ok s ∧ b.render = .ok t) := by
  have hwell {options : Options} (h : options.Built fun _ => True) : options.WellTyped :=
    (h.wellTypedOver fun _ _ _ _ _ _ _ => trivial).wellTyped
  have hagree := (hwell ha).agree_of_same (hwell hb) hsame hlayout
  refine ⟨hagree.numbers.imp fun _ _ => Binary64.eq_of_sameValue, fun s t hs ht => ?_,
    fun ha' hb' => ⟨_, _, ha'.unrepeated.render_eq_ok, hb'.unrepeated.render_eq_ok⟩⟩
  rw [eq_spell_of_render hs, eq_spell_of_render ht]
  exact hagree.toldApart.spell_inj.trans hagree.content_iff

/-- Marks with a place and a label. -/
def mark : Schema :=
  ⟨.custom 0, "Mark", none, [Catalog.number "place", Catalog.text "label"]⟩

/-- Marks of the same name that are written with the label first. -/
def labelledMark : Schema :=
  ⟨.custom 1, "Mark", none, [Catalog.text "label", Catalog.number "place"]⟩

/-- Marks of the same name whose place may have a unit. -/
def sizedMark : Schema :=
  ⟨.custom 2, "Mark", none, [Catalog.size "place", Catalog.text "label"]⟩

/-- The mark at a zero, which may be negative. -/
def markAtZero (schema : Schema) (negative : Bool) : Options :=
  Edit.runAll [.set "place" (.number (.finite negative .zero)), .set "label" (.text "origin")]
    (.empty schema)

/-- The mark is built. -/
theorem built_markAtZero {P : Schema → Prop} {schema : Schema} (h : P schema) (negative : Bool) :
    (markAtZero schema negative).Built P := by
  refine (Built.empty h).edits _ (fun value hvalue => ?_) fun value hvalue node hnode => ?_ <;>
    simp only [Edit.allValues, Edit.values, List.append_nil, List.cons_append, List.nil_append,
      List.mem_cons, List.not_mem_nil, or_false] at hvalue
  · rcases hvalue with rfl | rfl <;> trivial
  · rcases hvalue with rfl | rfl <;> cases hnode

/-- Trees without nodes below their roots are laid out alike when their schemas are. -/
theorem laidOutAlike_of_children_eq_nil (h : a.schema.layout = b.schema.layout)
    (hchildren : a.children = []) : a.LaidOutAlike b := by
  intro steps n m hn hm _
  cases steps with
  | nil => exact Option.some.inj hn ▸ Option.some.inj hm ▸ h
  | cons step rest =>
    obtain ⟨child, hchild, _⟩ := Option.bind_eq_some_iff.mp hn
    have hmem := mem_children_of_below? hchild
    rw [hchildren] at hmem
    exact absurd hmem List.not_mem_nil

/-- Equal trees may have different texts: the sign of a zero shows, and so does the order in which
another schema of the same name has the fields. -/
theorem not_render_eq_of_same :
    (¬ ∀ a b : Options, a.Built (fun _ => True) → b.Built (fun _ => True) → a.same b = true →
        a.LaidOutAlike b → ∀ s t, a.render = .ok s → b.render = .ok t → s = t) ∧
      ¬ ∀ a b : Options, a.Built (fun _ => True) → b.Built (fun _ => True) → a.same b = true →
        a.numbers = b.numbers → ∀ s t, a.render = .ok s → b.render = .ok t → s = t := by
  have htext {options : Options} {text : String} (h : options.render.toOption = some text) :
      options.render = .ok text := toOption_eq_some.mp h
  constructor <;> intro hrender
  · have hsame := hrender (markAtZero mark false) (markAtZero mark true)
      (built_markAtZero trivial _) (built_markAtZero trivial _) (by decide +kernel)
      (laidOutAlike_of_children_eq_nil rfl rfl)
      "\x7bplace:0,label:\"origin\"\x7d" "\x7bplace:-0,label:\"origin\"\x7d"
      (htext (by decide +kernel)) (htext (by decide +kernel))
    exact absurd hsame (by decide)
  · have hsame := hrender (markAtZero mark false) (markAtZero labelledMark false)
      (built_markAtZero trivial _) (built_markAtZero trivial _) (by decide +kernel) rfl
      "\x7bplace:0,label:\"origin\"\x7d" "\x7blabel:\"origin\",place:0\x7d"
      (htext (by decide +kernel)) (htext (by decide +kernel))
    exact absurd hsame (by decide)

/-- Marks of two schemas have one text, until the zero changes its sign. -/
theorem render_eq_iff_of_same_marks :
    (markAtZero mark false).render = (markAtZero sizedMark false).render ∧
      (markAtZero mark false).render ≠ (markAtZero sizedMark true).render := by
  have hmark : mark.RepeatFree := Schema.throughout_of_checks (by decide)
  have hsized : sizedMark.RepeatFree := Schema.throughout_of_checks (by decide)
  have hmarks (negative : Bool) := render_eq_iff_of_same (markAtZero mark false)
    (markAtZero sizedMark negative) (built_markAtZero trivial _) (built_markAtZero trivial _)
    (by cases negative <;> decide +kernel) (laidOutAlike_of_children_eq_nil rfl rfl)
  constructor
  · obtain ⟨_, hiff, hwritten⟩ := hmarks false
    obtain ⟨s, t, hs, ht⟩ := hwritten (built_markAtZero hmark _) (built_markAtZero hsized _)
    rw [hs, ht, (hiff s t hs ht).mpr rfl]
  · obtain ⟨_, hiff, hwritten⟩ := hmarks true
    obtain ⟨s, t, hs, ht⟩ := hwritten (built_markAtZero hmark _) (built_markAtZero hsized _)
    rw [hs, ht]
    intro heq
    exact absurd ((hiff s t hs ht).mp (Except.ok.inj heq)) (by decide)

end Options

end ChartScript
