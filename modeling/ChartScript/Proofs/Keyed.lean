import ChartScript.Keyed
import Mathlib.Data.List.Forall2

/-!
# Keyed lists stay in order

What stands in a keyed list after a write or a removal, and that both keep the keys ascending. In
an ascending list a pair stands exactly where looking its key up finds its value, so statements
about members of such a list and statements about look-up say the same.
-/

namespace ChartScript.Keyed

variable {κ α : Type} [Ord κ]

/-- A write adds one pair and keeps only pairs that were there. -/
theorem mem_insert {key : κ} {value : α} {pairs : List (κ × α)} {pair : κ × α}
    (h : pair ∈ insert key value pairs) : pair = (key, value) ∨ pair ∈ pairs := by
  induction pairs with
  | nil => exact Or.inl (List.mem_singleton.mp h)
  | cons first rest ih =>
    obtain ⟨k, v⟩ := first
    simp only [insert] at h
    split at h
    · exact List.mem_cons.mp h
    · rcases List.mem_cons.mp h with rfl | hrest
      · exact Or.inl rfl
      · exact Or.inr (List.mem_cons_of_mem _ hrest)
    · rcases List.mem_cons.mp h with rfl | hrest
      · exact Or.inr List.mem_cons_self
      · exact (ih hrest).imp_right (List.mem_cons_of_mem _)

/-- What is found stands in the list, under a key that compares equal. -/
theorem mem_of_find? {key : κ} {value : α} {pairs : List (κ × α)}
    (h : find? key pairs = some value) : ∃ k, compare key k = .eq ∧ (k, value) ∈ pairs := by
  induction pairs with
  | nil => simp [find?] at h
  | cons first rest ih =>
    obtain ⟨k, v⟩ := first
    simp only [find?] at h
    split at h
    · rename_i heq
      simp only [Option.some.injEq] at h
      exact ⟨k, heq, by rw [h]; exact List.mem_cons_self⟩
    · obtain ⟨k', heq, hmem⟩ := ih h
      exact ⟨k', heq, List.mem_cons_of_mem _ hmem⟩

/-- Looking a key up after a change of all values finds the changed value. -/
theorem find?_map {β : Type} (f : α → β) (key : κ) (pairs : List (κ × α)) :
    find? key (pairs.map fun pair => (pair.1, f pair.2)) = (find? key pairs).map f := by
  induction pairs with
  | nil => rfl
  | cons first rest ih =>
    simp only [List.map_cons, find?]
    split
    · rfl
    · exact ih

/-- A write does not look at values. -/
theorem insert_map {β : Type} (f : α → β) (key : κ) (value : α) (pairs : List (κ × α)) :
    insert key (f value) (pairs.map fun pair => (pair.1, f pair.2)) =
      (insert key value pairs).map fun pair => (pair.1, f pair.2) := by
  induction pairs with
  | nil => rfl
  | cons first rest ih =>
    simp only [List.map_cons, insert]
    split
    · rfl
    · rfl
    · rw [ih, List.map_cons]

/-- Neither does putting pairs in order. -/
theorem ofList_map {β : Type} (f : α → β) (pairs : List (κ × α)) :
    ofList (pairs.map fun pair => (pair.1, f pair.2)) =
      (ofList pairs).map fun pair => (pair.1, f pair.2) := by
  have hfold : ∀ (pairs acc : List (κ × α)),
      (pairs.map fun pair => (pair.1, f pair.2)).foldl (fun acc p => insert p.1 p.2 acc)
          (acc.map fun pair => (pair.1, f pair.2)) =
        (pairs.foldl (fun acc p => insert p.1 p.2 acc) acc).map fun pair => (pair.1, f pair.2) := by
    intro pairs
    induction pairs with
    | nil => exact fun _ => rfl
    | cons first rest ih =>
      intro acc
      rw [List.map_cons, List.foldl_cons, List.foldl_cons, ← ih, ← insert_map]
  exact hfold pairs []

/-- A write at a new key adds a pair. -/
theorem perm_insert {key : κ} (value : α) {pairs : List (κ × α)}
    (h : ∀ pair ∈ pairs, compare key pair.1 ≠ .eq) :
    (insert key value pairs).Perm ((key, value) :: pairs) := by
  induction pairs with
  | nil => exact .refl _
  | cons first rest ih =>
    obtain ⟨hfirst, hrest⟩ := List.forall_mem_cons.mp h
    simp only [insert]
    split
    · exact .refl _
    · rename_i heq
      exact absurd heq hfirst
    · exact ((ih hrest).cons first).trans (.swap ..)

/-- A removal only takes pairs away. -/
theorem mem_of_mem_erase {key : κ} {pairs : List (κ × α)} {pair : κ × α}
    (h : pair ∈ erase key pairs) : pair ∈ pairs := by
  induction pairs with
  | nil => exact h
  | cons first rest ih =>
    obtain ⟨k, v⟩ := first
    simp only [erase] at h
    split at h
    · exact List.mem_cons_of_mem _ h
    · rcases List.mem_cons.mp h with rfl | hrest
      · exact List.mem_cons_self
      · exact List.mem_cons_of_mem _ (ih hrest)

/-- Keys ascend in the empty list. -/
theorem ascending_nil : Ascending ([] : List (κ × α)) := List.Pairwise.nil

/-- A removal keeps the keys ascending. -/
theorem ascending_erase {pairs : List (κ × α)} (key : κ) (h : Ascending pairs) :
    Ascending (erase key pairs) := by
  induction pairs with
  | nil => exact h
  | cons first rest ih =>
    obtain ⟨k, v⟩ := first
    obtain ⟨hfirst, hrest⟩ := List.pairwise_cons.mp h
    simp only [erase]
    split
    · exact hrest
    · exact List.pairwise_cons.mpr
        ⟨fun pair hpair => hfirst pair (mem_of_mem_erase hpair), ih hrest⟩

/-- The pairs of a map are among those it is made of. -/
theorem mem_ofList {pairs : List (κ × α)} {pair : κ × α} (h : pair ∈ ofList pairs) :
    pair ∈ pairs := by
  have hfold : ∀ (pairs acc : List (κ × α)),
      pair ∈ pairs.foldl (fun acc p => insert p.1 p.2 acc) acc → pair ∈ acc ∨ pair ∈ pairs := by
    intro pairs
    induction pairs with
    | nil => exact fun acc hmem => Or.inl hmem
    | cons first rest ih =>
      intro acc hmem
      rcases ih _ hmem with hacc | hrest
      · rcases mem_insert hacc with rfl | hacc
        · exact Or.inr List.mem_cons_self
        · exact Or.inl hacc
      · exact Or.inr (List.mem_cons_of_mem _ hrest)
  rcases hfold pairs [] h with hnil | hmem
  · exact absurd hnil List.not_mem_nil
  · exact hmem

variable [Std.LawfulEqOrd κ]

/-- What is found stands in the list. -/
theorem mem_of_find?_eq_some {key : κ} {value : α} {pairs : List (κ × α)}
    (h : find? key pairs = some value) : (key, value) ∈ pairs := by
  obtain ⟨k, heq, hmem⟩ := mem_of_find? h
  rw [Std.LawfulEqOrd.eq_of_compare heq]
  exact hmem

/-- A key is found when it is one of the keys. -/
theorem isSome_find? {key : κ} {pairs : List (κ × α)} :
    (find? key pairs).isSome = true ↔ key ∈ pairs.map (·.1) := by
  induction pairs with
  | nil => simp [find?]
  | cons first rest ih =>
    rw [find?, List.map_cons, List.mem_cons, ← ih]
    split
    · rename_i heq
      exact iff_of_true rfl (.inl (Std.LawfulEqOrd.eq_of_compare heq))
    · rename_i hne
      rw [or_iff_right fun heq => hne (Std.LawfulEqOrd.compare_eq_iff_eq.mpr heq)]

/-- A removal leaves every other key as it was. -/
theorem find?_erase_of_ne {key other : κ} (h : other ≠ key) (pairs : List (κ × α)) :
    find? other (erase key pairs) = find? other pairs := by
  induction pairs with
  | nil => rfl
  | cons first rest ih =>
    obtain ⟨k, v⟩ := first
    simp only [erase]
    split
    · rename_i heq
      obtain rfl := Std.LawfulEqOrd.eq_of_compare heq
      rw [find?, if_neg fun hother => h (Std.LawfulEqOrd.eq_of_compare hother)]
    · simp only [find?, ih]

/-- In an ascending list nothing is found at a key that has been removed. -/
theorem find?_erase_self {key : κ} {pairs : List (κ × α)} (h : Ascending pairs) :
    find? key (erase key pairs) = none := by
  induction pairs with
  | nil => rfl
  | cons first rest ih =>
    obtain ⟨k, v⟩ := first
    obtain ⟨hfirst, hrest⟩ := List.pairwise_cons.mp h
    simp only [erase]
    split
    · rename_i heq
      obtain rfl := Std.LawfulEqOrd.eq_of_compare heq
      rw [← Option.not_isSome_iff_eq_none, isSome_find?]
      intro hmem
      obtain ⟨pair, hpair, rfl⟩ := List.mem_map.mp hmem
      have hlt := hfirst pair hpair
      rw [Std.LawfulEqOrd.compare_eq_iff_eq.mpr rfl] at hlt
      cases hlt
    · rename_i hne
      rw [find?, if_neg hne, ih hrest]

variable [Std.TransOrd κ]

/-- A pair of an ascending list is found by its key. -/
theorem find?_of_mem {key : κ} {value : α} {pairs : List (κ × α)} (h : Ascending pairs)
    (hmem : (key, value) ∈ pairs) : find? key pairs = some value := by
  induction pairs with
  | nil => exact absurd hmem List.not_mem_nil
  | cons first rest ih =>
    obtain ⟨k, v⟩ := first
    obtain ⟨hfirst, hrest⟩ := List.pairwise_cons.mp h
    rcases List.mem_cons.mp hmem with heq | hmem
    · cases heq
      rw [find?, if_pos Std.ReflCmp.compare_self]
    · have hgt : compare key k = .gt := Std.OrientedCmp.gt_of_lt (hfirst _ hmem)
      rw [find?, hgt, if_neg (by decide), ih hrest hmem]

/-- Values of lists with the same keys are related pair by pair when they are under each key. -/
theorem forall₂_iff_find? {β : Type} {R : α → β → Prop} {pairs : List (κ × α)}
    {others : List (κ × β)} (h : Ascending pairs) (hkeys : pairs.map (·.1) = others.map (·.1)) :
    List.Forall₂ (fun p q => R p.2 q.2) pairs others ↔
      ∀ key v w, find? key pairs = some v → find? key others = some w → R v w := by
  induction pairs generalizing others with
  | nil =>
    obtain rfl := List.map_eq_nil_iff.mp hkeys.symm
    exact iff_of_true .nil fun _ _ _ hfind => nomatch hfind
  | cons first rest ih =>
    cases others with
    | nil => cases hkeys
    | cons next more =>
      obtain ⟨key, v⟩ := first
      obtain ⟨key', w⟩ := next
      obtain ⟨hkey, hkeysRest⟩ := List.cons.inj hkeys
      obtain rfl : key = key' := hkey
      obtain ⟨hfirst, hrest⟩ := List.pairwise_cons.mp h
      rw [List.forall₂_cons, ih hrest hkeysRest]
      constructor
      · rintro ⟨hhead, htail⟩ other x y hx hy
        simp only [find?] at hx hy
        split at hx
        · rw [if_pos ‹_›] at hy
          exact Option.some.inj hx ▸ Option.some.inj hy ▸ hhead
        · rw [if_neg ‹_›] at hy
          exact htail other x y hx hy
      · refine fun hall => ⟨hall key v w ?_ ?_, fun other x y hx hy => ?_⟩
        · rw [find?, if_pos Std.ReflCmp.compare_self]
        · rw [find?, if_pos Std.ReflCmp.compare_self]
        · have hgt : compare other key = .gt :=
            Std.OrientedCmp.gt_of_lt (hfirst _ (mem_of_find?_eq_some hx))
          refine hall other x y ?_ ?_ <;> rwa [find?, hgt, if_neg (by decide)]

/-- Lists that start from an ascending one have the same keys and related values pair by pair, when
they have the same keys and related values under each. -/
theorem forall₂_key_iff_find? {β : Type} {R : α → β → Prop} {pairs : List (κ × α)}
    {others : List (κ × β)} (h : Ascending pairs) :
    List.Forall₂ (fun p q => p.1 = q.1 ∧ R p.2 q.2) pairs others ↔
      pairs.map (·.1) = others.map (·.1) ∧
        ∀ key v w, find? key pairs = some v → find? key others = some w → R v w := by
  have hmap : pairs.map (·.1) = others.map (·.1) ↔
      List.Forall₂ (fun p q => p.1 = q.1) pairs others := by
    rw [← List.forall₂_eq_eq_eq, List.forall₂_map_left_iff, List.forall₂_map_right_iff]
  constructor
  · intro hpairs
    have hkeys := hmap.mpr (hpairs.imp fun _ _ hpair => hpair.1)
    exact ⟨hkeys, (forall₂_iff_find? h hkeys).mp (hpairs.imp fun _ _ hpair => hpair.2)⟩
  · rintro ⟨hkeys, hvalues⟩
    exact (hmap.mp hkeys).mp (fun _ _ hkey hvalue => ⟨hkey, hvalue⟩)
      ((forall₂_iff_find? h hkeys).mpr hvalues)

/-- A write at a key of an ascending list puts the value in the place of the one that was there. -/
theorem exists_append_of_find? {key : κ} {old : α} {pairs : List (κ × α)} (h : Ascending pairs)
    (hfind : find? key pairs = some old) :
    ∃ before after, pairs = before ++ (key, old) :: after ∧
      ∀ value, insert key value pairs = before ++ (key, value) :: after := by
  induction pairs with
  | nil => cases hfind
  | cons first rest ih =>
    obtain ⟨k, v⟩ := first
    obtain ⟨hfirst, hrest⟩ := List.pairwise_cons.mp h
    simp only [find?] at hfind
    split at hfind
    · rename_i heq
      cases hfind
      refine ⟨[], rest, ?_, fun value => ?_⟩
      · rw [Std.LawfulEqOrd.eq_of_compare heq, List.nil_append]
      · rw [insert, heq, List.nil_append]
    · obtain ⟨before, after, hpairs, hinsert⟩ := ih hrest hfind
      have hgt : compare key k = .gt :=
        Std.OrientedCmp.gt_of_lt (hfirst _ (mem_of_find?_eq_some hfind))
      refine ⟨(k, v) :: before, after, ?_, fun value => ?_⟩
      · rw [hpairs, List.cons_append]
      · rw [insert, hgt, hinsert, List.cons_append]

/-- A write keeps the keys ascending. -/
theorem ascending_insert {pairs : List (κ × α)} (key : κ) (value : α) (h : Ascending pairs) :
    Ascending (insert key value pairs) := by
  induction pairs with
  | nil => exact List.pairwise_singleton _ _
  | cons first rest ih =>
    obtain ⟨k, v⟩ := first
    obtain ⟨hfirst, hrest⟩ := List.pairwise_cons.mp h
    simp only [insert]
    split
    · rename_i hlt
      refine List.pairwise_cons.mpr ⟨fun pair hpair => ?_, h⟩
      rcases List.mem_cons.mp hpair with rfl | hmem
      · exact hlt
      · exact Std.TransCmp.lt_trans hlt (hfirst pair hmem)
    · rename_i heq
      rw [Std.LawfulEqOrd.eq_of_compare heq]
      exact List.pairwise_cons.mpr ⟨hfirst, hrest⟩
    · rename_i hgt
      refine List.pairwise_cons.mpr ⟨fun pair hpair => ?_, ih hrest⟩
      rcases mem_insert hpair with rfl | hmem
      · exact Std.OrientedCmp.lt_of_gt hgt
      · exact hfirst pair hmem

/-- Writes at two keys commute when the keys ascend. -/
theorem insert_comm_of_lt {first second : κ} (h : compare first second = .lt) (a b : α)
    (pairs : List (κ × α)) :
    insert second b (insert first a pairs) = insert first a (insert second b pairs) := by
  have hgt : compare second first = .gt := Std.OrientedCmp.gt_of_lt h
  induction pairs with
  | nil => simp only [insert, h, hgt]
  | cons head rest ih =>
    obtain ⟨k, v⟩ := head
    rcases hfirst : compare first k with _ | _ | _
    · rcases hsecond : compare second k with _ | _ | _ <;>
        simp only [insert, hfirst, hsecond, h, hgt]
    · obtain rfl := Std.LawfulEqOrd.eq_of_compare hfirst
      simp only [insert, hfirst, hgt]
    · have hsecond : compare second k = .gt :=
        Std.OrientedCmp.gt_of_lt (Std.TransCmp.lt_trans (Std.OrientedCmp.lt_of_gt hfirst) h)
      simp only [insert, hfirst, hsecond, ih]

/-- Writes at different keys commute, as an equation of lists. -/
theorem insert_comm {first second : κ} (h : first ≠ second) (a b : α) (pairs : List (κ × α)) :
    insert second b (insert first a pairs) = insert first a (insert second b pairs) := by
  rcases hord : compare first second with _ | _ | _
  · exact insert_comm_of_lt hord a b pairs
  · exact absurd (Std.LawfulEqOrd.eq_of_compare hord) h
  · exact (insert_comm_of_lt (Std.OrientedCmp.lt_of_gt hord) b a pairs).symm

/-- The keys of a map ascend. -/
theorem ascending_ofList (pairs : List (κ × α)) : Ascending (ofList pairs) := by
  have hfold : ∀ (pairs acc : List (κ × α)), Ascending acc →
      Ascending (pairs.foldl (fun acc p => insert p.1 p.2 acc) acc) := by
    intro pairs
    induction pairs with
    | nil => exact fun acc hacc => hacc
    | cons first rest ih => exact fun acc hacc => ih _ (ascending_insert first.1 first.2 hacc)
  exact hfold pairs [] ascending_nil

omit [Std.TransOrd κ] in
/-- Keys that ascend are different. -/
theorem nodup_keys_of_ascending {pairs : List (κ × α)} (h : Ascending pairs) :
    (pairs.map (·.1)).Nodup := by
  refine List.pairwise_map.mpr (h.imp fun hlt heq => ?_)
  rw [Std.LawfulEqOrd.compare_eq_iff_eq.mpr heq] at hlt
  cases hlt

omit [Std.LawfulEqOrd κ] in
/-- A pair is written at the end when its key comes after all others. -/
theorem insert_of_forall_lt {key : κ} {value : α} {pairs : List (κ × α)}
    (h : ∀ pair ∈ pairs, compare pair.1 key = .lt) :
    insert key value pairs = pairs ++ [(key, value)] := by
  induction pairs with
  | nil => rfl
  | cons first rest ih =>
    obtain ⟨k, v⟩ := first
    obtain ⟨hfirst, hrest⟩ := List.forall_mem_cons.mp h
    have hgt : compare key k = .gt := Std.OrientedCmp.gt_of_lt hfirst
    rw [insert, hgt, List.cons_append, ih hrest]

omit [Std.LawfulEqOrd κ] in
/-- What ascends is its own map. -/
theorem ofList_eq_self {pairs : List (κ × α)} (h : Ascending pairs) : ofList pairs = pairs := by
  have hfold : ∀ (pairs acc : List (κ × α)), Ascending (acc ++ pairs) →
      pairs.foldl (fun acc p => insert p.1 p.2 acc) acc = acc ++ pairs := by
    intro pairs
    induction pairs with
    | nil => exact fun acc _ => (List.append_nil acc).symm
    | cons first rest ih =>
      intro acc hacc
      have hlast : ∀ pair ∈ acc, compare pair.1 first.1 = .lt := fun pair hpair =>
        (List.pairwise_append.mp hacc).2.2 pair hpair first List.mem_cons_self
      rw [List.append_cons] at hacc ⊢
      rw [List.foldl_cons, insert_of_forall_lt hlast]
      exact ih _ hacc
  exact hfold pairs [] h

omit [Std.TransOrd κ] in
/-- The map of pairs with different keys has the value of each. -/
theorem find?_ofList {pairs : List (κ × α)} (h : (pairs.map (·.1)).Nodup) (key : κ) :
    find? key (ofList pairs) = find? key pairs := by
  have hfold : ∀ (pairs acc : List (κ × α)), (pairs.map (·.1)).Nodup →
      find? key (pairs.foldl (fun acc p => insert p.1 p.2 acc) acc) =
        (find? key pairs).or (find? key acc) := by
    intro pairs
    induction pairs with
    | nil => exact fun acc _ => rfl
    | cons first rest ih =>
      intro acc hnodup
      obtain ⟨k, v⟩ := first
      obtain ⟨hfirst, hrest⟩ := List.nodup_cons.mp hnodup
      rw [List.foldl_cons, ih _ hrest]
      by_cases hkey : key = k
      · subst hkey
        rw [find?_insert_self, find?, if_pos Std.ReflCmp.compare_self]
        cases hfind : find? key rest with
        | none => rfl
        | some other =>
          exact absurd (List.mem_map_of_mem (mem_of_find?_eq_some hfind)) hfirst
      · have hne : compare key k ≠ .eq := fun heq => hkey (Std.LawfulEqOrd.eq_of_compare heq)
        rw [find?_insert_of_ne hkey, find?, if_neg hne]
  rw [ofList, hfold pairs [] h]
  exact Option.or_none

omit [Std.TransOrd κ] in
/-- Putting pairs with different keys in order keeps them all. -/
theorem perm_ofList {pairs : List (κ × α)} (h : (pairs.map (·.1)).Nodup) :
    (ofList pairs).Perm pairs := by
  have hfold : ∀ (pairs acc : List (κ × α)), ((acc ++ pairs).map (·.1)).Nodup →
      (pairs.foldl (fun acc p => insert p.1 p.2 acc) acc).Perm (acc ++ pairs) := by
    intro pairs
    induction pairs with
    | nil =>
      intro acc _
      rw [List.foldl_nil, List.append_nil]
    | cons first rest ih =>
      intro acc hnodup
      have hnew : ∀ pair ∈ acc, compare first.1 pair.1 ≠ .eq := by
        intro pair hpair heq
        rw [List.map_append, List.map_cons] at hnodup
        exact (List.nodup_append.mp hnodup).2.2 _ (List.mem_map_of_mem hpair) _
          List.mem_cons_self (Std.LawfulEqOrd.eq_of_compare heq).symm
      have hmiddle : (acc ++ first :: rest).Perm (insert first.1 first.2 acc ++ rest) :=
        List.perm_middle.trans ((perm_insert first.2 hnew).symm.append_right rest)
      exact (ih _ ((hmiddle.map (·.1)).nodup_iff.mp hnodup)).trans hmiddle.symm
  exact hfold pairs [] h

end ChartScript.Keyed
