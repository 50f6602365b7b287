import ChartScript.Proofs.Json.Record
import ChartScript.Proofs.Outcome

/-!
# Limits on nesting

Readings of a tree take a limit on its nesting, and lower it by one for every array and object that
they open. The limit decides whether something is read, not what: a reading that succeeds finds the
same under every limit that is no lower, and under every limit that is enough for the whole tree.
That is proved for the readings of values, records, lists and words once, and holds of whatever is
put together of these.
-/

namespace ChartScript

variable {α : Type}

namespace RawJson

mutual

/-- How many levels of arrays and objects a tree has. -/
def depth : RawJson → Nat
  | .array items => depthItems items + 1
  | .object members => depthMembers members + 1
  | _ => 0

/-- The levels of the deepest item. -/
def depthItems : List RawJson → Nat
  | [] => 0
  | item :: rest => max item.depth (depthItems rest)

/-- The levels of the deepest member. -/
def depthMembers : List (Option String × RawJson) → Nat
  | [] => 0
  | (_, value) :: rest => max value.depth (depthMembers rest)

end

/-- The trees directly below a tree. -/
def children : RawJson → List RawJson
  | .array items => items
  | .object members => members.map (·.2)
  | _ => []

/-- No item is deeper than the deepest. -/
theorem depth_le_depthItems {items : List RawJson} {item : RawJson} (h : item ∈ items) :
    item.depth ≤ depthItems items := by
  induction h with
  | head rest => exact Nat.le_max_left _ _
  | tail first _ ih => exact Nat.le_trans ih (Nat.le_max_right _ _)

/-- No member is deeper than the deepest. -/
theorem depth_le_depthMembers {members : List (Option String × RawJson)}
    {member : Option String × RawJson} (h : member ∈ members) :
    member.2.depth ≤ depthMembers members := by
  induction h with
  | head rest => exact Nat.le_max_left _ _
  | tail first _ ih => exact Nat.le_trans ih (Nat.le_max_right _ _)

/-- What is below a tree has fewer levels. -/
theorem depth_lt_of_mem_children {raw child : RawJson} (h : child ∈ raw.children) :
    child.depth < raw.depth := by
  cases raw with
  | array items => exact Nat.lt_succ_of_le (depth_le_depthItems h)
  | object members =>
    obtain ⟨member, hmember, rfl⟩ := List.mem_map.mp h
    exact Nat.lt_succ_of_le (depth_le_depthMembers hmember)
  | _ => exact absurd h List.not_mem_nil

/-- The second limit is as good as the first for a tree: no lower, or enough for all of the tree. -/
def Suffices (raw : RawJson) (k k' : Nat) : Prop :=
  k ≤ k' ∨ raw.depth ≤ k'

/-- What is left of a limit below an array or object. -/
theorem Suffices.below {raw : RawJson} {k k' : Nat} (h : raw.Suffices (k + 1) k')
    (hopen : 0 < raw.depth) :
    ∃ left, k' = left + 1 ∧ ∀ child ∈ raw.children, child.Suffices k left := by
  have hpos : 0 < k' := by
    rcases h with hle | hdepth <;> omega
  obtain ⟨left, rfl⟩ := Nat.exists_eq_add_one_of_ne_zero (Nat.ne_of_gt hpos)
  refine ⟨left, rfl, fun child hchild => ?_⟩
  have hlt := depth_lt_of_mem_children hchild
  rcases h with hle | hdepth
  · exact .inl (Nat.le_of_succ_le_succ hle)
  · exact .inr (by omega)

/-- A reading that finds the same under every limit that is as good. -/
def Steady (read? : Nat → RawJson → Option α) : Prop :=
  ∀ (raw : RawJson) (k k' : Nat) (found : α), read? k raw = some found → raw.Suffices k k' →
    read? k' raw = some found

mutual

/-- The content of a tree is the same under every limit that is as good. -/
theorem content?_of_suffices : (raw : RawJson) → {k k' : Nat} → {value : Json} →
    content? k raw = some value → raw.Suffices k k' → content? k' raw = some value
  | .null, _, _, _, h, _ | .bool _, _, _, _, h, _ | .number _, _, _, _, h, _
  | .string _, _, _, _, h, _ => h
  | .array items, k, k', value, h, hk => by
    cases k with
    | zero => cases h
    | succ k =>
      obtain ⟨values, hvalues, rfl⟩ := Option.map_eq_some_iff.mp h
      obtain ⟨left, rfl, hitems⟩ := hk.below (Nat.succ_pos _)
      rw [content?, contentItems?_of_suffices items hvalues hitems, Option.map_some]
  | .object members, k, k', value, h, hk => by
    cases k with
    | zero => cases h
    | succ k =>
      obtain ⟨values, hvalues, rfl⟩ := Option.map_eq_some_iff.mp h
      obtain ⟨left, rfl, hbelow⟩ := hk.below (Nat.succ_pos _)
      have hmembers : ∀ member ∈ members, member.2.Suffices k left :=
        fun member hmember => hbelow _ (List.mem_map_of_mem hmember)
      rw [content?, contentMembers?_of_suffices members hvalues hmembers, Option.map_some]

/-- The contents of items are the same under every limit that is as good for each. -/
theorem contentItems?_of_suffices : (items : List RawJson) → {k k' : Nat} →
    {values : List Json} → contentItems? k items = some values →
      (∀ item ∈ items, item.Suffices k k') → contentItems? k' items = some values
  | [], _, _, _, h, _ => h
  | item :: rest, k, k', values, h, hk => by
    obtain ⟨first, hfirst, h⟩ := Option.bind_eq_some_iff.mp h
    obtain ⟨others, hothers, h⟩ := Option.bind_eq_some_iff.mp h
    obtain ⟨hitem, hrest⟩ := List.forall_mem_cons.mp hk
    rw [contentItems?, content?_of_suffices item hfirst hitem,
      contentItems?_of_suffices rest hothers hrest]
    exact h

/-- The contents of members are the same under every limit that is as good for each. -/
theorem contentMembers?_of_suffices : (members : List (Option String × RawJson)) →
    {k k' : Nat} → {values : List (String × Json)} → contentMembers? k members = some values →
      (∀ member ∈ members, member.2.Suffices k k') → contentMembers? k' members = some values
  | [], _, _, _, h, _ => h
  | (key, value) :: rest, k, k', values, h, hk => by
    obtain ⟨name, hname, h⟩ := Option.bind_eq_some_iff.mp h
    obtain ⟨first, hfirst, h⟩ := Option.bind_eq_some_iff.mp h
    obtain ⟨others, hothers, h⟩ := Option.bind_eq_some_iff.mp h
    obtain ⟨hvalue, hrest⟩ := List.forall_mem_cons.mp hk
    rw [contentMembers?, hname, Option.bind_eq_bind, Option.bind_some,
      content?_of_suffices value hfirst hvalue, contentMembers?_of_suffices rest hothers hrest]
    exact h

end

/-- So is its canonical form. -/
theorem steady_value? : Steady value? := by
  intro raw k k' found h hk
  obtain ⟨value, hvalue, rfl⟩ := Option.map_eq_some_iff.mp h
  rw [value?, content?_of_suffices raw hvalue hk, Option.map_some]

/-- A word is the same under every limit that is as good. -/
theorem steady_word? : Steady word? := by
  intro raw k k' found h hk
  unfold word? at h ⊢
  split at h
  · exact h
  · rename_i key
    split at h
    · cases h
    · rename_i hne
      obtain ⟨k, rfl⟩ := Nat.exists_eq_succ_of_ne_zero hne
      obtain ⟨left, rfl, _⟩ := hk.below (Nat.succ_pos _)
      exact h
  · cases h

/-- The fields of a record are the same under every limit that is as good, and so is what is left of
the limits for each of them. -/
theorem record?_of_suffices {raw : RawJson} {names : List String} {k k' left : Nat}
    {fields : List (Option RawJson)} (h : raw.record? names k = some (left, fields))
    (hk : raw.Suffices k k') :
    ∃ left', raw.record? names k' = some (left', fields) ∧
      ∀ field, some field ∈ fields → field.Suffices left left' := by
  cases raw with
  | array items =>
    cases k with
    | zero => cases h
    | succ k =>
      obtain ⟨found, hpick, hsame⟩ := Option.map_eq_some_iff.mp h
      cases hsame
      obtain ⟨left', rfl, hitems⟩ := hk.below (Nat.succ_pos _)
      refine ⟨left', by rw [record?, hpick, Option.map_some], fun field hfield => ?_⟩
      exact hitems field (mem_of_pickItems? hpick hfield)
  | object members =>
    cases k with
    | zero => cases h
    | succ k =>
      obtain ⟨found, hpick, hsame⟩ := Option.map_eq_some_iff.mp h
      cases hsame
      obtain ⟨left', rfl, hmembers⟩ := hk.below (Nat.succ_pos _)
      refine ⟨left', by rw [record?, hpick, Option.map_some], fun field hfield => ?_⟩
      obtain ⟨named, hnamed, hpick⟩ := Option.bind_eq_some_iff.mp hpick
      obtain ⟨key, hmem⟩ := exists_mem_of_pickMembers? hpick hfield
      exact hmembers field (List.mem_map_of_mem (mem_of_textKeys? hnamed hmem))
  | _ => cases h

/-- A list is the same under every limit that is as good, if its items are. -/
theorem Steady.list? {item? : Nat → RawJson → Option α} (hitem : Steady item?) :
    Steady (list? item?) := by
  intro raw k k' found h hk
  cases raw with
  | array items =>
    cases k with
    | zero => cases h
    | succ k =>
      obtain ⟨left, rfl, hitems⟩ := hk.below (Nat.succ_pos _)
      exact mapM_eq_some_of_imp (fun item hmem value hvalue =>
        hitem item k left value hvalue (hitems item hmem)) h
  | _ => cases h

/-- A field that may be left out is the same under every limit that is as good, if its value is. -/
theorem Steady.optional? {item? : Nat → RawJson → Option α} (hitem : Steady item?)
    {field : Option RawJson} {k k' : Nat} {found : Option α}
    (h : optional? (item? k) field = some found)
    (hk : ∀ raw, field = some raw → raw.Suffices k k') :
    optional? (item? k') field = some found := by
  cases field with
  | none => exact h
  | some raw =>
    cases raw with
    | null => exact h
    | _ =>
      obtain ⟨value, hvalue, rfl⟩ := Option.map_eq_some_iff.mp h
      exact Option.map_eq_some_iff.mpr ⟨value, hitem _ _ _ _ hvalue (hk _ rfl), rfl⟩

/-- So is a field that stands for something when it is left out. -/
theorem Steady.orDefault? {item? : Nat → RawJson → Option α} (hitem : Steady item?) {default : α}
    {field : Option RawJson} {k k' : Nat} {found : α}
    (h : orDefault? default (item? k) field = some found)
    (hk : ∀ raw, field = some raw → raw.Suffices k k') :
    orDefault? default (item? k') field = some found := by
  cases field with
  | none => exact h
  | some raw => exact hitem raw k k' found h (hk raw rfl)

end RawJson

end ChartScript
