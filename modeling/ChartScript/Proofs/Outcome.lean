import Mathlib.Data.List.Basic

/-!
# Outcomes of computations that may fail

What it takes for a sequence of computations to give a result, and which of them an error is from.
Readings that find something or nothing are the case without errors.
-/

namespace ChartScript

variable {ε α β : Type}

/-- A sequence gives a result when both of its parts do. -/
theorem bind_eq_ok {x : Except ε α} {f : α → Except ε β} {b : β} :
    (x >>= f) = .ok b ↔ ∃ a, x = .ok a ∧ f a = .ok b := by
  cases x <;> simp [bind, Except.bind]

/-- A sequence fails in its first part, or in its second after the first gave a result. -/
theorem bind_eq_error {x : Except ε α} {f : α → Except ε β} {e : ε} :
    (x >>= f) = .error e ↔ x = .error e ∨ ∃ a, x = .ok a ∧ f a = .error e := by
  cases x <;> simp [bind, Except.bind]

/-- A computation that is seen to succeed has a result. -/
theorem exists_eq_ok_of_isOk {x : Except ε α} (h : x.isOk = true) : ∃ a, x = .ok a := by
  cases x with
  | error e => cases h
  | ok a => exact ⟨a, rfl⟩

/-- After a check, a sequence gives the result of its second part. -/
theorem check_bind_eq_ok {x : Except ε Unit} {f : Unit → Except ε β} {b : β} :
    (x >>= f) = .ok b ↔ x = .ok () ∧ f () = .ok b := by
  cases x <;> simp [bind, Except.bind]

/-- After a check, a sequence fails in the check or in its second part. -/
theorem check_bind_eq_error {x : Except ε Unit} {f : Unit → Except ε β} {e : ε} :
    (x >>= f) = .error e ↔ x = .error e ∨ x = .ok () ∧ f () = .error e := by
  cases x <;> simp [bind, Except.bind]

/-- A mapped result is the image of a result. -/
theorem map_eq_ok {x : Except ε α} {f : α → β} {b : β} :
    x.map f = .ok b ↔ ∃ a, x = .ok a ∧ f a = b := by
  cases x <;> simp [Except.map]

/-- A mapped result with a property is the image of a result whose image has the property. -/
theorem exists_map_eq_ok_and {x : Except ε α} {f : α → β} {Q : β → Prop} :
    (∃ b, x.map f = .ok b ∧ Q b) ↔ ∃ a, x = .ok a ∧ Q (f a) := by
  cases x <;> simp [Except.map]

/-- What is kept of a computation is its result. -/
theorem toOption_eq_some {x : Except ε α} {a : α} : x.toOption = some a ↔ x = .ok a := by
  cases x <;> simp [Except.toOption]

/-- Of a sequence, as of its parts, only the result is kept. -/
theorem toOption_bind (x : Except ε α) (f : α → Except ε β) :
    (x >>= f).toOption = x.toOption.bind fun a => (f a).toOption := by
  cases x <;> rfl

/-- A mapped result is kept as the image of the result that is kept. -/
theorem toOption_map (x : Except ε α) (f : α → β) : (x.map f).toOption = x.toOption.map f := by
  cases x <;> rfl

/-- A list has results that all have a property exactly when each item has such a result. -/
theorem exists_mapM_eq_ok_and {items : List α} {f : α → Except ε β} {Q : β → Prop} :
    (∃ results, items.mapM f = .ok results ∧ ∀ result ∈ results, Q result) ↔
      ∀ item ∈ items, ∃ result, f item = .ok result ∧ Q result := by
  induction items with
  | nil =>
    exact ⟨fun _ _ hmem => absurd hmem List.not_mem_nil,
      fun _ => ⟨[], rfl, fun _ hmem => absurd hmem List.not_mem_nil⟩⟩
  | cons item rest ih =>
    rw [List.mapM_cons, List.forall_mem_cons, ← ih]
    constructor
    · rintro ⟨results, h, hresults⟩
      obtain ⟨first, hfirst, h⟩ := bind_eq_ok.mp h
      obtain ⟨others, hothers, h⟩ := bind_eq_ok.mp h
      cases h
      obtain ⟨hQ, hrest⟩ := List.forall_mem_cons.mp hresults
      exact ⟨⟨first, hfirst, hQ⟩, ⟨others, hothers, hrest⟩⟩
    · rintro ⟨⟨first, hfirst, hQ⟩, ⟨others, hothers, hrest⟩⟩
      rw [hfirst, hothers]
      exact ⟨first :: others, rfl, List.forall_mem_cons.mpr ⟨hQ, hrest⟩⟩

/-- A list has a result exactly when each item has one. -/
theorem exists_mapM_eq_ok {items : List α} {f : α → Except ε β} :
    (∃ results, items.mapM f = .ok results) ↔ ∀ item ∈ items, ∃ result, f item = .ok result := by
  simpa using exists_mapM_eq_ok_and (f := f) (Q := fun _ => True)

/-- The results over a list stand where the items do. -/
theorem getElem?_of_mapM_eq_ok {items : List α} {f : α → Except ε β} {results : List β}
    (h : items.mapM f = .ok results) :
    results.length = items.length ∧
      ∀ (i : Nat) result, results[i]? = some result →
        ∃ item, items[i]? = some item ∧ f item = .ok result := by
  induction items generalizing results with
  | nil =>
    cases h
    exact ⟨rfl, by simp⟩
  | cons item rest ih =>
    rw [List.mapM_cons] at h
    obtain ⟨first, hfirst, h⟩ := bind_eq_ok.mp h
    obtain ⟨others, hothers, h⟩ := bind_eq_ok.mp h
    cases h
    obtain ⟨hlength, hget⟩ := ih hothers
    refine ⟨by rw [List.length_cons, List.length_cons, hlength], fun i result hresult => ?_⟩
    cases i with
    | zero =>
      cases hresult
      exact ⟨item, rfl, hfirst⟩
    | succ i => exact hget i result hresult

/-- Each result over a list is that of one of the items. -/
theorem exists_mem_of_mapM_eq_ok {items : List α} {f : α → Except ε β} {results : List β}
    (h : items.mapM f = .ok results) {result : β} (hresult : result ∈ results) :
    ∃ item ∈ items, f item = .ok result := by
  obtain ⟨i, hi⟩ := List.mem_iff_getElem?.mp hresult
  obtain ⟨item, hitem, hok⟩ := (getElem?_of_mapM_eq_ok h).2 i result hi
  exact ⟨item, List.mem_of_getElem? hitem, hok⟩

/-- What the results of a list have is what the items have, if each result has what its item has. -/
theorem map_eq_of_mapM_eq_ok {γ : Type} {items : List α} {f : α → Except ε β} {g : α → γ}
    {k : β → γ} (hf : ∀ item ∈ items, ∀ result, f item = .ok result → k result = g item)
    {results : List β} (h : items.mapM f = .ok results) : results.map k = items.map g := by
  induction items generalizing results with
  | nil =>
    cases h
    rfl
  | cons item rest ih =>
    rw [List.mapM_cons] at h
    obtain ⟨first, hfirst, h⟩ := bind_eq_ok.mp h
    obtain ⟨others, hothers, h⟩ := bind_eq_ok.mp h
    cases h
    rw [List.map_cons, List.map_cons, hf item List.mem_cons_self first hfirst,
      ih (fun other hother => hf other (List.mem_cons_of_mem _ hother)) hothers]

/-- The error of a list is that of the first item that has no result. -/
theorem mapM_eq_error {items : List α} {f : α → Except ε β} {e : ε} :
    items.mapM f = .error e ↔ ∃ before item after, items = before ++ item :: after ∧
      (∀ earlier ∈ before, ∃ result, f earlier = .ok result) ∧ f item = .error e := by
  constructor
  · intro h
    induction items with
    | nil => cases h
    | cons item rest ih =>
      rw [List.mapM_cons, bind_eq_error] at h
      rcases h with hitem | ⟨result, hitem, h⟩
      · exact ⟨[], item, rest, rfl, by simp, hitem⟩
      · rcases bind_eq_error.mp h with hrest | ⟨results, _, hpure⟩
        · obtain ⟨before, found, after, rfl, hbefore, hfound⟩ := ih hrest
          exact ⟨item :: before, found, after, rfl,
            List.forall_mem_cons.mpr ⟨⟨result, hitem⟩, hbefore⟩, hfound⟩
        · cases hpure
  · rintro ⟨before, item, after, rfl, hbefore, hitem⟩
    obtain ⟨results, hresults⟩ := exists_mapM_eq_ok.mpr hbefore
    rw [List.mapM_append, hresults, List.mapM_cons, hitem]
    rfl

/-- Each thing that is read from a list is read from one of the items. -/
theorem exists_mem_of_mapM_eq_some {items : List α} {f : α → Option β} {results : List β}
    (h : items.mapM f = some results) {result : β} (hresult : result ∈ results) :
    ∃ item ∈ items, f item = some result := by
  induction items generalizing results with
  | nil =>
    cases h
    exact absurd hresult List.not_mem_nil
  | cons item rest ih =>
    rw [List.mapM_cons] at h
    obtain ⟨first, hfirst, h⟩ := Option.bind_eq_some_iff.mp h
    obtain ⟨others, hothers, h⟩ := Option.bind_eq_some_iff.mp h
    cases h
    rcases List.mem_cons.mp hresult with rfl | hmem
    · exact ⟨item, List.mem_cons_self, hfirst⟩
    · obtain ⟨found, hfound, hf⟩ := ih hothers hmem
      exact ⟨found, List.mem_cons_of_mem _ hfound, hf⟩

/-- If a list is read, each of its items is. -/
theorem exists_of_mapM_eq_some {items : List α} {f : α → Option β} {results : List β}
    (h : items.mapM f = some results) {item : α} (hitem : item ∈ items) :
    ∃ result, f item = some result := by
  induction items generalizing results with
  | nil => exact absurd hitem List.not_mem_nil
  | cons first rest ih =>
    rw [List.mapM_cons] at h
    obtain ⟨result, hresult, h⟩ := Option.bind_eq_some_iff.mp h
    obtain ⟨others, hothers, h⟩ := Option.bind_eq_some_iff.mp h
    rcases List.mem_cons.mp hitem with rfl | hmem
    · exact ⟨result, hresult⟩
    · exact ih hothers hmem

/-- A list is read as before by whatever reads each of its items as before. -/
theorem mapM_eq_some_of_imp {items : List α} {f g : α → Option β}
    (hfg : ∀ item ∈ items, ∀ result, f item = some result → g item = some result)
    {results : List β} (h : items.mapM f = some results) : items.mapM g = some results := by
  induction items generalizing results with
  | nil => exact h
  | cons item rest ih =>
    obtain ⟨hitem, hrest⟩ := List.forall_mem_cons.mp hfg
    rw [List.mapM_cons] at h ⊢
    obtain ⟨first, hfirst, h⟩ := Option.bind_eq_some_iff.mp h
    obtain ⟨others, hothers, h⟩ := Option.bind_eq_some_iff.mp h
    rw [hitem first hfirst, ih hrest hothers]
    exact h

end ChartScript
