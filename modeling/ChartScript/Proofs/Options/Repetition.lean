import ChartScript.Proofs.Options.Independence

/-!
# Repeated assignments

An assignment by path that is made again answers as it did and leaves the tree as it left it, and an
assignment that succeeds overrides whatever came before it through the same path, also what was
refused. Working twice on the node of a step is one step with both works done on its node, because
the node that was put back is the node that the step leads to afterwards; what a path does follows
by induction on its segments.
-/

namespace ChartScript

namespace Options

variable {options : Options} {field : String} {value : OptionValue} {step : Step}

/-- A write that succeeds overrides a write of the same field, also one that was refused. -/
theorem write_write_of_ok (h : (options.write field value).1 = .ok ()) (first : OptionValue) :
    (options.write field first).2.write field value = options.write field value := by
  have hset : options.set field value = .ok (options.write field value).2 :=
    write_eq_ok.mp (Prod.ext h rfl)
  obtain ⟨spec, hspec, hfits, hstore⟩ := set_eq_ok.mp hset
  rw [write_eq_ok.mpr hset, ← hstore]
  unfold write
  cases hfirst : options.set field first with
  | error e => simp only [hset, hstore]
  | ok changed =>
    obtain ⟨_, _, _, rfl⟩ := set_eq_ok.mp hfirst
    have hagain : (options.store field first).set field value = .ok (options.store field value) :=
      set_eq_ok.mpr ⟨spec, hspec, hfits, store_store_self options field first value⟩
    simp only [hagain]

/-- A write that is made again answers and leaves the node as before. -/
theorem write_write_self (options : Options) (field : String) (value : OptionValue) :
    (options.write field value).2.write field value = options.write field value := by
  cases hset : options.set field value with
  | ok changed => exact write_write_of_ok (congrArg Prod.fst (write_eq_ok.mpr hset)) value
  | error e =>
    have hwrite : options.write field value = (.error e, options) := by
      rw [write, hset]
    rw [hwrite]
    exact hwrite

/-- Working on the node of a step overrides earlier work on it, if it does so on the node. -/
theorem within_within {first second : Options → Except Error Unit × Options}
    (h : ∀ child, options.reach step = .ok child → second (first child).2 = second child) :
    (options.within step first).2.within step second = options.within step second := by
  cases hreach : options.reach step with
  | error e =>
    rw [within_eq_of_error hreach first, within_eq_of_error hreach second]
  | ok child =>
    obtain ⟨spec, declared, hspec, hopens, _⟩ := exists_opens_of_reach hreach
    have hspec' : (options.place (first child).2 step).schema.field? step.field = some spec := by
      rw [schema_place, hspec]
    have hagain : (options.place (first child).2 step).reach step = .ok (first child).2 := by
      rw [reach_eq_ok hspec' hopens, nodeAt_place_self hspec hopens]
    rw [within_eq hreach first, within_eq hreach second, within_eq hagain second, h child hreach,
      place_place_self hspec hopens]

/-- An assignment along segments that is made again answers and leaves the node as before. -/
theorem assignAt_assignAt_self (path : String) (value : OptionValue) (segments : List String)
    (options : Options) :
    (options.assignAt path value segments).2.assignAt path value segments =
      options.assignAt path value segments := by
  rw [assignAt_eq path value segments options]
  cases hturn : options.schema.turn path segments with
  | stop e => exact (assignAt_eq path value segments options).trans (by rw [hturn])
  | write field =>
    simp only
    rw [assignAt_eq, schema_write, hturn]
    exact write_write_self options field value
  | go step rest =>
    have := Schema.length_lt_of_turn hturn
    simp only
    rw [assignAt_eq, schema_within, hturn]
    exact within_within fun child _ => assignAt_assignAt_self path value rest child
termination_by segments.length

/-- An assignment along segments that succeeds overrides an earlier one, also one that was
refused. -/
theorem assignAt_assignAt_of_ok {path : String} (first : OptionValue) (segments : List String)
    {options : Options} (h : (options.assignAt path value segments).1 = .ok ()) :
    (options.assignAt path first segments).2.assignAt path value segments =
      options.assignAt path value segments := by
  rw [assignAt_eq] at h
  rw [assignAt_eq path first segments options, assignAt_eq path value segments options]
  cases hturn : options.schema.turn path segments with
  | stop e =>
    rw [hturn] at h
    cases h
  | write field =>
    rw [hturn] at h
    simp only at h ⊢
    rw [assignAt_eq, schema_write, hturn]
    exact write_write_of_ok h first
  | go step rest =>
    have := Schema.length_lt_of_turn hturn
    rw [hturn] at h
    simp only at h ⊢
    rw [assignAt_eq, schema_within, hturn]
    refine within_within fun child hreach => ?_
    rw [within_eq hreach] at h
    exact assignAt_assignAt_of_ok first rest h
termination_by segments.length

/-- An assignment by path that is made again, whether it succeeds or is refused, gives the same
outcome and leaves the tree as it is; and one that succeeds gives the outcome and leaves the tree
that it does where another assignment through the same path went before, successful or refused. -/
theorem assign_repeated (options : Options) (path : String) (value : OptionValue) :
    (options.assign path value).2.assign path value = options.assign path value ∧
      ∀ first : OptionValue, (options.assign path value).1 = .ok () →
        (options.assign path first).2.assign path value = options.assign path value :=
  ⟨assignAt_assignAt_self path value (pathSegments path) options,
    fun first h => assignAt_assignAt_of_ok first (pathSegments path) h⟩

/-- A flag is refused as a colour of the third slice, after two slices have been opened for it; it
is refused again, and the colour that follows does not show that it was ever there. -/
theorem assign_repeated_third_slice :
    (samplePie.assign "parts.+2.color" (.flag true)).1 =
        .error (.shapeMismatch "color" "a string" "a boolean") ∧
      (samplePie.assign "parts.+2.color" (.flag true)).2.render.toOption =
        some "\x7btitle:\"Shares\",parts:[first,\x7b\x7d,\x7b\x7d]\x7d" ∧
      ((samplePie.assign "parts.+2.color" (.flag true)).2.assign "parts.+2.color" (.flag true)) =
        samplePie.assign "parts.+2.color" (.flag true) ∧
      (samplePie.assign "parts.+2.color" (.text "red")).1 = .ok () ∧
      (samplePie.assign "parts.+2.color" (.flag true)).2.assign "parts.+2.color" (.text "red") =
        samplePie.assign "parts.+2.color" (.text "red") :=
  ⟨rfl, by decide +kernel, (assign_repeated _ _ _).1, rfl, (assign_repeated _ _ _).2 _ rfl⟩

end Options

end ChartScript
