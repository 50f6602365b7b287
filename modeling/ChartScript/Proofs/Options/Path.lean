import ChartScript.Proofs.Options.Nodes

/-!
# Walking a path

What the segments of a path say at a node depends on the schema of the node alone: they stop the
walk, name the field to write, or lead through a step with fewer segments left. An assignment by
path is this decision followed by what it asks for, so statements about paths are proved by
induction on the number of segments with one case for each decision.
-/

namespace ChartScript

/-- What the segments of a path ask for at a node. -/
inductive Turn where
  /-- Nothing more; the walk ends with an error. -/
  | stop (e : Error)
  /-- Write the field. -/
  | write (field : String)
  /-- Go through a step, with the rest of the segments. -/
  | go (step : Step) (rest : List String)

/-- The label or position that a segment names, and what follows it. -/
def Turn.throughLabel (path field segment : String) (rest : List String)
    (step : UInt32 → Step) : Turn :=
  match rest with
  | [] => .stop (.pathWithoutEntry path field)
  | last :: others =>
    match Label.ofText? segment with
    | none => .stop (.badLabel path segment)
    | some label => .go (step label) (last :: others)

/-- What segments ask for at a node of a schema. -/
def Schema.turn (path : String) (s : Schema) : List String → Turn
  | [] => .stop (.unknownOption s.name "")
  | [field] => .write field
  | field :: segment :: rest =>
    match s.field? field with
    | none => .stop (.unknownOption s.name field)
    | some spec =>
      match spec.kind with
      | .object _ | .scalarOrObject _ _ => .go (.object field) (segment :: rest)
      | .indexed _ => .throughLabel path field segment rest (.entry field)
      | .objectList _ => .throughLabel path field segment rest fun label => .item field label.toNat
      | _ => .stop (.pathNotNested path field)

/-- Every step takes at least one segment. -/
theorem Schema.length_lt_of_turn {path : String} {s : Schema} {segments rest : List String}
    {step : Step} (h : s.turn path segments = .go step rest) : rest.length < segments.length := by
  have hlabel {field segment : String} {tail : List String} {through : UInt32 → Step}
      (h : Turn.throughLabel path field segment tail through = .go step rest) :
      rest.length < tail.length + 2 := by
    unfold Turn.throughLabel at h
    split at h
    · simp at h
    · split at h
      · simp at h
      · simp only [Turn.go.injEq] at h
        rw [← h.2]
        simp
  match segments with
  | [] => simp [Schema.turn] at h
  | [_] => simp [Schema.turn] at h
  | field :: segment :: tail =>
    simp only [Schema.turn] at h
    split at h
    · simp at h
    · split at h
      · simp only [Turn.go.injEq] at h
        rw [← h.2]
        simp
      · simp only [Turn.go.injEq] at h
        rw [← h.2]
        simp
      · exact hlabel h
      · exact hlabel h
      · simp at h

namespace Options

/-- Assign a field, and keep the node as it is when that is refused. -/
def write (options : Options) (field : String) (value : OptionValue) :
    Except Error Unit × Options :=
  match options.set field value with
  | .ok changed => (.ok (), changed)
  | .error e => (.error e, options)

/-- Do what the segments of a path ask for. -/
theorem assignAt_eq (path : String) (value : OptionValue) (segments : List String)
    (options : Options) :
    options.assignAt path value segments =
      match options.schema.turn path segments with
      | .stop e => (.error e, options)
      | .write field => options.write field value
      | .go step rest => options.within step (assignAt path value rest) := by
  match segments with
  | [] => rfl
  | [field] => rfl
  | field :: segment :: rest =>
    unfold assignAt
    simp only [Schema.turn, Options.spec]
    cases options.schema.field? field with
    | none => rfl
    | some spec =>
      obtain ⟨name, kind, default⟩ := spec
      cases kind with
      | indexed declared =>
        cases rest with
        | nil => rfl
        | cons last others =>
          simp only [Turn.throughLabel]
          cases Label.ofText? segment <;> rfl
      | objectList declared =>
        cases rest with
        | nil => rfl
        | cons last others =>
          simp only [Turn.throughLabel]
          cases Label.ofText? segment <;> rfl
      | _ => rfl

/-- A write keeps the schema, also when it is refused. -/
theorem schema_write (options : Options) (field : String) (value : OptionValue) :
    (options.write field value).2.schema = options.schema := by
  unfold write
  split
  · rename_i changed hset
    obtain ⟨_, _, _, rfl⟩ := set_eq_ok.mp hset
    rfl
  · rfl

/-- Work below a step keeps the schema. -/
theorem schema_within (options : Options) (step : Step)
    (work : Options → Except Error Unit × Options) :
    (options.within step work).2.schema = options.schema := by
  unfold within
  split
  · rfl
  · exact schema_place ..

/-- So does an assignment by path, whatever becomes of it. -/
theorem schema_assign (options : Options) (path : String) (value : OptionValue) :
    (options.assign path value).2.schema = options.schema := by
  rw [assign, assignAt_eq]
  split
  · rfl
  · exact schema_write ..
  · exact schema_within ..

end Options

end ChartScript
