import Assay.Proofs.Evaluation.Typing

/-!
# One expression in two frames

Two frames that give no name two types give an expression values of one type, whatever the values
of the names and whichever branches are taken (`type_eq_of_evaluateIn`). Unscoped enumerations over
`float` and over `double` must not meet in them: the common type of two such enumerations is that of
the first, and the branch that is taken comes first (`type_follows_condition`).
-/

namespace Assay

namespace Snapshot

/-- No name has one type in one frame and another in the other. -/
structure SameTypes (frame frame' : Snapshot) : Prop where
  valueOf? : ∀ {name v v'}, frame.valueOf? name = some v → frame'.valueOf? name = some v' →
    v.type = v'.type
  taggedType? : ∀ {name type type'}, frame.taggedType? name = some type →
    frame'.taggedType? name = some type' → type = type'

/-- The enumerations in the types of the frame's names are of the class. -/
structure EnumsIn (frame : Snapshot) (p : EnumType → Bool) : Prop where
  valueOf? : ∀ {name v}, frame.valueOf? name = some v → v.type.enumsIn p
  taggedType? : ∀ {name type}, frame.taggedType? name = some type → type.enumsIn p

theorem enumsIn_of_entries {frame : Snapshot} {p : EnumType → Bool}
    (hv : ∀ entry ∈ frame.vars, entry.2.type.enumsIn p)
    (ht : ∀ entry ∈ frame.types, entry.2.enumsIn p) : frame.EnumsIn p where
  valueOf? := fun h => hv _ (mem_of_lookup h)
  taggedType? := fun h => ht _ (mem_of_lookup h)

/-- The types that names have in one of two frames. -/
def jointScope (target : Target) (frame frame' : Snapshot) : Scope where
  target
  typeOf? name := ((frame.valueOf? name).or (frame'.valueOf? name)).map (·.type)
  taggedType? name := (frame.taggedType? name).or (frame'.taggedType? name)

variable {target : Target} {frame frame' : Snapshot} {options : EvalOptions}

theorem jointScope_describes_left (built : frame.Built) :
    (jointScope target frame frame').Describes ⟨target, frame.toFrame, options⟩ where
  target := rfl
  typeOf? := fun {name v} (h : frame.valueOf? name = some v) => by simp [jointScope, h]
  taggedType? := fun {name type} (h : frame.taggedType? name = some type) => by
    simp [jointScope, h]
  type_of_read? := built.type_of_read?

theorem jointScope_describes_right (built : frame'.Built) (same : frame.SameTypes frame') :
    (jointScope target frame frame').Describes ⟨target, frame'.toFrame, options⟩ where
  target := rfl
  typeOf? := fun {name v'} (h : frame'.valueOf? name = some v') => by
    rcases hv : frame.valueOf? name with _ | v
    · simp [jointScope, hv, h]
    · simp [jointScope, hv, same.valueOf? hv h]
  taggedType? := fun {name type'} (h : frame'.taggedType? name = some type') => by
    rcases ht : frame.taggedType? name with _ | type
    · simp [jointScope, ht, h]
    · simp [jointScope, ht, same.taggedType? ht h]
  type_of_read? := built.type_of_read?

theorem jointScope_enumsIn {p : EnumType → Bool} (ho : frame.EnumsIn p)
    (ho' : frame'.EnumsIn p) : (jointScope target frame frame').EnumsIn p where
  typeOf? := fun {name type} h => by
    obtain ⟨v, hv, rfl⟩ := Option.map_eq_some_iff.mp h
    rcases Option.or_eq_some_iff.mp hv with h | ⟨-, h⟩
    · exact ho.valueOf? h
    · exact ho'.valueOf? h
  taggedType? := fun {name type} h => by
    rcases Option.or_eq_some_iff.mp h with h | ⟨-, h⟩
    · exact ho.taggedType? h
    · exact ho'.taggedType? h

end Snapshot

/-- Where no name has two types, and no unscoped enumeration over `float` meets one over `double`,
an expression has values of one type. -/
theorem type_eq_of_evaluateIn {target : Target} {frame frame' : Snapshot}
    (built : frame.Built) (built' : frame'.Built) (same : frame.SameTypes frame')
    {p : EnumType → Bool} (hp : EnumType.OneFloating p) (ho : frame.EnumsIn p)
    (ho' : frame'.EnumsIn p) {options options' : EvalOptions} {session session' : Session}
    {e : Expr} {r r' : Evaluation}
    (h : (EvalContext.evaluateIn ⟨target, frame.toFrame, options⟩ session e).1 = .ok r)
    (h' : (EvalContext.evaluateIn ⟨target, frame'.toFrame, options'⟩ session' e).1 = .ok r') :
    r.value.type = r'.value.type := by
  have hj : (Snapshot.jointScope target frame frame').EnumsIn p :=
    Snapshot.jointScope_enumsIn ho ho'
  have ht := EvalContext.value_of_evaluateIn
    (EvalContext.eval_yields_infer? hp (Snapshot.jointScope_describes_left built) hj e).1 h
  have ht' := EvalContext.value_of_evaluateIn
    (EvalContext.eval_yields_infer? hp (Snapshot.jointScope_describes_right built' same) hj e).1 h'
  exact Option.some.inj (ht.symm.trans ht')

/-- The enumeration over a scalar. -/
def Ty.enumOver (s : ScalarType) : Ty := .enumeration ⟨s.name, s, false⟩

/-- A flag, and a one and a two of two enumerations. -/
def Snapshot.flagged (left right : ScalarType) (flag : Bool) : Snapshot :=
  Snapshot.empty
    |>.withVariable "c" (.boolean flag)
    |>.withVariable "l" (.ofInt (.ofArch .x86_64) (Ty.enumOver left) 1)
    |>.withVariable "r" (.ofInt (.ofArch .x86_64) (Ty.enumOver right) 2)

section Flagged

variable {left right : ScalarType} {flag flag' : Bool}

theorem flagged_built : (Snapshot.flagged left right flag).Built :=
  .withVariable (.withVariable (.withVariable .empty _ _) _ _) _ _

theorem typeOf?_flagged (left right : ScalarType) (flag : Bool) (name : String) :
    ((Snapshot.flagged left right flag).valueOf? name).map (·.type) =
      if name = "r" then some (Ty.enumOver right) else if name = "l" then some (Ty.enumOver left)
      else if name = "c" then some .bool else none := by
  simp only [Snapshot.valueOf?, Snapshot.flagged, Snapshot.withVariable, Snapshot.empty,
    List.lookup_cons]
  by_cases hr : name = "r"
  · simp [hr]
  by_cases hl : name = "l"
  · simp [hl]
  by_cases hc : name = "c"
  · simp [hc]
  · simp [hr, hl, hc, beq_false_of_ne]

theorem flagged_sameTypes :
    (Snapshot.flagged left right flag).SameTypes (Snapshot.flagged left right flag') where
  valueOf? := fun {name v v'} h h' => by
    have ht := typeOf?_flagged left right flag name
    rw [← typeOf?_flagged left right flag' name, h, h'] at ht
    exact Option.some.inj ht
  taggedType? := fun h _ => by cases h

theorem flagged_enumsIn {p : EnumType → Bool} (hl : (Ty.enumOver left).enumsIn p)
    (hr : (Ty.enumOver right).enumsIn p) :
    (Snapshot.flagged left right flag).EnumsIn p where
  valueOf? := fun {name v} h => by
    have ht := typeOf?_flagged left right flag name
    rw [h, Option.map_some] at ht
    split_ifs at ht <;> rw [Option.some.inj ht]
    · exact hr
    · exact hl
    · rfl
  taggedType? := fun h => by cases h

/-- `c ? l : r` -/
def Expr.choice : Expr := .conditional (.var "c") (.var "l") (.var "r")

end Flagged

/-- An enumeration over `float` may meet one over an integer. -/
theorem type_eq_of_evaluateIn_choice :
    let cx (flag : Bool) : EvalContext :=
      ⟨.ofArch .x86_64, (Snapshot.flagged .float .long flag).toFrame, {}⟩
    let result (x : Binary64) : Evaluation := ⟨.ofBinary64 (.scalar .float) x, .none⟩
    ((cx true).evaluateIn {} Expr.choice).1 = .ok (result 1)
      ∧ ((cx false).evaluateIn {} Expr.choice).1 = .ok (result 2)
      ∧ (result 1).value.type = (result 2).value.type := by
  intro cx result
  have h : ((cx true).evaluateIn {} Expr.choice).1 = .ok (result 1) := by rfl
  have h' : ((cx false).evaluateIn {} Expr.choice).1 = .ok (result 2) := by rfl
  have ho : ∀ flag, (Snapshot.flagged .float .long flag).EnumsIn (·.underlying != .double) :=
    fun flag => flagged_enumsIn rfl rfl
  have hp : EnumType.OneFloating (·.underlying != .double) :=
    .inr fun e he _ => by simpa using he
  exact ⟨h, h', type_eq_of_evaluateIn flagged_built flagged_built flagged_sameTypes hp
    (ho true) (ho false) h h'⟩

/-- Of enumerations over `float` and `double`, the one that the flag chooses gives the type. -/
theorem type_follows_condition :
    let frame (flag : Bool) : Snapshot := Snapshot.flagged .float .double flag
    let typeOf (flag : Bool) : Except EvalError Ty :=
      (EvalContext.evaluate ⟨.ofArch .x86_64, (frame flag).toFrame, {}⟩ Expr.choice).map
        (·.value.type)
    (frame true).Built ∧ (frame false).Built
      ∧ (∀ name, ((frame true).valueOf? name).map (·.type) =
          ((frame false).valueOf? name).map (·.type))
      ∧ (∀ name, (frame true).taggedType? name = (frame false).taggedType? name)
      ∧ typeOf true = .ok (.scalar .float) ∧ typeOf false = .ok (.scalar .double) := by
  intro frame typeOf
  refine ⟨flagged_built, flagged_built, fun name => ?_, fun name => rfl, rfl, rfl⟩
  rw [typeOf?_flagged, typeOf?_flagged]

end Assay
