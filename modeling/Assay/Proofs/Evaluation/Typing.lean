import Assay.Proofs.Evaluation.ResultType
import Assay.Proofs.Evaluation.Yields
import Assay.Proofs.Frame

/-!
# The type of an expression

A scope gives names their types. It decides the type of every value that an expression can have
(`eval_yields_infer?`), so two frames of one scope never give an expression values of two types.
-/

namespace Assay

/-- The types of names. -/
structure Scope where
  target : Target
  typeOf? : String → Option Ty
  taggedType? : String → Option Ty

namespace Scope

/-- The type that a written type names. -/
def resolve? (scope : Scope) : SourceType → Option Ty
  | .scalar s _ => some (.scalar s)
  | .tagged name _ => scope.taggedType? name
  | .pointer pointee _ => (scope.resolve? pointee).map .pointer
  | .reference .. => none

mutual

/-- The type of the values that an expression can have. -/
def infer? (scope : Scope) : Expr → Option Ty
  | .integer literal => some (.scalar (literal.type scope.target))
  | .floating literal => some (.scalar (if literal.isSingle then .float else .double))
  | .boolean _ => some .bool
  | .var name => scope.typeOf? name
  | .unary op e => (scope.infer? e).map (scope.target.unaryType op)
  | .binary op e f =>
    if op.isLogical then some .bool
    else (scope.infer? e).bind fun l => (scope.infer? f).bind fun r =>
      scope.target.binaryType? op l r
  | .addressOf e => scope.inferAddress? e
  | .dereference e => (scope.infer? e).bind (·.pointee?)
  | .member e field => (scope.infer? e).bind (·.fieldType? field)
  | .memberOfPointer e field =>
    (scope.infer? e).bind fun type => type.pointee?.bind (·.fieldType? field)
  | .index e _ => (scope.infer? e).bind (·.pointee?)
  | .conditional _ f g =>
    (scope.infer? f).bind fun l => (scope.infer? g).bind fun r => scope.target.conditionalType? l r
  | .cast type _ => scope.resolve? type
  | .paren e => scope.infer? e

/-- The type of the pointers to what an expression designates. -/
def inferAddress? (scope : Scope) : Expr → Option Ty
  | .paren e => scope.inferAddress? e
  | .var name => (scope.typeOf? name).map .pointer
  | .dereference e => scope.infer? e
  | .member e field => ((scope.infer? e).bind (·.fieldType? field)).map .pointer
  | .memberOfPointer e field =>
    ((scope.infer? e).bind fun type => type.pointee?.bind (·.fieldType? field)).map .pointer
  | .index e _ => scope.infer? e
  | _ => none

end

/-- The enumerations in the types that the scope knows are of the class. -/
structure EnumsIn (scope : Scope) (p : EnumType → Bool) : Prop where
  typeOf? : ∀ {name type}, scope.typeOf? name = some type → type.enumsIn p
  taggedType? : ∀ {name type}, scope.taggedType? name = some type → type.enumsIn p

section EnumsIn

variable {scope : Scope} {p : EnumType → Bool}

theorem EnumsIn.resolve? (h : scope.EnumsIn p) :
    ∀ {written : SourceType} {type : Ty}, scope.resolve? written = some type → type.enumsIn p
  | .scalar _ _, type, ht => by
    cases ht
    rfl
  | .tagged _ _, type, ht => h.taggedType? ht
  | .pointer pointee _, type, ht => by
    obtain ⟨inner, hi, rfl⟩ := Option.map_eq_some_iff.mp ht
    rw [Ty.enumsIn_pointer]
    exact h.resolve? hi
  | .reference .., type, ht => by cases ht

/-- Inferred types have the enumerations that the types of names have. -/
theorem EnumsIn.infer? (h : scope.EnumsIn p) (e : Expr) :
    (∀ {type}, scope.infer? e = some type → type.enumsIn p)
      ∧ ∀ {type}, scope.inferAddress? e = some type → type.enumsIn p := by
  induction e with
  | integer _ | floating _ | boolean _ =>
    refine ⟨fun ht => ?_, fun ht => by cases ht⟩
    cases ht
    rfl
  | var name =>
    refine ⟨h.typeOf?, fun ht => ?_⟩
    obtain ⟨type, hn, rfl⟩ := Option.map_eq_some_iff.mp ht
    rw [Ty.enumsIn_pointer]
    exact h.typeOf? hn
  | unary op e ih =>
    refine ⟨fun ht => ?_, fun ht => by cases ht⟩
    obtain ⟨type, he, rfl⟩ := Option.map_eq_some_iff.mp ht
    exact Target.unaryType_enumsIn op (ih.1 he)
  | binary op e f ihe ihf =>
    refine ⟨fun ht => ?_, fun ht => by cases ht⟩
    simp only [Scope.infer?] at ht
    split_ifs at ht
    · cases ht
      rfl
    · obtain ⟨l, hl, ht⟩ := Option.bind_eq_some_iff.mp ht
      obtain ⟨r, hr, ht⟩ := Option.bind_eq_some_iff.mp ht
      exact Target.binaryType?_enumsIn (ihe.1 hl) (ihf.1 hr) ht
  | addressOf e ih => exact ⟨ih.2, fun ht => by cases ht⟩
  | dereference e ih =>
    refine ⟨fun ht => ?_, ih.1⟩
    obtain ⟨type, he, ht⟩ := Option.bind_eq_some_iff.mp ht
    exact Ty.enumsIn_of_pointee? (ih.1 he) ht
  | member e field ih =>
    have hm : ∀ {type}, (scope.infer? e).bind (·.fieldType? field) = some type →
        type.enumsIn p := by
      intro type ht
      obtain ⟨base, he, ht⟩ := Option.bind_eq_some_iff.mp ht
      exact Ty.enumsIn_of_fieldType? (ih.1 he) ht
    refine ⟨hm, fun ht => ?_⟩
    obtain ⟨type, hf, rfl⟩ := Option.map_eq_some_iff.mp ht
    rw [Ty.enumsIn_pointer]
    exact hm hf
  | memberOfPointer e field ih =>
    have hm : ∀ {type}, (scope.infer? e).bind (fun t => t.pointee?.bind (·.fieldType? field)) =
        some type → type.enumsIn p := by
      intro type ht
      obtain ⟨base, he, ht⟩ := Option.bind_eq_some_iff.mp ht
      obtain ⟨pointee, hp, ht⟩ := Option.bind_eq_some_iff.mp ht
      exact Ty.enumsIn_of_fieldType? (Ty.enumsIn_of_pointee? (ih.1 he) hp) ht
    refine ⟨hm, fun ht => ?_⟩
    obtain ⟨type, hf, rfl⟩ := Option.map_eq_some_iff.mp ht
    rw [Ty.enumsIn_pointer]
    exact hm hf
  | index e f ihe ihf =>
    refine ⟨fun ht => ?_, ihe.1⟩
    obtain ⟨type, he, ht⟩ := Option.bind_eq_some_iff.mp ht
    exact Ty.enumsIn_of_pointee? (ihe.1 he) ht
  | conditional e f g ihe ihf ihg =>
    refine ⟨fun ht => ?_, fun ht => by cases ht⟩
    obtain ⟨l, hl, ht⟩ := Option.bind_eq_some_iff.mp ht
    obtain ⟨r, hr, ht⟩ := Option.bind_eq_some_iff.mp ht
    exact Target.conditionalType?_enumsIn _ (ihf.1 hl) (ihg.1 hr) ht
  | cast type e ih => exact ⟨h.resolve?, fun ht => by cases ht⟩
  | paren e ih => exact ih

end EnumsIn

/-- The frame of the context gives names the types that the scope says, and what it reads has the
type it was read at. -/
structure Describes (scope : Scope) (cx : EvalContext) : Prop where
  target : scope.target = cx.target
  typeOf? : ∀ {name value}, cx.frame.valueOf? name = some value →
    scope.typeOf? name = some value.type
  taggedType? : ∀ {name type}, cx.frame.taggedType? name = some type →
    scope.taggedType? name = some type
  type_of_read? : ∀ {address type value}, cx.frame.read? address type = some value →
    value.type = type

end Scope

namespace EvalContext

open Eval

variable {cx : EvalContext}

theorem accept_yields (outcome : Except EvalError Judged) :
    Yields (cx.accept outcome) fun v => ∃ judged, outcome = .ok judged ∧ judged.value = v :=
  (yields_ofExcept outcome).bind fun judged hj => (yields_true _).bind fun _ _ =>
    yields_pure ⟨judged, hj, rfl⟩

theorem type_of_fieldPlace {r : RecordType} {address : UInt64} {field : String} {place : Place}
    (h : fieldPlace r address field = .ok place) :
    (Ty.record r).fieldType? field = some place.type := by
  unfold fieldPlace at h
  split at h
  · rename_i found hf
    cases h
    simp [Ty.fieldType?, hf]
  · cases h

theorem type_of_memberPlace {base : Value} {field : String} {place : Place}
    (h : memberPlace base field = .ok place) : base.type.fieldType? field = some place.type := by
  unfold memberPlace at h
  split at h
  · rename_i hr _
    rw [hr]
    exact type_of_fieldPlace h
  · cases h

theorem type_of_memberOfPointerPlace {base : Value} {field : String} {place : Place}
    (h : memberOfPointerPlace base field = .ok place) :
    base.type.pointee?.bind (·.fieldType? field) = some place.type := by
  unfold memberOfPointerPlace at h
  split at h
  · rename_i hr _
    rw [hr]
    exact type_of_fieldPlace h
  · cases h

theorem type_of_pointedPlace? {pointer : Value} {place : Place}
    (h : pointedPlace? pointer = some place) : pointer.type.pointee? = some place.type := by
  unfold pointedPlace? at h
  split at h
  · rename_i hr _
    cases h
    rw [hr]
    rfl
  · cases h

theorem type_of_elementPointer {base index element : Value}
    (h : cx.elementPointer base index = .ok element) : element.type = base.type := by
  unfold elementPointer at h
  split_ifs at h
  cases h
  simp

/-- The address of a variable is the one that the frame gives it, or else that of its record. -/
theorem variablePointer_cases {name : String} {pointer : Value}
    (h : cx.variablePointer name = .ok pointer) :
    ∃ value address, cx.frame.valueOf? name = some value
      ∧ pointer = .pointer value.type address
      ∧ (cx.frame.addressOf? name = some address
        ∨ cx.frame.addressOf? name = none ∧ value.type.isTestable = false
          ∧ value.address? = some address) := by
  unfold variablePointer at h
  split at h
  · cases h
  · rename_i value hv
    simp only [] at h
    split at h <;> cases h
    rename_i address ha
    refine ⟨value, address, hv, rfl, ?_⟩
    rcases hknown : cx.frame.addressOf? name with _ | known <;> rw [hknown] at ha
    · cases htype : value.type with
      | record r =>
        rw [htype] at ha
        exact .inr ⟨rfl, rfl, ha⟩
      | scalar _ | enumeration _ | pointer _ =>
        rw [htype] at ha
        cases ha
    · exact .inl ha

theorem type_of_variablePointer {name : String} {pointer : Value}
    (h : cx.variablePointer name = .ok pointer) :
    ∃ value, cx.frame.valueOf? name = some value ∧ pointer.type = .pointer value.type := by
  obtain ⟨value, address, hv, rfl, -⟩ := variablePointer_cases h
  exact ⟨value, hv, rfl⟩

theorem joinBranches_cases {truth : Bool} {taken skipped value : Value}
    (h : cx.joinBranches truth taken skipped = .ok value) :
    ∃ common, cx.target.conditionalType? taken.type skipped.type = some common
      ∧ value = if taken.type = common then taken else taken.convert cx.target common := by
  unfold joinBranches at h
  split at h
  · rename_i common hc
    cases h
    exact ⟨common, hc, rfl⟩
  · cases h

theorem type_of_joinBranches {truth : Bool} {taken skipped value : Value}
    (h : cx.joinBranches truth taken skipped = .ok value) :
    cx.target.conditionalType? taken.type skipped.type = some value.type := by
  obtain ⟨common, hc, rfl⟩ := joinBranches_cases h
  rw [hc]
  split_ifs with ht
  · rw [ht]
  · rw [Value.convert_type]

section Described

variable {scope : Scope}

theorem resolve_described (hd : scope.Describes cx) :
    ∀ {written : SourceType} {type : Ty}, cx.resolve written = .ok type →
      scope.resolve? written = some type
  | .scalar _ _, type, h => by
    cases h
    rfl
  | .tagged name _, type, h => by
    simp only [resolve] at h
    split at h
    · rename_i t ht
      cases h
      exact hd.taggedType? ht
    · cases h
  | .pointer pointee _, type, h => by
    simp only [resolve] at h
    split at h
    · rename_i inner hi
      cases h
      simp [Scope.resolve?, resolve_described hd hi]
    · cases h
  | .reference .., type, h => by cases h

theorem load_yields_type (hd : scope.Describes cx) (address : UInt64) (type : Ty) :
    Yields (cx.load address type) fun v => v.type = type := by
  unfold load
  split
  · exact yields_pure rfl
  · split
    · rename_i hr
      exact yields_pure (hd.type_of_read? hr)
    · refine (yields_true _).bind fun session _ => ?_
      split
      · exact yields_pure (Value.zero_type _)
      · exact yields_throw _

/-- A value of an expression, and a pointer to what the expression designates, has the type that
the scope infers. -/
theorem eval_yields_infer? {p : EnumType → Bool} (hp : EnumType.OneFloating p)
    (hd : scope.Describes cx) (ho : scope.EnumsIn p) (e : Expr) :
    (Yields (cx.eval e) fun v => scope.infer? e = some v.type)
      ∧ Yields (cx.evalAddress e) fun v => scope.inferAddress? e = some v.type := by
  induction e with
  | integer literal =>
    refine ⟨yields_pure ?_, yields_throw _⟩
    simp [Scope.infer?, IntegerLiteral.toValue, hd.target]
  | floating literal => exact ⟨yields_pure rfl, yields_throw _⟩
  | boolean b => exact ⟨yields_pure rfl, yields_throw _⟩
  | var name =>
    refine ⟨(yields_orError _ _).imp fun v hv => hd.typeOf? hv,
      (yields_ofExcept _).imp fun v hv => ?_⟩
    obtain ⟨value, hn, ht⟩ := type_of_variablePointer hv
    simp [Scope.inferAddress?, hd.typeOf? hn, ht]
  | unary op e ih =>
    refine ⟨ih.1.bind fun v hv => (yields_ofExcept _).imp fun w hw => ?_, yields_throw _⟩
    rw [Scope.infer?, hv, Target.type_of_unary hw, hd.target]
    rfl
  | binary op e f ihe ihf =>
    refine ⟨?_, yields_throw _⟩
    simp only [eval, Scope.infer?]
    by_cases hop : op.isLogical = true
    · simp only [hop, ↓reduceIte]
      refine ihe.1.bind fun l _ => Yields.guard ?_
      split
      · exact yields_pure rfl
      · exact ihf.1.bind fun r _ => Yields.guard (yields_pure rfl)
    · simp only [hop, Bool.false_eq_true, ↓reduceIte]
      refine ihe.1.bind fun l hl => ihf.1.bind fun r hr => (accept_yields _).imp ?_
      rintro v ⟨judged, hj, rfl⟩
      simp [hl, hr, hd.target, Target.type_of_binary hj]
  | addressOf e ih => exact ⟨ih.2, yields_throw _⟩
  | dereference e ih =>
    constructor
    · refine ih.1.bind fun v hv => (yields_orError _ _).bind fun place hp =>
        (load_yields_type hd _ _).imp fun w hw => ?_
      simp only [Scope.infer?, hv, Option.bind_some, type_of_pointedPlace? hp, hw]
    · refine ih.1.bind fun v hv => ?_
      split
      · exact yields_pure hv
      · exact yields_throw _
  | member e field ih =>
    constructor
    · refine ih.1.bind fun v hv => (yields_ofExcept _).bind fun place hp =>
        (load_yields_type hd _ _).imp fun w hw => ?_
      simp only [Scope.infer?, hv, Option.bind_some, type_of_memberPlace hp, hw]
    · refine ih.1.bind fun v hv => (yields_ofExcept _).bind fun place hp => yields_pure ?_
      simp [Scope.inferAddress?, hv, type_of_memberPlace hp, Value.pointer]
  | memberOfPointer e field ih =>
    constructor
    · refine ih.1.bind fun v hv => (yields_ofExcept _).bind fun place hp =>
        (load_yields_type hd _ _).imp fun w hw => ?_
      simp only [Scope.infer?, hv, Option.bind_some, type_of_memberOfPointerPlace hp, hw]
    · refine ih.1.bind fun v hv => (yields_ofExcept _).bind fun place hp => yields_pure ?_
      simp [Scope.inferAddress?, hv, type_of_memberOfPointerPlace hp, Value.pointer]
  | index e f ihe ihf =>
    constructor
    · refine ihe.1.bind fun base hb => ihf.1.bind fun index _ =>
        (yields_ofExcept _).bind fun element he => (yields_orError _ _).bind fun place hp =>
        (load_yields_type hd _ _).imp fun w hw => ?_
      rw [Scope.infer?, hb, Option.bind_some, ← type_of_elementPointer he,
        type_of_pointedPlace? hp, hw]
    · refine ihe.1.bind fun base hb => ihf.1.bind fun index _ =>
        (yields_ofExcept _).imp fun w hw => ?_
      rw [Scope.inferAddress?, hb, type_of_elementPointer hw]
  | conditional e f g ihe ihf ihg =>
    refine ⟨ihe.1.bind fun cond _ => Yields.guard ?_, yields_throw _⟩
    split
    · refine ihf.1.bind fun taken ht => (yields_speculatively ihg.1).bind fun skipped hs =>
        (yields_ofExcept _).imp fun w hw => ?_
      simp only [Scope.infer?, ht, hs, Option.bind_some, hd.target, type_of_joinBranches hw]
    · refine ihg.1.bind fun taken ht => (yields_speculatively ihf.1).bind fun skipped hs =>
        (yields_ofExcept _).imp fun w hw => ?_
      -- the branches stand the other way round, which the common type does not notice
      simp only [Scope.infer?, ht, hs, Option.bind_some, hd.target]
      rw [Target.conditionalType?_comm _ hp ((ho.infer? f).1 hs) ((ho.infer? g).1 ht)]
      exact type_of_joinBranches hw
  | cast type e ih =>
    refine ⟨(yields_ofExcept _).bind fun dest hr => ih.1.bind fun v _ =>
      (accept_yields _).imp ?_, yields_throw _⟩
    rintro w ⟨judged, hj, rfl⟩
    rw [Scope.infer?, resolve_described hd hr, Target.type_of_cast hj]
  | paren e ih => exact ih

end Described

end EvalContext

end Assay
