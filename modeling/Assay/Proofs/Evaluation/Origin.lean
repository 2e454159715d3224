import Assay.Proofs.Evaluation.Typing

/-!
# Where values come from

An operation gives one of its operands, or it makes its result by bringing an integer or a double to
a type (`Target.made_binary`). So every value that an expression has is made, is held by the frame,
or is a place where the frame may hold something (`eval_yields_origin`). This needs nothing of the
frame.
-/

namespace Assay

/-- The values that operations make, from whatever operands. -/
inductive Value.Made (target : Target) : Value → Prop
  | integer {type : Ty} (ht : type.isTestable) (raw : Int) : Made target (.ofInt target type raw)
  | floating {type : Ty} (hf : type.isFloating) (x : Binary64) : Made target (.ofBinary64 type x)
  | boolean (b : Bool) : Made target (.boolean b)

namespace Value

variable {target : Target}

theorem made_convert {type : Ty} (ht : type.isTestable) (v : Value) :
    (v.convert target type).Made target := by
  unfold convert
  split_ifs with hf
  · exact .floating hf _
  · exact .boolean _
  · exact .integer ht _

theorem made_zero {type : Ty} (ht : type.isTestable) : (zero target type).Made target := by
  unfold zero
  split
  · cases ht
  · split_ifs with hf
    · exact .floating hf _
    · exact .integer ht _

end Value

theorem FloatingLiteral.made_toValue {target : Target} (literal : FloatingLiteral) :
    literal.toValue.Made target := by
  refine .floating ?_ literal.value
  split_ifs <;> rfl

namespace Target

variable {target : Target}

theorem made_unary {op : UnaryOp} {v w : Value} (h : target.unary op v = .ok w) :
    w = v ∨ w.Made target := by
  unfold unary at h
  cases op <;> simp only [] at h <;> split_ifs at h <;> cases h
  · exact .inl rfl
  · exact .inr (Value.made_convert (promote_isTestable ‹_›) v)
  · exact .inr (.floating ‹_› _)
  · rename_i ha _
    exact .inr (.integer (promote_isTestable (by simpa using ha)) _)
  · exact .inr (.boolean _)
  · rename_i hi
    obtain ⟨-, ha⟩ := Bool.and_eq_true_iff.mp hi
    exact .inr (.integer (promote_isTestable ha) _)

theorem made_movePointer {pointer : Value} (hp : pointer.type.isPointer) (elements : Int) :
    (target.movePointer pointer elements).Made target := by
  refine .integer ?_ _
  rcases ht : pointer.type <;> rw [ht] at hp <;> first | rfl | cases hp

theorem made_pointerArithmetic {op : BinaryOp} {l r : Value} {judged : Judged}
    (h : target.pointerArithmetic op l r = .ok judged) : judged.value.Made target := by
  unfold pointerArithmetic at h
  simp only [] at h
  split at h
  · split_ifs at h
    cases h
    exact made_movePointer ‹_› _
  · split_ifs at h
    cases h
    exact made_movePointer ‹_› _
  · split_ifs at h
    cases h
    exact made_movePointer ‹_› _
  · split_ifs at h
    rcases pointerDistance_cases target l r with ⟨n, hd⟩ | hd <;> rw [hd] at h <;> cases h
    exact .integer rfl n
  · cases h

theorem made_shift {op : BinaryOp} {l r : Value} {judged : Judged}
    (h : target.shift op l r = .ok judged) : judged.value.Made target := by
  unfold shift at h
  split at h
  · cases h
  · rename_i hop
    cases h
    simp only [Bool.or_eq_true, Bool.not_eq_true', not_or, Bool.not_eq_false] at hop
    obtain ⟨-, ha⟩ := Bool.and_eq_true_iff.mp hop.1
    exact .integer (promote_isTestable ha) _

theorem made_comparison {op : BinaryOp} {l r : Value} {judged : Judged}
    (h : target.comparison op l r = .ok judged) : judged.value.Made target := by
  unfold comparison at h
  split at h <;> cases h
  exact .boolean _

theorem made_arithmetic {op : BinaryOp} {l r : Value} {judged : Judged}
    (h : target.arithmetic op l r = .ok judged) : judged.value.Made target := by
  unfold arithmetic at h
  simp only [] at h
  split at h
  · cases h
  · rename_i common hc
    obtain ⟨s, rfl⟩ := commonType?_eq_scalar target hc
    split_ifs at h
    · split at h <;> cases h
      exact .floating ‹_› _
    · split at h <;> cases h
      exact .integer rfl _

/-- Whatever its operands, an operator other than `&&` and `||` makes its result. -/
theorem made_binary {op : BinaryOp} {l r : Value} {judged : Judged}
    (h : target.binary op l r = .ok judged) : judged.value.Made target := by
  unfold binary at h
  split_ifs at h
  · exact made_pointerArithmetic h
  · exact made_shift h
  · exact made_comparison h
  · exact made_arithmetic h

theorem made_cast {v : Value} {dest : Ty} {judged : Judged} (h : target.cast v dest = .ok judged) :
    judged.value.Made target := by
  unfold cast at h
  simp only [] at h
  split at h
  · cases h
  · rename_i pointee
    split_ifs at h
    cases h
    exact @Value.made_convert target (.pointer pointee) rfl v
  · rename_i hr _
    split_ifs at h
    cases h
    have ht : dest.isTestable := by cases dest <;> first | rfl | exact absurd rfl (hr _)
    exact Value.made_convert ht v

end Target

namespace EvalContext

open Eval

variable {cx : EvalContext}

theorem made_elementPointer {base index element : Value}
    (h : cx.elementPointer base index = .ok element) : element.Made cx.target := by
  unfold elementPointer at h
  split_ifs at h with hc
  cases h
  exact Target.made_movePointer (Bool.and_eq_true_iff.mp hc).1 _

theorem made_joinBranches {truth : Bool} {taken skipped value : Value}
    (h : cx.joinBranches truth taken skipped = .ok value) :
    value = taken ∨ value.Made cx.target := by
  obtain ⟨common, hc, rfl⟩ := joinBranches_cases h
  split_ifs with ht
  · exact .inl rfl
  · rcases Target.conditionalType?_cases hc with rfl | htest
    · exact absurd rfl ht
    · exact .inr (Value.made_convert htest taken)

/-- What the values of expressions can be. -/
inductive Origin (cx : EvalContext) : Value → Prop
  | named {name : String} {v : Value} (h : cx.frame.valueOf? name = some v) : Origin cx v
  | memory {address : UInt64} {type : Ty} {v : Value} (h : cx.frame.read? address type = some v) :
    Origin cx v
  | pointer (pointee : Ty) (address : UInt64) : Origin cx (.pointer pointee address)
  | record (r : RecordType) (address : UInt64) : Origin cx (.record r address)
  | made {v : Value} (h : v.Made cx.target) : Origin cx v

theorem load_yields_origin (address : UInt64) (type : Ty) :
    Yields (cx.load address type) cx.Origin := by
  unfold load
  split
  · exact yields_pure (.record _ _)
  · rename_i hr
    split
    · exact yields_pure (.memory ‹_›)
    · refine (yields_true _).bind fun session _ => ?_
      split
      · have ht : type.isTestable := by cases type <;> first | rfl | exact absurd rfl (hr _)
        exact yields_pure (.made (Value.made_zero ht))
      · exact yields_throw _

/-- A value of an expression comes from the frame or from an operation. -/
theorem eval_yields_origin (e : Expr) :
    Yields (cx.eval e) cx.Origin ∧ Yields (cx.evalAddress e) cx.Origin := by
  induction e with
  | integer literal => exact ⟨yields_pure (.made (.integer rfl _)), yields_throw _⟩
  | floating literal => exact ⟨yields_pure (.made literal.made_toValue), yields_throw _⟩
  | boolean b => exact ⟨yields_pure (.made (.boolean b)), yields_throw _⟩
  | var name =>
    refine ⟨(yields_orError _ _).imp fun v hv => .named hv, (yields_ofExcept _).imp fun v hv => ?_⟩
    obtain ⟨value, address, -, rfl, -⟩ := variablePointer_cases hv
    exact .pointer _ _
  | unary op e ih =>
    refine ⟨ih.1.bind fun v hv => (yields_ofExcept _).imp fun w hw => ?_, yields_throw _⟩
    rcases Target.made_unary hw with rfl | hmade
    · exact hv
    · exact .made hmade
  | binary op e f ihe ihf =>
    refine ⟨?_, yields_throw _⟩
    simp only [eval]
    split
    · refine (yields_true _).bind fun l _ => Yields.guard ?_
      split
      · exact yields_pure (.made (.boolean _))
      · exact (yields_true _).bind fun r _ => Yields.guard (yields_pure (.made (.boolean _)))
    · refine (yields_true _).bind fun l _ => (yields_true _).bind fun r _ =>
        (accept_yields _).imp ?_
      rintro v ⟨judged, hj, rfl⟩
      exact .made (Target.made_binary hj)
  | addressOf e ih => exact ⟨ih.2, yields_throw _⟩
  | dereference e ih =>
    constructor
    · exact (yields_true _).bind fun v _ => (yields_true _).bind fun place _ =>
        load_yields_origin _ _
    · refine ih.1.bind fun v hv => ?_
      split
      · exact yields_pure hv
      · exact yields_throw _
  | member e field ih | memberOfPointer e field ih =>
    exact ⟨(yields_true _).bind fun base _ => (yields_true _).bind fun place _ =>
        load_yields_origin _ _,
      (yields_true _).bind fun base _ => (yields_true _).bind fun place _ =>
        yields_pure (.pointer _ _)⟩
  | index e f ihe ihf =>
    exact ⟨(yields_true _).bind fun base _ => (yields_true _).bind fun index _ =>
        (yields_true _).bind fun element _ => (yields_true _).bind fun place _ =>
        load_yields_origin _ _,
      (yields_true _).bind fun base _ => (yields_true _).bind fun index _ =>
        (yields_ofExcept _).imp fun w hw => .made (made_elementPointer hw)⟩
  | conditional e f g ihe ihf ihg =>
    have join {truth : Bool} {taken skipped w : Value} (ht : cx.Origin taken)
        (hw : cx.joinBranches truth taken skipped = .ok w) : cx.Origin w := by
      rcases made_joinBranches hw with rfl | hmade
      · exact ht
      · exact .made hmade
    refine ⟨(yields_true _).bind fun cond _ => Yields.guard ?_, yields_throw _⟩
    split
    · exact ihf.1.bind fun taken ht => (yields_true _).bind fun skipped _ =>
        (yields_ofExcept _).imp fun w hw => join ht hw
    · exact ihg.1.bind fun taken ht => (yields_true _).bind fun skipped _ =>
        (yields_ofExcept _).imp fun w hw => join ht hw
  | cast type e ih =>
    refine ⟨(yields_true _).bind fun dest _ => (yields_true _).bind fun v _ =>
      (accept_yields _).imp ?_, yields_throw _⟩
    rintro w ⟨judged, hj, rfl⟩
    exact .made (Target.made_cast hj)
  | paren e ih => exact ih

end EvalContext

end Assay
