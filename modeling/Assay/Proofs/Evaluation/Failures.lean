import Assay.Proofs.Evaluation.ResultType
import Assay.Proofs.Evaluation.Yields
import Mathlib.Tactic.SplitIfs

/-!
# What operations fail with

An operation has one way to fail, and its error tells the types of the operands that it was given
(`error_of_unary`, `error_of_binary`, `error_of_cast`). Besides, the distance of two pointers may
overflow. None of these errors comes from memory or from undefined behaviour.
-/

namespace Assay

/-- Neither unreadable memory nor undefined behaviour is the reason. -/
def EvalError.isStatic : EvalError → Bool
  | memoryRead _ | undefinedBehavior _ => false
  | _ => true

namespace Target

variable {target : Target} {err : EvalError}

theorem error_of_unary {op : UnaryOp} {v : Value} (h : target.unary op v = .error err) :
    err = .invalidUnary op v.type := by
  unfold unary at h
  cases op <;> simp only [] at h <;> split_ifs at h <;> cases h <;> rfl

theorem error_of_pointerArithmetic {op : BinaryOp} {l r : Value}
    (h : target.pointerArithmetic op l r = .error err) :
    err = .ofOperands op l r ∨ err = .overflow := by
  unfold pointerArithmetic at h
  simp only [] at h
  split at h
  · split_ifs at h
    cases h
    exact .inl rfl
  · split_ifs at h
    cases h
    exact .inl rfl
  · split_ifs at h
    cases h
    exact .inl rfl
  · split_ifs at h
    · rcases pointerDistance_cases target l r with ⟨n, hd⟩ | hd <;> rw [hd] at h <;> cases h
      exact .inr rfl
    · cases h
      exact .inl rfl
  · cases h
    exact .inl rfl

theorem error_of_shift {op : BinaryOp} {l r : Value} (h : target.shift op l r = .error err) :
    err = .ofOperands op l r := by
  unfold shift at h
  split_ifs at h
  cases h
  rfl

theorem error_of_comparison {op : BinaryOp} {l r : Value}
    (h : target.comparison op l r = .error err) : err = .ofOperands op l r := by
  unfold comparison at h
  split at h <;> cases h
  rfl

theorem error_of_arithmetic {op : BinaryOp} {l r : Value}
    (h : target.arithmetic op l r = .error err) : err = .ofOperands op l r := by
  unfold arithmetic at h
  simp only [] at h
  split at h
  · cases h
    rfl
  · split_ifs at h <;> split at h <;> cases h <;> rfl

theorem error_of_binary {op : BinaryOp} {l r : Value} (h : target.binary op l r = .error err) :
    err = .ofOperands op l r ∨ err = .overflow := by
  unfold binary at h
  split_ifs at h
  · exact error_of_pointerArithmetic h
  · exact .inl (error_of_shift h)
  · exact .inl (error_of_comparison h)
  · exact .inl (error_of_arithmetic h)

theorem error_of_cast {v : Value} {dest : Ty} (h : target.cast v dest = .error err) :
    err = .invalidCast v.type dest := by
  unfold cast at h
  simp only [] at h
  split at h
  · cases h
    rfl
  · split_ifs at h
    cases h
    rfl
  · split_ifs at h
    cases h
    rfl

end Target

namespace EvalContext

variable {cx : EvalContext} {err : EvalError}

theorem error_of_resolve : ∀ {written : SourceType}, cx.resolve written = .error err →
    (∃ name, err = .unknownType name) ∨ err = .unsupported .referenceCast
  | .scalar .., h => by cases h
  | .tagged name _, h => by
    simp only [resolve] at h
    split at h <;> cases h
    exact .inl ⟨name, rfl⟩
  | .pointer pointee _, h => by
    simp only [resolve] at h
    rcases hp : cx.resolve pointee with e | type <;> rw [hp] at h <;> cases h
    exact error_of_resolve hp
  | .reference .., h => by
    cases h
    exact .inr rfl

theorem error_of_fieldPlace {r : RecordType} {address : UInt64} {field : String}
    (h : fieldPlace r address field = .error err) : ∃ type, err = .noMember type field := by
  unfold fieldPlace at h
  split at h <;> cases h
  exact ⟨_, rfl⟩

theorem error_of_memberPlace {base : Value} {field : String}
    (h : memberPlace base field = .error err) : ∃ type, err = .noMember type field := by
  unfold memberPlace at h
  split at h
  · exact error_of_fieldPlace h
  · cases h
    exact ⟨_, rfl⟩

theorem error_of_memberOfPointerPlace {base : Value} {field : String}
    (h : memberOfPointerPlace base field = .error err) : ∃ type, err = .noMember type field := by
  unfold memberOfPointerPlace at h
  split at h
  · exact error_of_fieldPlace h
  · cases h
    exact ⟨_, rfl⟩

theorem error_of_elementPointer {base index : Value}
    (h : cx.elementPointer base index = .error err) : err = .ofOperands .plus base index := by
  unfold elementPointer at h
  split_ifs at h
  cases h
  rfl

theorem error_of_variablePointer {name : String} (h : cx.variablePointer name = .error err) :
    err = .undeclared name ∨ err = .unsupported (.address (.var name)) := by
  unfold variablePointer at h
  split at h
  · cases h
    exact .inl rfl
  · simp only [] at h
    split at h <;> cases h
    exact .inr rfl

theorem error_of_joinBranches {truth : Bool} {taken skipped : Value}
    (h : cx.joinBranches truth taken skipped = .error err) :
    ∃ l r, err = .incompatible l r := by
  unfold joinBranches at h
  split at h
  · cases h
  · cases truth <;> cases h <;> exact ⟨_, _, rfl⟩

/-! ## None of them is for want of memory -/

theorem unary_static {target : Target} {op : UnaryOp} {v : Value} (err : EvalError)
    (h : target.unary op v = .error err) : err.isStatic := by
  rw [Target.error_of_unary h]
  rfl

theorem binary_static {target : Target} {op : BinaryOp} {l r : Value} (err : EvalError)
    (h : target.binary op l r = .error err) : err.isStatic := by
  rcases Target.error_of_binary h with rfl | rfl <;> rfl

theorem cast_static {target : Target} {v : Value} {dest : Ty} (err : EvalError)
    (h : target.cast v dest = .error err) : err.isStatic := by
  rw [Target.error_of_cast h]
  rfl

theorem resolve_static {written : SourceType} (err : EvalError)
    (h : cx.resolve written = .error err) : err.isStatic := by
  rcases error_of_resolve h with ⟨name, rfl⟩ | rfl <;> rfl

theorem memberPlace_static {base : Value} {field : String} (err : EvalError)
    (h : memberPlace base field = .error err) : err.isStatic := by
  obtain ⟨type, rfl⟩ := error_of_memberPlace h
  rfl

theorem memberOfPointerPlace_static {base : Value} {field : String} (err : EvalError)
    (h : memberOfPointerPlace base field = .error err) : err.isStatic := by
  obtain ⟨type, rfl⟩ := error_of_memberOfPointerPlace h
  rfl

theorem elementPointer_static {base index : Value} (err : EvalError)
    (h : cx.elementPointer base index = .error err) : err.isStatic := by
  rw [error_of_elementPointer h]
  rfl

theorem variablePointer_static {name : String} (err : EvalError)
    (h : cx.variablePointer name = .error err) : err.isStatic := by
  rcases error_of_variablePointer h with rfl | rfl <;> rfl

theorem joinBranches_static {truth : Bool} {taken skipped : Value} (err : EvalError)
    (h : cx.joinBranches truth taken skipped = .error err) : err.isStatic := by
  obtain ⟨l, r, rfl⟩ := error_of_joinBranches h
  rfl

end EvalContext

end Assay
