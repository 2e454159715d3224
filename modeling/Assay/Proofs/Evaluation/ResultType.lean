import Assay.Evaluation.Operation
import Assay.Proofs.Value.WellFormed

/-!
# The types of results

The type that an operation gives its result is decided by the types of its operands alone
(`type_of_unary`, `type_of_binary`, `type_of_cast`), and rests on the scalars they rest on.
-/

namespace Assay.Target

variable (target : Target)

/-- The type of a unary operator's result. -/
def unaryType (op : UnaryOp) (type : Ty) : Ty :=
  match op with
  | .logicalNot => .bool
  | .plus => if type.isPointer then type else target.promote type
  | .neg | .bitNot => target.promote type

/-- The type of a sum or difference with a pointer among its operands. -/
def pointerType (l r : Ty) : Ty :=
  if l.isPointer && r.isPointer then .scalar target.differenceType
  else if l.isPointer then l
  else r

/-- The type of the result of any binary operator but `&&` and `||`. -/
def binaryType? (op : BinaryOp) (l r : Ty) : Option Ty :=
  if (op = .plus ∨ op = .minus) ∧ (l.isPointer ∨ r.isPointer) then some (target.pointerType l r)
  else if op.isShift then some (target.promote l)
  else if op.isComparison then some .bool
  else target.commonType? l r

variable {target}

theorem type_of_unary {op : UnaryOp} {v w : Value} (h : target.unary op v = .ok w) :
    w.type = target.unaryType op v.type := by
  unfold unary at h
  cases op <;> simp only [] at h <;> split_ifs at h <;>
    cases h <;> simp_all [unaryType]

@[simp] theorem type_movePointer (pointer : Value) (elements : Int) :
    (target.movePointer pointer elements).type = pointer.type := by
  simp [movePointer]

theorem pointerDistance_cases (target : Target) (l r : Value) :
    (∃ n, target.pointerDistance l r = .ok (.ofInt target (.scalar target.differenceType) n))
      ∨ target.pointerDistance l r = .error .overflow := by
  unfold pointerDistance
  simp only []
  split
  · exact .inl ⟨_, rfl⟩
  · exact .inr rfl

theorem type_of_pointerArithmetic {op : BinaryOp} {l r : Value} {judged : Judged}
    (h : target.pointerArithmetic op l r = .ok judged) :
    judged.value.type = target.pointerType l.type r.type := by
  unfold pointerArithmetic at h
  simp only [] at h
  split at h <;> rename_i hl hr
  · split_ifs at h
    cases h
    simp [pointerType, hl, hr]
  · split_ifs at h
    cases h
    simp [pointerType, hl, hr]
  · split_ifs at h
    cases h
    simp [pointerType, hl, hr]
  · split_ifs at h
    rcases pointerDistance_cases target l r with ⟨n, hd⟩ | hd <;> rw [hd] at h <;> cases h
    simp [pointerType, hl, hr]
  · cases h

theorem type_of_shift {op : BinaryOp} {l r : Value} {judged : Judged}
    (h : target.shift op l r = .ok judged) : judged.value.type = target.promote l.type := by
  unfold shift at h
  split at h
  · cases h
  · cases h
    simp

theorem type_of_comparison {op : BinaryOp} {l r : Value} {judged : Judged}
    (h : target.comparison op l r = .ok judged) : judged.value.type = .bool := by
  unfold comparison at h
  split at h
  · cases h
    rfl
  · cases h

theorem type_of_arithmetic {op : BinaryOp} {l r : Value} {judged : Judged}
    (h : target.arithmetic op l r = .ok judged) :
    target.commonType? l.type r.type = some judged.value.type := by
  unfold arithmetic at h
  simp only [] at h
  split at h
  · cases h
  · rename_i common hc
    rw [hc]
    split_ifs at h
    · split at h <;> cases h
      rfl
    · split at h <;> cases h
      simp

theorem type_of_binary {op : BinaryOp} {l r : Value} {judged : Judged}
    (h : target.binary op l r = .ok judged) :
    target.binaryType? op l.type r.type = some judged.value.type := by
  unfold binary at h
  unfold binaryType?
  split_ifs at h ⊢
  · rw [type_of_pointerArithmetic h]
  · rw [type_of_shift h]
  · rw [type_of_comparison h]
  · exact type_of_arithmetic h

theorem type_of_cast {v : Value} {dest : Ty} {judged : Judged}
    (h : target.cast v dest = .ok judged) : judged.value.type = dest := by
  unfold cast at h
  simp only [] at h
  split at h
  · cases h
  · split_ifs at h
    cases h
    simp [Judged.clean]
  · split_ifs at h
    cases h
    simp

theorem promote_isTestable {type : Ty} (ha : type.isArithmetic) :
    (target.promote type).isTestable := by
  cases type with
  | scalar s => simp only [promote]; split_ifs <;> rfl
  | enumeration e => simp only [promote]; split_ifs <;> rfl
  | pointer _ => simp [Ty.isArithmetic] at ha
  | record _ => simp [Ty.isArithmetic] at ha

/-- The common type of a conditional's branches is that of the first, or no record. -/
theorem conditionalType?_cases {l r common : Ty} (h : target.conditionalType? l r = some common) :
    common = l ∨ common.isTestable := by
  unfold conditionalType? at h
  by_cases he : l = r
  · rw [if_pos he] at h
    exact .inl (Option.some.inj h).symm
  · rw [if_neg he] at h
    rcases hc : target.commonType? l r with _ | c <;> rw [hc] at h
    · simp only [] at h
      split_ifs at h with hl hr
      · exact .inl (Option.some.inj h).symm
      · cases h
        simp only [Bool.and_eq_true] at hr
        right
        cases r <;> first | rfl | exact absurd hr.1.2 (by simp [Ty.isPointer])
    · obtain ⟨s, rfl⟩ := commonType?_eq_scalar target hc
      cases h
      exact .inr rfl

section Enumerations

variable {p : EnumType → Bool}

theorem unaryType_enumsIn (op : UnaryOp) {type : Ty} (h : type.enumsIn p) :
    (target.unaryType op type).enumsIn p := by
  cases op
  · simp only [unaryType]
    split_ifs
    · exact h
    · exact promote_enumsIn target h
  · exact promote_enumsIn target h
  · rfl
  · exact promote_enumsIn target h

theorem binaryType?_enumsIn {op : BinaryOp} {l r type : Ty} (hl : l.enumsIn p)
    (hr : r.enumsIn p) (h : target.binaryType? op l r = some type) : type.enumsIn p := by
  unfold binaryType? at h
  split_ifs at h
  · cases h
    unfold pointerType
    split_ifs
    · rfl
    · exact hl
    · exact hr
  · cases h
    exact promote_enumsIn target hl
  · cases h
    rfl
  · exact commonType?_enumsIn target h

end Enumerations

end Assay.Target
