import Assay.Proofs.Evaluation.Overflow
import Assay.Proofs.Trapping.Value
import Assay.Proofs.Value.Residue

/-!
# Operators on a machine

The classifications and operators of a target as a machine carries them out: each is the one of the
same name with its integers computed by the machine, after a finding as well as without one. They
give what they give on integers (`unary_eq`, `cast_eq`, `movePointer_eq`). Only the distance of
two pointers can overflow, as it is subtracted in 128 bits without wrapping, and the machine is
stopped just there (`binary_eq`).
-/

namespace Assay

open IntFormat (i128 i64)

theorem Ty.isTestable_of_isPointer {type : Ty} (h : type.isPointer) : type.isTestable := by
  cases type <;> first | rfl | cases h

theorem Target.exists_promote_eq_scalar (target : Target) {type : Ty} (ha : type.isArithmetic) :
    ∃ s, target.promote type = .scalar s := by
  cases type with
  | scalar s =>
    simp only [Target.promote]
    split_ifs <;> exact ⟨_, rfl⟩
  | enumeration e =>
    have hscoped : e.isScoped = false := by simpa [Ty.isArithmetic] using ha
    simp only [Target.promote, hscoped]
    exact ⟨_, rfl⟩
  | pointer _ | record _ => cases ha

namespace Trapping

variable (target : Target)

/-! ## Findings -/

def checkDivision (l r : Value) : Trapping Finding :=
  match l.toInt?, r.toInt? with
  | some dividend, some divisor => do
    if divisor = 0 then return .divisionByZero
    else if divisor = -1 ∧ target.isSigned l.type then
      if (← range? target l.type).map (·.min) = some dividend then return .divisionByMinusOne
      else return .none
    else return .none
  | _, _ => return .none

def checkShift (type : Ty) (amount : Value) : Trapping Finding :=
  match amount.toInt? with
  | some n => do
    let bits ← width target (target.promote type)
    return if n < 0 ∨ bits ≤ n then .invalidShift else .none
  | none => return .none

def checkCast (v : Value) (type : Ty) : Trapping Finding := do
  if !v.type.isFloating || type.isBool then return .none
  else
    match ← range? target type with
    | none => return .none
    | some range =>
      let x := v.toBinary64
      if x.isFinite then
        let lower := Binary64.ofInt range.min
        let upper := Binary64.ofInt (← i128.add range.max 1)
        return if lower.le x.truncate && x.truncate.lt upper then .none else .invalidCast
      else return .invalidCast

def checkPointerDifference (l r : Value) : Trapping Finding :=
  match l.address?, r.address?, l.type.pointee? with
  | some a, some b, some pointee => do
    let size := i64.wrap (← sizeOf target pointee)
    if size ≤ 1 then return .none
    else
      let distance := i64.wrap (a.toNat - b.toNat)
      if distance < 0 then
        return if (← i64.rem distance size) ≠ 0 then .invalidDifference else .none
      else return .none
  | _, _, _ => return .none

def classify (op : BinaryOp) (l r : Value) : Trapping Finding :=
  match op with
  | .div | .mod =>
    if l.type.isIntegral && r.type.isIntegral then checkDivision target l r else return .none
  | .shl | .shr => checkShift target l.type r
  | .plus =>
    if l.type.isPointer && r.type.isIntegral then return Target.checkPointerAdd l r
    else if l.type.isIntegral && r.type.isPointer then return Target.checkPointerAdd r l
    else return .none
  | .minus =>
    if l.type.isPointer && r.type.isPointer then checkPointerDifference target l r
    else if l.type.isPointer && r.type.isIntegral then return Target.checkPointerSub l r
    else return .none
  | _ => return .none

/-! ## Operators -/

def unary (op : UnaryOp) (v : Value) : Trapping (Except EvalError Value) :=
  let promoted := target.promote v.type
  match op with
  | .logicalNot =>
    return if v.type.isTestable then .ok (.boolean !v.isTruthy)
      else .error (.invalidUnary op v.type)
  | .plus => do
    if v.type.isPointer then return .ok v
    else if v.type.isArithmetic then return .ok (← convert target v promoted)
    else return .error (.invalidUnary op v.type)
  | .neg => do
    if v.type.isArithmetic then
      let converted ← convert target v promoted
      if promoted.isFloating then return .ok (.ofBinary64 promoted (-converted.toBinary64))
      else return .ok (← ofInt target promoted (i128.wrap (-converted.toInt)))
    else return .error (.invalidUnary op v.type)
  | .bitNot => do
    if v.type.isIntegerOperand then
      let converted ← convert target v promoted
      return .ok (← ofInt target promoted (-converted.toInt - 1))
    else return .error (.invalidUnary op v.type)

/-- Size of what a pointer points to. -/
def elementSize (type : Ty) : Trapping Int :=
  match type.pointee? with
  | some pointee => sizeOf target pointee
  | none => return 1

def movePointer (pointer : Value) (elements : Int) : Trapping Value := do
  let size ← elementSize target pointer.type
  ofInt target pointer.type (i128.wrap (pointer.toInt + i128.wrap (elements * size)))

def pointerDistance (l r : Value) : Trapping Value := do
  let size := max 1 (← elementSize target l.type)
  let distance ← (i128.sub l.toInt r.toInt).mapError fun _ => .distance
  ofInt target (.scalar target.differenceType) (← i128.div distance size)

def pointerArithmetic (op : BinaryOp) (l r : Value) : Trapping (Except EvalError Judged) :=
  let judged (value : Trapping Value) : Trapping (Except EvalError Judged) := do
    return .ok ⟨← classify target op l r, ← value⟩
  let error := return .error (.ofOperands op l r)
  match op, l.type.isPointer, r.type.isPointer with
  | .plus, true, false =>
    if r.type.isIntegerOperand then judged (movePointer target l r.toInt) else error
  | .plus, false, true =>
    if l.type.isIntegerOperand then judged (movePointer target r l.toInt) else error
  | .minus, true, false =>
    if r.type.isIntegerOperand then judged (movePointer target l (i128.wrap (-r.toInt))) else error
  | .minus, true, true =>
    if l.type = r.type then judged (pointerDistance target l r) else error
  | _, _, _ => error

def moveBits (op : BinaryOp) (n amount : Int) : Trapping Int :=
  if op = .shl then i128.shl n amount else i128.shr n amount

def shift (op : BinaryOp) (l r : Value) : Trapping (Except EvalError Judged) := do
  if !l.type.isIntegerOperand || !r.type.isIntegerOperand then return .error (.ofOperands op l r)
  else
    let type := target.promote l.type
    let l ← convert target l type
    let r ← convert target r (target.promote r.type)
    let finding ← classify target op l r
    let amount ← i128.remEuclid r.toInt (← width target (target.promote type))
    return .ok ⟨finding, ← ofInt target type (← moveBits op l.toInt amount)⟩

def order? (l r : Value) : Trapping (Option (Option Ordering)) :=
  if l.type.isPointer && r.type.isPointer then return some (some (compare l.toInt r.toInt))
  else
    match target.commonType? l.type r.type with
    | none => return none
    | some common => do
      let l ← convert target l common
      let r ← convert target r common
      if common.isFloating then return some (l.toBinary64.compare? r.toBinary64)
      else return some (some (compare l.toInt r.toInt))

def comparison (op : BinaryOp) (l r : Value) : Trapping (Except EvalError Judged) := do
  match (← order? target l r).bind (Target.holds op) with
  | some result => return .ok (.clean (.boolean result))
  | none => return .error (.ofOperands op l r)

/-- The integer operators. Those other than division wrap. -/
def integerResult? (op : BinaryOp) (a b : Int) : Trapping (Option Int) :=
  match op with
  | .div => do if b = 0 then return some 0 else return some (← i128.wrappingDiv a b)
  | .mod => do if b = 0 then return some 0 else return some (← i128.wrappingRem a b)
  | op => return Target.integerResult? op a b

def arithmetic (op : BinaryOp) (l r : Value) : Trapping (Except EvalError Judged) :=
  match target.commonType? l.type r.type with
  | none => return .error (.ofOperands op l r)
  | some common => do
    let a ← convert target l common
    let b ← convert target r common
    if common.isFloating then
      match Target.floatingResult? op a.toBinary64 b.toBinary64 with
      | some x => return .ok (.clean (.ofBinary64 common x))
      | none => return .error (.ofOperands op l r)
    else
      match ← integerResult? op a.toInt b.toInt with
      | some n => return .ok ⟨← classify target op a b, ← ofInt target common n⟩
      | none => return .error (.ofOperands op l r)

def binary (op : BinaryOp) (l r : Value) : Trapping (Except EvalError Judged) :=
  if (op = .plus ∨ op = .minus) ∧ (l.type.isPointer ∨ r.type.isPointer) then
    pointerArithmetic target op l r
  else if op.isShift then shift target op l r
  else if op.isComparison then comparison target op l r
  else arithmetic target op l r

def cast (v : Value) (dest : Ty) : Trapping (Except EvalError Judged) :=
  let error := return .error (.invalidCast v.type dest)
  match dest with
  | .record _ => error
  | .pointer _ => do
    if v.type.isPointer || v.type.isIntegral then return .ok (.clean (← convert target v dest))
    else error
  | _ => do
    if !v.type.isTestable || (v.type.isPointer && dest.isFloating) then error
    else return .ok ⟨← checkCast target v dest, ← convert target v dest⟩

/-! ## What they give -/

/-- The result of an operation on a machine, which is stopped by the overflow of a distance. -/
def ofResult {α : Type} (result : Except EvalError α) : Trapping (Except EvalError α) :=
  match result with
  | .error .overflow => .error .distance
  | result => pure result

theorem ofResult_eq {α : Type} {result : Except EvalError α} (h : result ≠ .error .overflow) :
    ofResult result = pure result := by
  unfold ofResult
  split
  · exact absurd rfl h
  · rfl

variable {target} {arch : Arch} {op : BinaryOp} {l r : Value}

theorem checkDivision_eq (hw : target.FitsWord) (l r : Value) :
    checkDivision target l r = pure (target.checkDivision l r) := by
  unfold checkDivision Target.checkDivision
  simp only [range?_eq hw, pure_bind]
  rcases l.toInt? with _ | dividend <;> rcases r.toInt? with _ | divisor <;> try rfl
  by_cases hzero : divisor = 0
  · simp only [hzero, ↓reduceIte]
  by_cases hone : divisor = -1 ∧ target.isSigned l.type
  · simp only [hone, true_and, Int.reduceNeg, Int.reduceEq, ↓reduceIte]
    split <;> rfl
  · have : ¬ (divisor = -1 ∧ target.isSigned l.type ∧
        (target.range? l.type).map (·.min) = some dividend) := fun h => hone ⟨h.1, h.2.1⟩
    simp only [hzero, hone, this, ↓reduceIte]

theorem checkShift_eq {type : Ty} (ht : (target.promote type).isTestable) (amount : Value) :
    checkShift target type amount = pure (target.checkShift type amount) := by
  unfold checkShift Target.checkShift
  rcases amount.toInt? with _ | n
  · rfl
  · simp only [width_eq ht, pure_bind]
    rfl

theorem contains_max_add_one (hw : target.FitsWord) {type : Ty} {range : IntRange}
    (h : target.range? type = some range) : i128.range.contains (range.max + 1) := by
  have hscalar : ∃ s, target.scalarRange s = range := by
    cases type with
    | scalar s =>
      simp only [Target.range?] at h
      split_ifs at h
      exact ⟨s, Option.some.inj h⟩
    | enumeration e => exact ⟨e.underlying, Option.some.inj h⟩
    | pointer _ | record _ => cases h
  obtain ⟨s, rfl⟩ := hscalar
  obtain ⟨hmin, hmax, hlength⟩ := Target.scalarRange_bounds hw s
  have hpow : Nat.pow 2 (target.scalarWidth s) ≤ 2 ^ 64 :=
    Nat.pow_le_pow_right (by decide) (hw s).2
  exact IntFormat.contains_of_natAbs_le (by omega)

theorem checkCast_eq (hw : target.FitsWord) (v : Value) (type : Ty) :
    checkCast target v type = pure (target.checkCast v type) := by
  unfold checkCast Target.checkCast
  split
  · rfl
  rw [range?_eq hw, pure_bind]
  rcases hrange : target.range? type with _ | range
  · rfl
  have hadd := IntFormat.add_eq (contains_max_add_one hw hrange)
  simp only [hadd, pure_bind]
  split <;> simp_all

theorem checkPointerDifference_eq (arch : Arch) (l r : Value) :
    checkPointerDifference (.ofArch arch) l r =
      pure ((Target.ofArch arch).checkPointerDifference l r) := by
  unfold checkPointerDifference Target.checkPointerDifference
  rcases l.address? with _ | a <;> rcases r.address? with _ | b <;>
    rcases l.type.pointee? with _ | pointee <;> try rfl
  simp only [sizeOf_eq, pure_bind]
  -- both stay variables, so that no power of two is computed
  generalize hsize : i64.wrap ((Target.ofArch arch).sizeOf pointee) = size
  generalize hdistance : i64.wrap (a.toNat - b.toNat) = distance
  have hrange : i64.range.contains distance := hdistance ▸ IntFormat.contains_wrap i64 _
  rw [IntFormat.wrap_i64] at hsize hdistance
  rw [hsize, hdistance]
  by_cases hone : size ≤ 1
  · have : ¬ 1 < size := by omega
    simp only [hone, this, false_and, ↓reduceIte]
  · have hlt : 1 < size := by omega
    rw [IntFormat.rem_of_pos (by omega) hrange, pure_bind]
    simp only [hone, hlt, true_and, ↓reduceIte]
    split_ifs <;> simp_all

theorem classify_eq (arch : Arch) (op : BinaryOp) (l r : Value)
    (ht : op.isShift → ((Target.ofArch arch).promote l.type).isTestable) :
    classify (.ofArch arch) op l r = pure ((Target.ofArch arch).classify op l r) := by
  have hw := Target.fitsWord_ofArch arch
  cases op with
  | div | mod =>
    simp only [classify, Target.classify, checkDivision_eq hw]
    split <;> rfl
  | shl | shr => exact checkShift_eq (ht rfl) r
  | plus =>
    simp only [classify, Target.classify]
    split_ifs <;> rfl
  | minus =>
    simp only [classify, Target.classify, checkPointerDifference_eq]
    split_ifs <;> rfl
  | _ => rfl

theorem unary_eq (arch : Arch) (op : UnaryOp) (v : Value) :
    unary (.ofArch arch) op v = pure ((Target.ofArch arch).unary op v) := by
  have hp (ha : v.type.isArithmetic) : ((Target.ofArch arch).promote v.type).isTestable :=
    Target.promote_isTestable ha
  unfold unary Target.unary
  cases op with
  | logicalNot => rfl
  | plus =>
    simp only []
    split_ifs with h h'
    · rfl
    · rw [convert_eq (hp h')]
      rfl
    · rfl
  | neg =>
    cases ha : v.type.isArithmetic
    · rfl
    · simp only [convert_eq (hp ha), ofInt_eq (hp ha), pure_bind, Bool.not_true,
        Bool.false_eq_true, ↓reduceIte]
      split <;> rfl
  | bitNot =>
    simp only []
    split_ifs with h
    · have ht := hp (Bool.and_eq_true_iff.mp h).2
      simp only [convert_eq ht, ofInt_eq ht, pure_bind]
    · rfl

theorem elementSize_eq (arch : Arch) (type : Ty) :
    elementSize (.ofArch arch) type =
      pure (((type.pointee?.map (Target.ofArch arch).sizeOf).getD 1 : Nat) : Int) := by
  unfold elementSize
  rcases type.pointee? with _ | pointee
  · rfl
  · exact sizeOf_eq arch pointee

theorem movePointer_eq (arch : Arch) {pointer : Value} (hp : pointer.type.isPointer)
    (elements : Int) : movePointer (.ofArch arch) pointer elements =
      pure ((Target.ofArch arch).movePointer pointer elements) := by
  rw [movePointer, elementSize_eq, pure_bind, ofInt_eq (Ty.isTestable_of_isPointer hp)]
  rfl

theorem pointerDistance_eq (arch : Arch) (l r : Value) :
    pointerDistance (.ofArch arch) l r =
      ((Target.ofArch arch).pointerDistance l r).mapError fun _ => .distance := by
  rw [pointerDistance, Target.pointerDistance, elementSize_eq, pure_bind]
  by_cases h : wideRange.contains (l.toInt - r.toInt)
  · have hdistance : i128.range.contains (l.toInt - r.toInt) := h
    have hsize (n : Nat) : max 1 (n : Int) = (max 1 n : Nat) := by omega
    simp only [IntFormat.sub_eq hdistance, h, ↓reduceIte, hsize]
    change IntFormat.div i128 _ _ >>= _ = _
    rw [IntFormat.div_of_pos (by omega) hdistance, pure_bind, ofInt_scalar]
    rfl
  · have hdistance : ¬ i128.range.contains (l.toInt - r.toInt) := h
    simp only [IntFormat.sub_of_not_contains hdistance, h, Bool.false_eq_true, ↓reduceIte]
    rfl

theorem pointerArithmetic_eq (arch : Arch) (op : BinaryOp) (l r : Value) :
    pointerArithmetic (.ofArch arch) op l r =
      ofResult ((Target.ofArch arch).pointerArithmetic op l r) := by
  have hclassify (h : op.isShift = false) := classify_eq arch op l r (by simp [h])
  unfold pointerArithmetic Target.pointerArithmetic
  cases hlp : l.type.isPointer <;> cases hrp : r.type.isPointer <;> cases op <;> try rfl
  · simp only [hclassify rfl, movePointer_eq arch hrp, pure_bind]
    split <;> rfl
  · simp only [hclassify rfl, movePointer_eq arch hlp, pure_bind]
    split <;> rfl
  · simp only [hclassify rfl, movePointer_eq arch hlp, pure_bind]
    split <;> rfl
  · simp only [hclassify rfl, pointerDistance_eq, pure_bind]
    split
    · rcases Target.pointerDistance_cases (.ofArch arch) l r with ⟨n, hd⟩ | hd <;> rw [hd] <;> rfl
    · rfl

theorem moveBits_eq (op : BinaryOp) (n : Int) {k : Nat} (hk : k < 128) :
    moveBits op n k =
      pure (if op = .shl then wrapWide (n * Nat.pow 2 k) else n / Nat.pow 2 k) := by
  unfold moveBits
  split_ifs
  · exact IntFormat.shl_of_lt hk
  · exact IntFormat.shr_of_lt hk

/-- The amount is reduced modulo the width of a type, which no type of more than 64 bits has. -/
theorem shift_eq (arch : Arch) (op : BinaryOp) (l r : Value) :
    shift (.ofArch arch) op l r = pure ((Target.ofArch arch).shift op l r) := by
  unfold shift Target.shift
  split
  · rfl
  rename_i hoperands
  simp only [Bool.or_eq_true, Bool.not_eq_true', not_or, Bool.not_eq_false] at hoperands
  obtain ⟨s, hs⟩ :=
    Target.exists_promote_eq_scalar (.ofArch arch) (Bool.and_eq_true_iff.mp hoperands.1).2
  obtain ⟨t, ht⟩ :=
    Target.exists_promote_eq_scalar (.ofArch arch) (Bool.and_eq_true_iff.mp hoperands.2).2
  simp only [hs, ht, convert_scalar, pure_bind]
  generalize ha : l.convert (.ofArch arch) (.scalar s) = a
  generalize r.convert (.ofArch arch) (.scalar t) = b
  have htest : ((Target.ofArch arch).promote (.scalar s)).isTestable :=
    Target.promote_isTestable rfl
  have hatype : a.type = .scalar s := by rw [← ha, Value.convert_type]
  obtain ⟨h1, h64⟩ := Target.width_bounds arch htest
  have hwidth : (Target.ofArch arch).shiftWidth (.scalar s) =
    (Target.ofArch arch).width ((Target.ofArch arch).promote (.scalar s)) := rfl
  rw [hwidth, classify_eq arch op a b (fun _ => by rw [hatype]; exact htest), width_eq htest]
  generalize (Target.ofArch arch).width ((Target.ofArch arch).promote (.scalar s)) = bits at h1 h64
  have hlt := Int.emod_lt_of_pos b.toInt (show (0 : Int) < bits by omega)
  obtain ⟨k, hk⟩ :=
    Int.eq_ofNat_of_zero_le (Int.emod_nonneg b.toInt (show (bits : Int) ≠ 0 by omega))
  rw [pure_bind, pure_bind, IntFormat.remEuclid_of_pos (by omega) b.contains_toInt, pure_bind, hk,
    Int.toNat_natCast, moveBits_eq op _ (by omega), pure_bind, ofInt_scalar, pure_bind]

theorem order?_eq (arch : Arch) (l r : Value) :
    order? (.ofArch arch) l r = pure ((Target.ofArch arch).order? l r) := by
  unfold order? Target.order?
  split
  · rfl
  · rcases hc : (Target.ofArch arch).commonType? l.type r.type with _ | common
    · rfl
    · obtain ⟨s, rfl⟩ := Target.commonType?_eq_scalar _ hc
      simp only [convert_scalar, pure_bind, Option.bind_eq_bind, Option.bind_some]
      split <;> rfl

theorem comparison_eq (arch : Arch) (op : BinaryOp) (l r : Value) :
    comparison (.ofArch arch) op l r = pure ((Target.ofArch arch).comparison op l r) := by
  rw [comparison, Target.comparison, order?_eq, pure_bind]
  rcases ((Target.ofArch arch).order? l r).bind (Target.holds op) with _ | result <;> rfl

theorem integerResult?_eq (op : BinaryOp) {a : Int} (ha : i128.range.contains a) (b : Int) :
    integerResult? op a b = pure (Target.integerResult? op a b) := by
  cases op with
  | div =>
    simp only [integerResult?, Target.integerResult?]
    split_ifs with hb
    · rfl
    · rw [IntFormat.wrappingDiv_of_ne hb, pure_bind]
      rfl
  | mod =>
    simp only [integerResult?, Target.integerResult?]
    split_ifs with hb
    · rfl
    · rw [IntFormat.wrappingRem_of_ne hb ha, pure_bind]
  | _ => rfl

theorem arithmetic_eq (arch : Arch) (op : BinaryOp) (l r : Value) (hop : op.isShift = false) :
    arithmetic (.ofArch arch) op l r = pure ((Target.ofArch arch).arithmetic op l r) := by
  unfold arithmetic Target.arithmetic
  rcases hc : (Target.ofArch arch).commonType? l.type r.type with _ | common
  · rfl
  obtain ⟨s, rfl⟩ := Target.commonType?_eq_scalar _ hc
  simp only [convert_scalar, pure_bind]
  generalize l.convert (.ofArch arch) (.scalar s) = a
  generalize r.convert (.ofArch arch) (.scalar s) = b
  rw [integerResult?_eq op a.contains_toInt, pure_bind, classify_eq arch op a b (by simp [hop])]
  simp only [pure_bind, ofInt_scalar]
  split
  · rcases Target.floatingResult? op a.toBinary64 b.toBinary64 with _ | x <;> rfl
  · rcases Target.integerResult? op a.toInt b.toInt with _ | n <;> rfl

theorem binary_eq (arch : Arch) (op : BinaryOp) (l r : Value) :
    binary (.ofArch arch) op l r = ofResult ((Target.ofArch arch).binary op l r) := by
  unfold binary Target.binary
  split_ifs with hp hs hc
  · exact pointerArithmetic_eq arch op l r
  · rw [shift_eq, ofResult_eq Target.shift_ne_overflow]
  · rw [comparison_eq, ofResult_eq Target.comparison_ne_overflow]
  · rw [arithmetic_eq arch op l r (by simpa using hs), ofResult_eq Target.arithmetic_ne_overflow]

theorem cast_eq (arch : Arch) (v : Value) (dest : Ty) :
    cast (.ofArch arch) v dest = pure ((Target.ofArch arch).cast v dest) := by
  have hconvert (ht : dest.isTestable) : convert (.ofArch arch) v dest = _ := convert_eq ht v
  cases dest with
  | record _ => rfl
  | pointer _ =>
    simp only [cast, Target.cast, hconvert rfl, pure_bind]
    split <;> rfl
  | scalar _ | enumeration _ =>
    simp only [cast, Target.cast, checkCast_eq (Target.fitsWord_ofArch arch), hconvert rfl,
      pure_bind]
    split <;> rfl

end Trapping

end Assay
