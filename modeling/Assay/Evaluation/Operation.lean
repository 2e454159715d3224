import Assay.Evaluation.Error

/-!
# Operations on values

What each operator and cast does to operands that have been evaluated: an error, or a value
together with the finding of the operation. A value is computed whatever the finding, so that an
evaluation can carry on past it. Integers are computed with 128 bits and then reduced to the width
of the result. All but the distance of two pointers wraps there.
-/

namespace Assay

/-- The value of an operation, and the undefined behaviour it showed. -/
structure Judged where
  finding : Finding
  value : Value
deriving DecidableEq

/-- A value without undefined behaviour. -/
def Judged.clean (value : Value) : Judged := ⟨.none, value⟩

/-- The error of an operator that does not take operands of these types. -/
def EvalError.ofOperands (op : BinaryOp) (l r : Value) : EvalError :=
  .invalidBinary op l.type r.type

namespace Target

/-- A bitwise operation on integers of 128 bits. -/
def bitwise (f : BitVec 128 → BitVec 128 → BitVec 128) (a b : Int) : Int :=
  (f (BitVec.ofInt 128 a) (BitVec.ofInt 128 b)).toInt

def unary (target : Target) (op : UnaryOp) (v : Value) : Except EvalError Value :=
  let promoted := target.promote v.type
  let converted := v.convert target promoted
  match op with
  | .logicalNot =>
    if v.type.isTestable then .ok (.boolean !v.isTruthy) else .error (.invalidUnary op v.type)
  | .plus =>
    if v.type.isPointer then .ok v
    else if v.type.isArithmetic then .ok converted
    else .error (.invalidUnary op v.type)
  | .neg =>
    if !v.type.isArithmetic then .error (.invalidUnary op v.type)
    else if promoted.isFloating then .ok (.ofBinary64 promoted (-converted.toBinary64))
    else .ok (.ofInt target promoted (wrapWide (-converted.toInt)))
  | .bitNot =>
    if v.type.isIntegerOperand then .ok (.ofInt target promoted (-converted.toInt - 1))
    else .error (.invalidUnary op v.type)

/-- A pointer moved by a number of elements; the address wraps at the width of a pointer. -/
def movePointer (target : Target) (pointer : Value) (elements : Int) : Value :=
  let size := (pointer.type.pointee?.map target.sizeOf).getD 1
  .ofInt target pointer.type (wrapWide (pointer.toInt + wrapWide (elements * size)))

/-- The number of elements from `r` to `l`, rounded toward zero. It overflows only where a pointer
holds a double that is no address. -/
def pointerDistance (target : Target) (l r : Value) : Except EvalError Value :=
  let size := max 1 ((l.type.pointee?.map target.sizeOf).getD 1)
  let distance := l.toInt - r.toInt
  if wideRange.contains distance then
    .ok (.ofInt target (.scalar target.differenceType) (distance.tdiv size))
  else .error .overflow

/-- `ptr + n`, `n + ptr`, `ptr - n` and `ptr - ptr`. -/
def pointerArithmetic (target : Target) (op : BinaryOp) (l r : Value) : Except EvalError Judged :=
  let judged (value : Value) := Except.ok ⟨target.classify op l r, value⟩
  let error := Except.error (.ofOperands op l r)
  match op, l.type.isPointer, r.type.isPointer with
  | .plus, true, false =>
    if r.type.isIntegerOperand then judged (target.movePointer l r.toInt) else error
  | .plus, false, true =>
    if l.type.isIntegerOperand then judged (target.movePointer r l.toInt) else error
  | .minus, true, false =>
    if r.type.isIntegerOperand then judged (target.movePointer l (wrapWide (-r.toInt))) else error
  | .minus, true, true =>
    if l.type = r.type then do judged (← target.pointerDistance l r) else error
  | _, _, _ => error

/-- Shifts promote each operand on its own, and the result has the type of the left one. The
amount is reduced modulo the width. -/
def shift (target : Target) (op : BinaryOp) (l r : Value) : Except EvalError Judged :=
  if !l.type.isIntegerOperand || !r.type.isIntegerOperand then .error (.ofOperands op l r)
  else
    let type := target.promote l.type
    let l := l.convert target type
    let r := r.convert target (target.promote r.type)
    let amount := (r.toInt % target.shiftWidth type).toNat
    let factor := Nat.pow 2 amount
    let result := if op = .shl then wrapWide (l.toInt * factor) else l.toInt / factor
    .ok ⟨target.classify op l r, .ofInt target type result⟩

/-- Whether a comparison holds of operands in this order; operands without an order only differ. -/
def holds (op : BinaryOp) (order : Option Ordering) : Option Bool :=
  match op with
  | .lt => some (order == some .lt)
  | .le => some (order == some .lt || order == some .eq)
  | .gt => some (order == some .gt)
  | .ge => some (order == some .gt || order == some .eq)
  | .eq => some (order == some .eq)
  | .ne => some (order != some .eq)
  | _ => none

/-- The order of two operands: that of addresses for pointers, and otherwise that of the values
in their common type. -/
def order? (target : Target) (l r : Value) : Option (Option Ordering) :=
  if l.type.isPointer && r.type.isPointer then some (some (compare l.toInt r.toInt))
  else do
    let common ← target.commonType? l.type r.type
    let l := l.convert target common
    let r := r.convert target common
    if common.isFloating then some (l.toBinary64.compare? r.toBinary64)
    else some (some (compare l.toInt r.toInt))

def comparison (target : Target) (op : BinaryOp) (l r : Value) : Except EvalError Judged :=
  match (target.order? l r).bind (holds op) with
  | some result => .ok (.clean (.boolean result))
  | none => .error (.ofOperands op l r)

/-- The floating operators. -/
def floatingResult? (op : BinaryOp) (x y : Binary64) : Option Binary64 :=
  match op with
  | .mul => some (x * y)
  | .div => some (x / y)
  | .plus => some (x + y)
  | .minus => some (x - y)
  | _ => none

/-- The integer operators. Division rounds toward zero and is zero when the divisor is. -/
def integerResult? (op : BinaryOp) (a b : Int) : Option Int :=
  match op with
  | .mul => some (wrapWide (a * b))
  | .div => some (if b = 0 then 0 else wrapWide (a.tdiv b))
  | .mod => some (if b = 0 then 0 else a.tmod b)
  | .plus => some (wrapWide (a + b))
  | .minus => some (wrapWide (a - b))
  | .bitAnd => some (bitwise (· &&& ·) a b)
  | .bitOr => some (bitwise (· ||| ·) a b)
  | .bitXor => some (bitwise (· ^^^ ·) a b)
  | _ => none

/-- `* / % + - & | ^` on arithmetic operands, in their common type. -/
def arithmetic (target : Target) (op : BinaryOp) (l r : Value) : Except EvalError Judged :=
  let error := Except.error (.ofOperands op l r)
  match target.commonType? l.type r.type with
  | none => error
  | some common =>
    let a := l.convert target common
    let b := r.convert target common
    if common.isFloating then
      match floatingResult? op a.toBinary64 b.toBinary64 with
      | some x => .ok (.clean (.ofBinary64 common x))
      | none => error
    else
      match integerResult? op a.toInt b.toInt with
      | some n => .ok ⟨target.classify op a b, .ofInt target common n⟩
      | none => error

/-- Every binary operator but `&&` and `||`, whose right operand may go unevaluated. -/
def binary (target : Target) (op : BinaryOp) (l r : Value) : Except EvalError Judged :=
  if (op = .plus ∨ op = .minus) ∧ (l.type.isPointer ∨ r.type.isPointer) then
    target.pointerArithmetic op l r
  else if op.isShift then target.shift op l r
  else if op.isComparison then target.comparison op l r
  else target.arithmetic op l r

/-- A cast. Records are not cast, and a pointer is cast only from and to integral types and
pointers; only conversions between the other types are classified. -/
def cast (target : Target) (v : Value) (dest : Ty) : Except EvalError Judged :=
  let error := Except.error (.invalidCast v.type dest)
  match dest with
  | .record _ => error
  | .pointer _ =>
    if v.type.isPointer || v.type.isIntegral then .ok (.clean (v.convert target dest)) else error
  | _ =>
    if !v.type.isTestable || (v.type.isPointer && dest.isFloating) then error
    else .ok ⟨target.checkCast v dest, v.convert target dest⟩

end Target

end Assay
