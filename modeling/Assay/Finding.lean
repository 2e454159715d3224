import Assay.Operator
import Assay.Ty.Conversion
import Assay.Value.Basic

/-!
# Findings

A finding names the undefined behaviour that one operation shows on its operands. Every operation
has a classification, and none of them fails. Of several findings the first one counts
(`Finding.orElse`).
-/

namespace Assay

/-- What undefined behaviour an operation shows. -/
inductive Finding
  | none
  | divisionByZero
  | divisionByMinusOne
  | invalidCast
  | invalidShift
  | nullArithmetic
  | invalidDifference
deriving DecidableEq, Inhabited

namespace Finding

/-- Whether there is undefined behaviour. -/
def isUndefined (finding : Finding) : Bool := finding != none

/-- The earlier of two findings. -/
def orElse (first second : Finding) : Finding := if first.isUndefined then first else second

def description : Finding → String
  | none => "no undefined behavior"
  | divisionByZero => "division by zero"
  | divisionByMinusOne => "signed division overflow (minimum value by -1)"
  | invalidCast => "floating value out of range of the destination type"
  | invalidShift => "shift amount negative or not less than the operand width"
  | nullArithmetic => "arithmetic on a null pointer"
  | invalidDifference => "pointer difference is not a multiple of the element size"

end Finding

namespace Target

/-- Integer division and remainder: a zero divisor, or the least value of a signed type divided by
minus one. Floating operands never qualify. -/
def checkDivision (target : Target) (l r : Value) : Finding :=
  match l.toInt?, r.toInt? with
  | some dividend, some divisor =>
    if divisor = 0 then .divisionByZero
    else if divisor = -1 ∧ target.isSigned l.type ∧
        (target.range? l.type).map (·.min) = some dividend then .divisionByMinusOne
    else .none
  | _, _ => .none

/-- Shifts: the amount must be at least zero and below the width of the promoted left operand,
whose value does not matter. -/
def checkShift (target : Target) (type : Ty) (amount : Value) : Finding :=
  match amount.toInt? with
  | some n => if n < 0 ∨ (target.shiftWidth type : Int) ≤ n then .invalidShift else .none
  | none => .none

/-- Conversion of a floating value to an integral type other than `bool`: the value must be finite
and its whole part in the type's range, the bounds of which are compared as doubles. The greatest
integer of a type need not be a double, but the integer after it is. -/
def checkCast (target : Target) (v : Value) (type : Ty) : Finding :=
  if !v.type.isFloating || type.isBool then .none
  else
    match target.range? type with
    | none => .none
    | some range =>
      let x := v.toBinary64
      let lower := Binary64.ofInt range.min
      let upper := Binary64.ofInt (range.max + 1)
      if x.isFinite && lower.le x.truncate && x.truncate.lt upper then .none else .invalidCast

/-- A pointer moved by an integer: null moves only by zero. -/
def checkPointerAdd (pointer offset : Value) : Finding :=
  match pointer.address?, offset.toInt? with
  | some address, some n => if address = 0 ∧ n ≠ 0 then .nullArithmetic else .none
  | _, _ => .none

/-- An integer subtracted from a pointer is not classified, not even from null. -/
def checkPointerSub (_pointer _offset : Value) : Finding := .none

/-- A difference of pointers: a negative distance in bytes that is no multiple of the element
size. The distance is taken modulo `2 ^ 64`; positive ones, and elements of at most one byte, are
tolerated. -/
def checkPointerDifference (target : Target) (l r : Value) : Finding :=
  match l.address?, r.address?, l.type.pointee? with
  | some a, some b, some pointee =>
    let size := Int.bmod (target.sizeOf pointee) UInt64.size
    let distance := Int.bmod (a.toNat - b.toNat) UInt64.size
    if 1 < size ∧ distance < 0 ∧ distance.tmod size ≠ 0 then .invalidDifference else .none
  | _, _, _ => .none

/-- The finding of `l op r` for operands already converted: to their common type for arithmetic,
each promoted on its own for shifts, and unconverted for pointers. -/
def classify (target : Target) (op : BinaryOp) (l r : Value) : Finding :=
  match op with
  | .div | .mod =>
    if l.type.isIntegral && r.type.isIntegral then target.checkDivision l r else .none
  | .shl | .shr => target.checkShift l.type r
  | .plus =>
    if l.type.isPointer && r.type.isIntegral then checkPointerAdd l r
    else if l.type.isIntegral && r.type.isPointer then checkPointerAdd r l
    else .none
  | .minus =>
    if l.type.isPointer && r.type.isPointer then target.checkPointerDifference l r
    else if l.type.isPointer && r.type.isIntegral then checkPointerSub l r
    else .none
  | _ => .none

end Target

end Assay
