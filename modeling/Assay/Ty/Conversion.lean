import Assay.Target

/-!
# Promotion and the usual arithmetic conversions

Types of rank below `int` are promoted before arithmetic, and the two operands of an arithmetic
operator are brought to a common type (`Target.commonType?`).
-/

namespace Assay

namespace ScalarType

/-- Conversion rank; floating types rank above all integers. -/
def rank : ScalarType → Nat
  | bool => 0
  | char | signedChar | unsignedChar => 1
  | short | unsignedShort => 2
  | int | unsignedInt => 3
  | long | unsignedLong => 4
  | longLong | unsignedLongLong => 5
  | float | double => 255

/-- The unsigned type of the same rank. -/
def unsignedCounterpart : ScalarType → ScalarType
  | char | signedChar => unsignedChar
  | short => unsignedShort
  | int => unsignedInt
  | long => unsignedLong
  | longLong => unsignedLongLong
  | s => s

end ScalarType

namespace Target

/-- A scalar of rank below `int` becomes `int` when `int` can hold all its values, and
`unsigned int` otherwise. -/
def promoteScalar (target : Target) (s : ScalarType) : ScalarType :=
  let width := target.scalarWidth s
  let intWidth := target.scalarWidth .int
  if ScalarType.int.rank ≤ s.rank then s
  else if width < intWidth || (width = intWidth && target.scalarSigned s) then .int
  else .unsignedInt

/-- Integral promotion. An unscoped enumeration promotes through its underlying type; types that
are not integral, and scoped enumerations, stay as they are. -/
def promote (target : Target) : Ty → Ty
  | .scalar s => if s.isIntegral then .scalar (target.promoteScalar s) else .scalar s
  | .enumeration e =>
    if e.isScoped then .enumeration e else .scalar (target.promoteScalar e.underlying)
  | type => type

/-- The common type of two promoted scalars: the higher rank of two of one signedness; otherwise
the unsigned type unless the signed one outranks it, and then the signed one if it is wider, or
else its unsigned counterpart. -/
def commonScalar (target : Target) (l r : ScalarType) : ScalarType :=
  if l = r then l
  else if target.scalarSigned l = target.scalarSigned r then
    if r.rank ≤ l.rank then l else r
  else
    let (unsigned, signed) := if target.scalarSigned l then (r, l) else (l, r)
    if signed.rank ≤ unsigned.rank then unsigned
    else if target.scalarWidth unsigned < target.scalarWidth signed then signed
    else signed.unsignedCounterpart

/-- The type to which the usual arithmetic conversions bring two operands, when both are
arithmetic. -/
def commonType? (target : Target) (l r : Ty) : Option Ty :=
  if !l.isArithmetic || !r.isArithmetic then none
  else if l = .scalar .double ∨ r = .scalar .double then some (.scalar .double)
  else if l = .scalar .float ∨ r = .scalar .float then some (.scalar .float)
  else
    match target.promote l, target.promote r with
    | .scalar l, .scalar r => some (.scalar (target.commonScalar l r))
    | _, _ => none

/-- How many bits a shift may move an operand by: the width of its promoted type. -/
def shiftWidth (target : Target) (type : Ty) : Nat := target.width (target.promote type)

/-- The common type of the second and third operands of a conditional: an integer joins a pointer,
and otherwise the usual arithmetic conversions decide. -/
def conditionalType? (target : Target) (l r : Ty) : Option Ty :=
  if l = r then some l
  else
    match target.commonType? l r with
    | some common => some common
    | none =>
      if l.isPointer && !r.isPointer && r.isIntegerOperand then some l
      else if !l.isPointer && r.isPointer && l.isIntegerOperand then some r
      else none

end Target

end Assay
