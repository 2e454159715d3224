import Assay.Expr.Basic
import Assay.Value.Basic

/-!
# Values of literals

An integer literal has the first type of a list, given by its base and suffix, that can hold it.
-/

namespace Assay

namespace IntegerLiteral

/-- The types a literal may have, in order. A decimal literal without `U` stays signed. -/
def candidates (literal : IntegerLiteral) : List ScalarType :=
  match literal.length, literal.isUnsigned, literal.base == .decimal with
  | .int, false, true => [.int, .long, .longLong]
  | .int, false, false => [.int, .unsignedInt, .long, .unsignedLong, .longLong, .unsignedLongLong]
  | .int, true, _ => [.unsignedInt, .unsignedLong, .unsignedLongLong]
  | .long, false, true => [.long, .longLong]
  | .long, false, false => [.long, .unsignedLong, .longLong, .unsignedLongLong]
  | .long, true, _ => [.unsignedLong, .unsignedLongLong]
  | .longLong, false, true => [.longLong]
  | .longLong, false, false => [.longLong, .unsignedLongLong]
  | .longLong, true, _ => [.unsignedLongLong]

/-- The literal's type: the first candidate that holds its value, or `unsigned long long`. -/
def type (literal : IntegerLiteral) (target : Target) : ScalarType :=
  let fits (s : ScalarType) := (target.scalarRange s).contains literal.value.toNat
  (literal.candidates.find? fits).getD .unsignedLongLong

def toValue (literal : IntegerLiteral) (target : Target) : Value :=
  .ofInt target (.scalar (literal.type target)) literal.value.toNat

end IntegerLiteral

def FloatingLiteral.toValue (literal : FloatingLiteral) : Value :=
  .ofBinary64 (.scalar (if literal.isSingle then .float else .double)) literal.value

end Assay
