import Assay.Expr.Printer
import Assay.Finding
import Assay.Value.Text

/-!
# Why an evaluation fails

Undefined behaviour is no error: it becomes one only when an evaluation is asked to stop at the
first finding. An overflow is not documented as an error, and has no number.
-/

namespace Assay

/-- What the evaluator does not support. -/
inductive Construct
  | referenceCast
  /-- The address of something that has none. -/
  | address (operand : Expr)
  | nonPointerIndex
deriving DecidableEq

def Construct.text : Construct → String
  | referenceCast => "cast to a reference type"
  | address operand => "taking the address of '" ++ operand.text ++ "'"
  | nonPointerIndex => "indexing a non-pointer"

inductive EvalError
  | undeclared (name : String)
  | unknownType (name : String)
  | invalidBinary (op : BinaryOp) (lhs rhs : Ty)
  | invalidUnary (op : UnaryOp) (type : Ty)
  | invalidCast (source dest : Ty)
  | unsupported (construct : Construct)
  | memoryRead (address : UInt64)
  | noMember (type : Ty) (field : String)
  | invalidIndirection (type : Ty)
  | incompatible (lhs rhs : Ty)
  | undefinedBehavior (finding : Finding)
  /-- The distance of two pointers needs more than 128 bits, at which the program itself ends. -/
  | overflow
deriving DecidableEq

namespace EvalError

def message : EvalError → String
  | undeclared name => "use of undeclared identifier '" ++ name ++ "'"
  | unknownType name => "unknown type name '" ++ name ++ "'"
  | invalidBinary op lhs rhs =>
    "invalid operands to binary expression '" ++ op.symbol ++ "' ('" ++ lhs.text ++ "' and '" ++
      rhs.text ++ "')"
  | invalidUnary op type =>
    "invalid argument type '" ++ type.text ++ "' to unary expression '" ++ op.symbol ++ "'"
  | invalidCast source dest =>
    "cannot cast from type '" ++ source.text ++ "' to '" ++ dest.text ++ "'"
  | unsupported construct => construct.text ++ " is not supported by the interpreter"
  | memoryRead address => "cannot read memory at address " ++ addressText address
  | noMember type field => "no member named '" ++ field ++ "' in '" ++ type.text ++ "'"
  | invalidIndirection type =>
    "indirection requires pointer operand ('" ++ type.text ++ "' invalid)"
  | incompatible lhs rhs =>
    "incompatible operand types ('" ++ lhs.text ++ "' and '" ++ rhs.text ++ "')"
  | undefinedBehavior finding => "undefined behavior: " ++ finding.description
  | overflow => "the distance of two pointers overflows"

/-- The number under which an error is documented. -/
def code? : EvalError → Option String
  | undeclared _ => some "E3001"
  | unknownType _ => some "E3002"
  | invalidBinary .. => some "E3003"
  | invalidUnary .. => some "E3004"
  | invalidCast .. => some "E3005"
  | unsupported _ => some "E3006"
  | memoryRead _ => some "E3007"
  | undefinedBehavior _ => some "E3008"
  | noMember .. => some "E3009"
  | invalidIndirection _ => some "E3010"
  | incompatible .. => some "E3011"
  | overflow => none

/-- Advice on how to get a value anyway. -/
def help? : EvalError → Option String
  | undefinedBehavior _ => some "evaluate without `stop_on_ub` to get a value anyway"
  | _ => none

end EvalError

end Assay
