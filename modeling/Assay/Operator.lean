import Assay.Enumerated

/-!
# Operators

The unary and binary operators, their spelling and their precedence. A lower precedence level
binds tighter.
-/

namespace Assay

inductive BinaryOp
  | mul | div | mod
  | plus | minus
  | shl | shr
  | lt | le | gt | ge
  | eq | ne
  | bitAnd | bitXor | bitOr
  | logicalAnd | logicalOr
deriving DecidableEq, Inhabited

namespace BinaryOp

instance : Enumerated BinaryOp where
  all := [mul, div, mod, plus, minus, shl, shr, lt, le, gt, ge, eq, ne, bitAnd, bitXor, bitOr,
    logicalAnd, logicalOr]
  index op := op.ctorIdx
  mem_all op := by cases op <;> decide
  map_index_all := rfl

/-- The operator as it is written between its operands. -/
def symbol : BinaryOp → String
  | mul => "*"
  | div => "/"
  | mod => "%"
  | plus => "+"
  | minus => "-"
  | shl => "<<"
  | shr => ">>"
  | lt => "<"
  | le => "<="
  | gt => ">"
  | ge => ">="
  | eq => "=="
  | ne => "!="
  | bitAnd => "&"
  | bitXor => "^"
  | bitOr => "|"
  | logicalAnd => "&&"
  | logicalOr => "||"

/-- The operator's name in configuration files. -/
def name : BinaryOp → String
  | mul => "Mul"
  | div => "Div"
  | mod => "Mod"
  | plus => "Plus"
  | minus => "Minus"
  | shl => "Shl"
  | shr => "Shr"
  | lt => "Lt"
  | le => "Le"
  | gt => "Gt"
  | ge => "Ge"
  | eq => "Eq"
  | ne => "Ne"
  | bitAnd => "BitAnd"
  | bitXor => "BitXor"
  | bitOr => "BitOr"
  | logicalAnd => "LogicalAnd"
  | logicalOr => "LogicalOr"

/-- Precedence level; the levels between those of the operators belong to no binary operator. -/
def precedence : BinaryOp → Nat
  | mul | div | mod => 5
  | plus | minus => 6
  | shl | shr => 7
  | lt | le | gt | ge => 9
  | eq | ne => 10
  | bitAnd => 11
  | bitXor => 12
  | bitOr => 13
  | logicalAnd => 14
  | logicalOr => 15

def isComparison : BinaryOp → Bool
  | lt | le | gt | ge | eq | ne => true
  | _ => false

def isLogical : BinaryOp → Bool
  | logicalAnd | logicalOr => true
  | _ => false

def isShift : BinaryOp → Bool
  | shl | shr => true
  | _ => false

end BinaryOp

inductive UnaryOp
  | plus | neg | logicalNot | bitNot
deriving DecidableEq, Inhabited

namespace UnaryOp

instance : Enumerated UnaryOp where
  all := [plus, neg, logicalNot, bitNot]
  index op := op.ctorIdx
  mem_all op := by cases op <;> decide
  map_index_all := rfl

/-- The operator as it is written before its operand. -/
def symbol : UnaryOp → String
  | plus => "+"
  | neg => "-"
  | logicalNot => "!"
  | bitNot => "~"

/-- The operator's name in configuration files. -/
def name : UnaryOp → String
  | plus => "Plus"
  | neg => "Neg"
  | logicalNot => "LogicalNot"
  | bitNot => "BitNot"

/-- Signs can merge with a sign that follows them. -/
def isSign : UnaryOp → Bool
  | plus | neg => true
  | _ => false

end UnaryOp

end Assay
