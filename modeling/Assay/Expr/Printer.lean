import Assay.Decimal.Layout
import Assay.Expr.Basic

/-!
# The text of expressions

Parentheses are written exactly where the tree has them. A sign before an operand that starts
with the same sign, and `&` before an operand that starts with `&`, are set apart by a space so
that they stay two tokens.
-/

namespace Assay

namespace IntegerLiteral

/-- The digits with the mark of their base. Octal zero is a single `0`. -/
def digits (literal : IntegerLiteral) : String :=
  let write (base : Nat) := String.ofList (Nat.toDigits base literal.value.toNat)
  match literal.base with
  | .decimal => write 10
  | .hexadecimal => "0x" ++ write 16
  | .binary => "0b" ++ write 2
  | .octal => if literal.value = 0 then "0" else "0" ++ write 8

def suffix (literal : IntegerLiteral) : String :=
  (if literal.isUnsigned then "U" else "") ++
    match literal.length with
    | .int => ""
    | .long => "L"
    | .longLong => "LL"

def text (literal : IntegerLiteral) : String := literal.digits ++ literal.suffix

end IntegerLiteral

/-- The text of a floating literal, which never reads as an integer. -/
def FloatingLiteral.text (literal : FloatingLiteral) : String :=
  literal.value.text .literal ++ if literal.isSingle then "f" else ""

namespace Expr

/-- `mark` before `operand`, with a space where the two would merge into another token. -/
def marked (mark operand : String) (merges : Bool) : String :=
  if merges && operand.startsWith mark then mark ++ " " ++ operand else mark ++ operand

/-- The text of an expression. -/
def text : Expr → String
  | integer literal => literal.text
  | floating literal => literal.text
  | boolean value => if value then "true" else "false"
  | var name => name
  | unary op e => marked op.symbol e.text op.isSign
  | binary op e f => e.text ++ " " ++ op.symbol ++ " " ++ f.text
  | addressOf e => marked "&" e.text true
  | dereference e => "*" ++ e.text
  | member e field => e.text ++ "." ++ field
  | memberOfPointer e field => e.text ++ "->" ++ field
  | index e f => e.text ++ "[" ++ f.text ++ "]"
  | conditional e f g => e.text ++ " ? " ++ f.text ++ " : " ++ g.text
  | cast type e => "(" ++ type.text ++ ")" ++ e.text
  | paren e => "(" ++ e.text ++ ")"

end Expr

end Assay
