import Assay.Binary64.Basic
import Assay.Operator
import Assay.SourceType

/-!
# Expressions

The expression tree. Parentheses are nodes of their own, so a tree determines its text.
-/

namespace Assay

/-- The base an integer literal is spelled in. -/
inductive Base
  | binary | hexadecimal | octal | decimal
deriving DecidableEq, Inhabited

/-- The length that an integer literal's suffix asks for. -/
inductive Length
  | int | long | longLong
deriving DecidableEq, Inhabited

/-- An integer literal: its value, and the base and suffix it is spelled with. -/
structure IntegerLiteral where
  value : UInt64
  base : Base := .decimal
  length : Length := .int
  isUnsigned : Bool := false
deriving DecidableEq

/-- A floating literal; the suffix `f` makes it a `float`. -/
structure FloatingLiteral where
  value : Binary64
  isSingle : Bool := false
deriving DecidableEq

inductive Expr
  | integer (literal : IntegerLiteral)
  | floating (literal : FloatingLiteral)
  | boolean (value : Bool)
  | var (name : String)
  | unary (op : UnaryOp) (operand : Expr)
  | binary (op : BinaryOp) (lhs rhs : Expr)
  | addressOf (operand : Expr)
  | dereference (operand : Expr)
  /-- `base.field` -/
  | member (base : Expr) (field : String)
  /-- `base->field` -/
  | memberOfPointer (base : Expr) (field : String)
  /-- `base[index]` -/
  | index (base index : Expr)
  /-- `cond ? lhs : rhs` -/
  | conditional (cond lhs rhs : Expr)
  | cast (type : SourceType) (operand : Expr)
  | paren (inner : Expr)
deriving DecidableEq

namespace Expr

/-- Precedence level of literals, names and parentheses. -/
def primaryPrecedence : Nat := 0

/-- Precedence level of member access and indexing. -/
def memberPrecedence : Nat := 2

/-- Precedence level of unary operators and casts. -/
def unaryPrecedence : Nat := 3

/-- Precedence level of the conditional operator. -/
def conditionalPrecedence : Nat := 16

/-- Precedence level of the outermost node; a lower level binds tighter. -/
def precedence : Expr → Nat
  | integer _ | floating _ | boolean _ | var _ | paren _ => primaryPrecedence
  | member .. | memberOfPointer .. | index .. => memberPrecedence
  | unary .. | addressOf _ | dereference _ | cast .. => unaryPrecedence
  | binary op .. => op.precedence
  | conditional .. => conditionalPrecedence

/-- The expression inside any number of parentheses. -/
def bare : Expr → Expr
  | paren inner => inner.bare
  | e => e

def children : Expr → List Expr
  | integer _ | floating _ | boolean _ | var _ => []
  | unary _ e | addressOf e | dereference e | member e _ | memberOfPointer e _ | cast _ e
  | paren e => [e]
  | binary _ e f => [e, f]
  | index e f => [e, f]
  | conditional e f g => [e, f, g]

/-- Height of the tree; a leaf has depth one. -/
def depth : Expr → Nat
  | integer _ | floating _ | boolean _ | var _ => 1
  | unary _ e | addressOf e | dereference e | member e _ | memberOfPointer e _ | cast _ e
  | paren e => 1 + e.depth
  | binary _ e f | index e f => 1 + max e.depth f.depth
  | conditional e f g => 1 + max e.depth (max f.depth g.depth)

def nodeCount : Expr → Nat
  | integer _ | floating _ | boolean _ | var _ => 1
  | unary _ e | addressOf e | dereference e | member e _ | memberOfPointer e _ | cast _ e
  | paren e => 1 + e.nodeCount
  | binary _ e f | index e f => 1 + (e.nodeCount + f.nodeCount)
  | conditional e f g => 1 + (e.nodeCount + (f.nodeCount + g.nodeCount))

/-- Whether two trees have the same shape and equal leaves, where floating literals are equal as
numbers: the two zeros are equal, and NaN equals nothing. -/
def agrees : Expr → Expr → Bool
  | floating a, floating b => a.value == b.value && a.isSingle == b.isSingle
  | unary op e, unary op' e' => op = op' && e.agrees e'
  | binary op e f, binary op' e' f' => op = op' && (e.agrees e' && f.agrees f')
  | addressOf e, addressOf e' | dereference e, dereference e' | paren e, paren e' => e.agrees e'
  | member e field, member e' field' | memberOfPointer e field, memberOfPointer e' field' =>
    field = field' && e.agrees e'
  | index e f, index e' f' => e.agrees e' && f.agrees f'
  | conditional e f g, conditional e' f' g' => e.agrees e' && (f.agrees f' && g.agrees g')
  | cast type e, cast type' e' => type = type' && e.agrees e'
  | integer a, integer b => a = b
  | boolean a, boolean b => a = b
  | var a, var b => a = b
  | _, _ => false

end Expr

end Assay
