import Assay.Expr.Basic
import Assay.Generation.Error
import Assay.Generation.Request

/-!
# The generator

Expressions and types are generated by recursive descent. At each node a kind is asked for, by the
weights at the node's depth, and the kind's children are generated one level deeper. Parentheses
that precedence requires are always added; on top of that, any generated expression may be put in
parentheses at random. The recursion is bounded by a limit that lies beyond the configured cap on
depth.
-/

namespace Assay

/-- A configuration with a source of random decisions. -/
structure Generator (σ : Type) where
  config : Config
  sampler : Sampler σ
  /-- How many levels beyond the cap on depth the recursion may go. -/
  recursionLimit : Nat := 10000

/-- Generation in progress: it fails or gives a result, and keeps the sampler's state in both
cases. -/
abbrev Gen (σ : Type) := ExceptT GenError (StateM σ)

/-- What a generator can be asked for. -/
inductive Step
  | expr
  | type
  | declaration
deriving DecidableEq

/-- What a generator gives. -/
inductive Product
  | expr (e : Expr)
  | type (type : SourceType)
  | declaration (decl : Declaration)
deriving DecidableEq

/-- The expression, in parentheses if they are needed. -/
def Expr.parenIf (needed : Bool) (e : Expr) : Expr := if needed then .paren e else e

namespace Generator

variable {σ : Type}

/-- The generator of a configuration that is valid. -/
def make? (config : Config) (sampler : Sampler σ) : Except ConfigError (Generator σ) :=
  match config.problem? with
  | none => .ok { config, sampler }
  | some problem => .error problem

/-- The answer to a request. -/
def ask {α : Type} (g : Generator σ) (request : Request α) : Gen σ α :=
  ExceptT.mk fun s =>
    let (answer, s) := g.sampler.answer request s
    (.ok answer, s)

/-- The answer to a request that may have none. -/
def askFor {α : Type} (g : Generator σ) (request : Request (Option α)) (error : GenError) :
    Gen σ α := do
  match ← g.ask request with
  | some a => return a
  | none => throw error

/-- One of some items; nothing is asked when there are none. -/
def pick? {α : Type} (g : Generator σ) (items : List α) : Gen σ (Option α) := do
  if items.isEmpty then return none
  let i ← g.ask (.integer 0 (UInt64.ofNat (items.length - 1)))
  return items[i.toNat]?

/-- One of the configured names. -/
def pickName (g : Generator σ) (names : List String) (what : String) : Gen σ String := do
  match ← g.pick? names with
  | some name => return name
  | none => throw (.noNames what)

def pickField (g : Generator σ) : Gen σ String := g.pickName g.config.fieldNames "field names"

/-- A double literal. Literals have no sign, so a negative one is negated. -/
def doubleConstant (g : Generator σ) : Gen σ Expr := do
  let x ← g.ask (.double g.config.doubleMin g.config.doubleMax)
  return if x.isNegative then .unary .neg (.floating ⟨-x, false⟩) else .floating ⟨x, false⟩

/-- An operand of a unary operator. -/
def unaryNode (op : UnaryOp) (operand : Expr) : Expr :=
  .unary op (operand.parenIf (Expr.unaryPrecedence < operand.precedence))

/-- Operators are left-associative, so only the right operand needs parentheses at equal
precedence. -/
def binaryNode (op : BinaryOp) (lhs rhs : Expr) : Expr :=
  .binary op (lhs.parenIf (op.precedence < lhs.precedence))
    (rhs.parenIf (op.precedence ≤ rhs.precedence))

/-- Conditionals are right-associative, so only the condition may need parentheses. -/
def conditionalNode (cond lhs rhs : Expr) : Expr :=
  .conditional (cond.parenIf (Expr.conditionalPrecedence ≤ cond.precedence)) lhs rhs

/-- The expression, or at random the expression in parentheses. -/
def maybeParen (g : Generator σ) (e : Expr) : Gen σ Expr := do
  let paren ← g.ask (.flag g.config.parenProbability)
  return e.parenIf paren

/-- An expression at a depth. -/
def exprAt (g : Generator σ) : (fuel : Nat) → (depth : Nat) → Gen σ Expr
  | 0, _ => throw .tooDeep
  | fuel + 1, depth => do
    let kind ← g.askFor (.exprKind (g.config.exprWeightsAt depth)) (.noExprKind depth)
    let e ← match kind with
      | .integer => do
        let n ← g.ask (.integer g.config.integerMin g.config.integerMax)
        pure (Expr.integer { value := n })
      | .double => g.doubleConstant
      | .boolean => do
        let b ← g.ask (.flag 0.5)
        pure (.boolean b)
      | .var => pure (.var g.config.varName)
      | .unary => do
        let op ← g.askFor (.unaryOp g.config.unaryOps) (.noOperator "unary")
        let operand ← g.exprAt fuel (depth + 1)
        pure (unaryNode op operand)
      | .binary => do
        let op ← g.askFor (.binaryOp g.config.binaryOps) (.noOperator "binary")
        let lhs ← g.exprAt fuel (depth + 1)
        let rhs ← g.exprAt fuel (depth + 1)
        pure (binaryNode op lhs rhs)
      | .addressOf => pure (.addressOf (.var g.config.varName))
      | .member => do
        let field ← g.pickField
        pure (.member (.var g.config.structName) field)
      | .memberOfPointer => do
        let field ← g.pickField
        pure (.memberOfPointer (.var g.config.structPointerName) field)
      | .index => do
        let index ← g.exprAt fuel (depth + 1)
        pure (.index (.var g.config.arrayName) index)
      | .conditional => do
        let cond ← g.exprAt fuel (depth + 1)
        let lhs ← g.exprAt fuel (depth + 1)
        let rhs ← g.exprAt fuel (depth + 1)
        pure (conditionalNode cond lhs rhs)
    g.maybeParen e

/-- Weights of type kinds, with references excluded where they may not stand. -/
def typeWeights (g : Generator σ) (allowReference : Bool) (depth : Nat) : TypeKind → Binary64 :=
  fun kind =>
    if !allowReference && kind = .reference then 0 else g.config.typeWeightsAt depth kind

/-- A type at a depth. Pointers do not point to references, and references neither refer to
references nor carry qualifiers. -/
def typeAt (g : Generator σ) : (fuel : Nat) → (depth : Nat) → (allowReference : Bool) →
    Gen σ SourceType
  | 0, _, _ => throw .tooDeep
  | fuel + 1, depth, allowReference => do
    let kind ← g.askFor (.typeKind (g.typeWeights allowReference depth)) (.noTypeKind depth)
    let qualified (form : Qualifiers → SourceType) : Gen σ SourceType := do
      let cv ← g.ask (.qualifiers g.config.constProbability g.config.volatileProbability)
      return form cv
    match kind with
    | .scalar =>
      let scalar ← g.pick? (Enumerated.all : List ScalarType)
      qualified (.scalar (scalar.getD .int))
    | .tagged =>
      let name ← g.pickName g.config.tagNames "tagged types"
      qualified (.tagged name)
    | .pointer =>
      let pointee ← g.typeAt fuel (depth + 1) false
      qualified (.pointer pointee)
    | .reference =>
      let referee ← g.typeAt fuel (depth + 1) false
      return .reference referee .none

/-- How deep the recursion may go. -/
def fuel (g : Generator σ) : Nat := g.config.maxDepth.getD 0 + g.recursionLimit

/-- A complete expression. -/
def expr (g : Generator σ) : Gen σ Expr := g.exprAt g.fuel 0

/-- A type as it may be written in a declaration. -/
def type (g : Generator σ) : Gen σ SourceType := g.typeAt g.fuel 0 true

/-- A declaration of the configured variable. -/
def declaration (g : Generator σ) : Gen σ Declaration := do
  let type ← g.type
  return ⟨type, g.config.varName⟩

def step (g : Generator σ) : Step → Gen σ Product
  | .expr => Product.expr <$> g.expr
  | .type => Product.type <$> g.type
  | .declaration => Product.declaration <$> g.declaration

/-- The results of steps taken one after another, also after one has failed, and the sampler's
state at the end. -/
def run (g : Generator σ) : List Step → σ → List (Except GenError Product) × σ
  | [], s => ([], s)
  | step :: rest, s =>
    let (result, s) := (g.step step).run s
    let (results, s) := g.run rest s
    (result :: results, s)

end Generator

end Assay
