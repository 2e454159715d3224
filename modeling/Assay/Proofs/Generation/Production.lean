import Assay.Generation.Generator
import Assay.Proofs.Yields

/-!
# One node of the grammar

A node is generated by asking for its kind and then following the kind's production, whose operands
are nodes one level deeper (`exprAt_succ`, `typeAt_succ`). So what every production keeps holds of
every expression (`exprAt_yields`).
-/

namespace Assay

namespace Generator

variable {σ : Type}

section Ask

variable {g : Generator σ} {α : Type}

theorem run_ask (request : Request α) (s : σ) :
    (g.ask request).run s = (.ok (g.sampler.answer request s).1, (g.sampler.answer request s).2) :=
  rfl

theorem run_askFor (request : Request (Option α)) (e : GenError) (s : σ) :
    (g.askFor request e).run s = ((g.sampler.answer request s).1.elim (.error e) .ok,
      (g.sampler.answer request s).2) := by
  unfold askFor
  rw [run_bind, run_ask]
  rcases (g.sampler.answer request s).1 with _ | a <;> rfl

/-- What holds of every answer that there is holds of what is gone on with. -/
theorem askFor_yields_all {request : Request (Option α)} {p : α → Bool}
    (h : ∀ s, (g.sampler.answer request s).1.all p) (e : GenError) :
    Yields (g.askFor request e) fun a => p a := by
  intro s a ha
  have hanswer := h s
  rw [run_askFor] at ha
  rcases hr : (g.sampler.answer request s).1 with _ | answer <;> rw [hr] at ha hanswer
  · cases ha
  · cases ha
    exact hanswer

end Ask

section Production

variable (g : Generator σ)

/-- An expression of a kind; its generated operands come from `child`. -/
def production (child : Gen σ Expr) : ExprKind → Gen σ Expr
  | .integer => do
    let n ← g.ask (.integer g.config.integerMin g.config.integerMax)
    return .integer { value := n }
  | .double => g.doubleConstant
  | .boolean => do
    let b ← g.ask (.flag 0.5)
    return .boolean b
  | .var => return .var g.config.varName
  | .unary => do
    let op ← g.askFor (.unaryOp g.config.unaryOps) (.noOperator "unary")
    let operand ← child
    return unaryNode op operand
  | .binary => do
    let op ← g.askFor (.binaryOp g.config.binaryOps) (.noOperator "binary")
    let lhs ← child
    let rhs ← child
    return binaryNode op lhs rhs
  | .addressOf => return .addressOf (.var g.config.varName)
  | .member => do
    let field ← g.pickField
    return .member (.var g.config.structName) field
  | .memberOfPointer => do
    let field ← g.pickField
    return .memberOfPointer (.var g.config.structPointerName) field
  | .index => do
    let index ← child
    return .index (.var g.config.arrayName) index
  | .conditional => do
    let cond ← child
    let lhs ← child
    let rhs ← child
    return conditionalNode cond lhs rhs

theorem exprAt_succ (fuel depth : Nat) :
    g.exprAt (fuel + 1) depth = (do
      let kind ← g.askFor (.exprKind (g.config.exprWeightsAt depth)) (.noExprKind depth)
      let e ← g.production (g.exprAt fuel (depth + 1)) kind
      g.maybeParen e) := by
  rw [exprAt]
  refine bind_congr fun kind => ?_
  cases kind <;> simp only [production, bind_assoc, pure_bind]

/-- A type of a kind; what it points or refers to comes from `child`. -/
def typeProduction (child : Gen σ SourceType) : TypeKind → Gen σ SourceType
  | .scalar => do
    let scalar ← g.pick? (Enumerated.all : List ScalarType)
    let cv ← g.ask (.qualifiers g.config.constProbability g.config.volatileProbability)
    return .scalar (scalar.getD .int) cv
  | .tagged => do
    let name ← g.pickName g.config.tagNames "tagged types"
    let cv ← g.ask (.qualifiers g.config.constProbability g.config.volatileProbability)
    return .tagged name cv
  | .pointer => do
    let pointee ← child
    let cv ← g.ask (.qualifiers g.config.constProbability g.config.volatileProbability)
    return .pointer pointee cv
  | .reference => do
    let referee ← child
    return .reference referee .none

theorem typeAt_succ (fuel depth : Nat) (allowReference : Bool) :
    g.typeAt (fuel + 1) depth allowReference = (do
      let kind ← g.askFor (.typeKind (g.typeWeights allowReference depth)) (.noTypeKind depth)
      g.typeProduction (g.typeAt fuel (depth + 1) false) kind) := by
  rw [typeAt]
  refine bind_congr fun kind => ?_
  cases kind <;> rfl

end Production

variable {g : Generator σ} {P : Expr → Prop}

theorem maybeParen_yields {e : Expr} (he : P e) (hparen : P (.paren e)) :
    Yields (g.maybeParen e) P := by
  refine (yields_true _).bind fun paren _ => yields_pure ?_
  cases paren
  · exact he
  · exact hparen

/-- What every production of an allowed kind keeps, and parentheses too, holds of every
expression. -/
theorem exprAt_yields {allowed : ExprKind → Prop}
    (hkind : ∀ depth, Yields
      (g.askFor (.exprKind (g.config.exprWeightsAt depth)) (.noExprKind depth)) allowed)
    (hproduction : ∀ child kind, allowed kind → Yields child P →
      Yields (g.production child kind) P)
    (hparen : ∀ e, P e → P (.paren e)) (fuel depth : Nat) : Yields (g.exprAt fuel depth) P := by
  induction fuel generalizing depth with
  | zero => exact yields_throw _
  | succ fuel ih =>
    rw [exprAt_succ]
    refine (hkind depth).bind fun kind hk => ?_
    exact (hproduction _ kind hk (ih (depth + 1))).bind fun e he =>
      maybeParen_yields he (hparen e he)

end Generator

end Assay
