import Assay.Generation.Script
import Assay.Proofs.Generation.Production
import Assay.Proofs.Generation.Readable
import Assay.Proofs.Generation.Weights

/-!
# The configured grammar

What a configuration admits as an expression, one rule for each kind that it enables
(`Config.Admits`). The generator gives nothing else, whatever an honest sampler answers and however
the weights fade (`admits_of_expr`).
-/

namespace Assay

namespace Config

/-- A double constant is in the half-open range of the configuration, or its lower bound. -/
def InDoubleRange (config : Config) (x : Binary64) : Prop :=
  config.doubleMin.le x ∧ (x.lt config.doubleMax ∨ (x == config.doubleMin) = true)

/-- The expressions of a configuration. There is no rule for dereferences and casts. -/
inductive Admits (config : Config) : Expr → Prop
  /-- Integers are decimal and have no suffix. -/
  | integer {n : UInt64} (enabled : config.enables .integer) (lower : config.integerMin ≤ n)
      (upper : n ≤ config.integerMax) : Admits config (.integer ⟨n, .decimal, .int, false⟩)
  | double {x : Binary64} (enabled : config.enables .double) (unsigned : x.isNegative = false)
      (range : config.InDoubleRange x) : Admits config (.floating ⟨x, false⟩)
  /-- The sign of a negative constant is an operator, in the mask or not. -/
  | negativeDouble {x : Binary64} (enabled : config.enables .double)
      (unsigned : x.isNegative = false) (range : config.InDoubleRange (-x)) :
      Admits config (.unary .neg (.floating ⟨x, false⟩))
  | boolean {value : Bool} (enabled : config.enables .boolean) : Admits config (.boolean value)
  | var (enabled : config.enables .var) : Admits config (.var config.varName)
  | unary {op : UnaryOp} {e : Expr} (enabled : config.enables .unary)
      (mem : config.unaryOps.contains op) (operand : Admits config e) : Admits config (.unary op e)
  | binary {op : BinaryOp} {e f : Expr} (enabled : config.enables .binary)
      (mem : config.binaryOps.contains op) (lhs : Admits config e) (rhs : Admits config f) :
      Admits config (.binary op e f)
  | addressOf (enabled : config.enables .addressOf) :
      Admits config (.addressOf (.var config.varName))
  | member {field : String} (enabled : config.enables .member) (mem : field ∈ config.fieldNames) :
      Admits config (.member (.var config.structName) field)
  | memberOfPointer {field : String} (enabled : config.enables .memberOfPointer)
      (mem : field ∈ config.fieldNames) :
      Admits config (.memberOfPointer (.var config.structPointerName) field)
  | index {e : Expr} (enabled : config.enables .index) (position : Admits config e) :
      Admits config (.index (.var config.arrayName) e)
  | conditional {e f g : Expr} (enabled : config.enables .conditional) (cond : Admits config e)
      (lhs : Admits config f) (rhs : Admits config g) : Admits config (.conditional e f g)
  | paren {e : Expr} (inner : Admits config e) : Admits config (.paren e)

theorem Admits.parenIf {config : Config} {e : Expr} (he : config.Admits e) (needed : Bool) :
    config.Admits (e.parenIf needed) := by
  cases needed
  · exact he
  · exact .paren he

end Config

theorem Binary64.neg_neg (x : Binary64) : - -x = x := by
  cases x with
  | nan => rfl
  | infinite negative | finite negative => cases negative <;> rfl

theorem Binary64.isNegative_neg {x : Binary64} (h : x.isNegative) : (-x).isNegative = false := by
  cases x with
  | nan => rfl
  | infinite negative | finite negative =>
    cases h
    rfl

namespace Generator

variable {σ : Type} {g : Generator σ}

section Honest

variable (honest : g.sampler.Honest) (valid : g.config.problem? = none)

include honest valid

theorem exprKind_yields_enabled (depth : Nat) :
    Yields (g.askFor (.exprKind (g.config.exprWeightsAt depth)) (.noExprKind depth)) fun kind =>
      g.config.enables kind :=
  (askFor_yields honest (.exprKind (g.config.exprWeightsAt depth)) trivial _).imp
    fun _ hk => Config.enables_of_pos valid hk

theorem doubleConstant_yields_admitted (enabled : g.config.enables .double) :
    Yields g.doubleConstant g.config.Admits := by
  refine (ask_yields honest (Config.double_proper valid)).bind fun x hx => yields_pure ?_
  have hrange : g.config.InDoubleRange x := by
    rwa [Request.permits, Bool.and_eq_true, Bool.or_eq_true] at hx
  cases hs : x.isNegative with
  | false => exact .double enabled hs hrange
  | true =>
    -- the literal is the magnitude, so the range is that of its negation
    rw [← Binary64.neg_neg x] at hrange
    exact .negativeDouble enabled (Binary64.isNegative_neg hs) hrange

theorem production_yields_admitted (child : Gen σ Expr) (kind : ExprKind)
    (enabled : g.config.enables kind) (hchild : Yields child g.config.Admits) :
    Yields (g.production child kind) g.config.Admits := by
  cases kind with
  | integer =>
    refine (ask_yields honest (Config.integer_proper valid)).bind fun n hn => yields_pure ?_
    rw [Request.permits, Bool.and_eq_true, decide_eq_true_eq, decide_eq_true_eq] at hn
    exact .integer enabled hn.1 hn.2
  | double => exact doubleConstant_yields_admitted honest valid enabled
  | boolean => exact (yields_true _).bind fun b _ => yields_pure (.boolean enabled)
  | var => exact yields_pure (.var enabled)
  | unary =>
    exact (askFor_yields honest (.unaryOp g.config.unaryOps) trivial _).bind fun op hop =>
      hchild.bind fun e he => yields_pure (.unary enabled hop (he.parenIf _))
  | binary =>
    exact (askFor_yields honest (.binaryOp g.config.binaryOps) trivial _).bind fun op hop =>
      hchild.bind fun e he => hchild.bind fun f hf =>
        yields_pure (.binary enabled hop (he.parenIf _) (hf.parenIf _))
  | addressOf => exact yields_pure (.addressOf enabled)
  | member =>
    exact (pickName_yields_mem _ _).bind fun field hf => yields_pure (.member enabled hf)
  | memberOfPointer =>
    exact (pickName_yields_mem _ _).bind fun field hf => yields_pure (.memberOfPointer enabled hf)
  | index => exact hchild.bind fun e he => yields_pure (.index enabled he)
  | conditional =>
    exact hchild.bind fun e he => hchild.bind fun f hf => hchild.bind fun h hh =>
      yields_pure (.conditional enabled (he.parenIf _) hf hh)

/-- Every generated expression is one that the configuration admits. -/
theorem admits_of_expr {s : σ} {e : Expr} (h : (g.expr.run s).1 = .ok e) : g.config.Admits e :=
  exprAt_yields (exprKind_yields_enabled honest valid) (production_yields_admitted honest valid)
    (fun _ => .paren) g.fuel 0 s e h

end Honest

/-- Of operators the configuration has the plus sign only, and yet a negative constant has its
sign. -/
def signed : Generator Script where
  config := {
    doubleMin := -10
    doubleMax := 0
    unaryOps := .ofList [.plus]
    exprWeights := (WeightTable.zeroed.set .double ⟨1, 0⟩).set .index ⟨1, 0⟩ }
  sampler := Script.sampler

theorem admits_of_expr_signed :
    let e : Expr := .index (.var "arr") (.unary .neg (.floating ⟨2.5, false⟩))
    (signed.expr.run ⟨[.exprKind .index, .exprKind .double, .double (-2.5)], 0⟩).1 = .ok e
      ∧ signed.config.Admits e := by
  intro e
  have h :
      (signed.expr.run ⟨[.exprKind .index, .exprKind .double, .double (-2.5)], 0⟩).1 = .ok e := by
    decide +kernel
  exact ⟨h, admits_of_expr Script.sampler_honest (by decide +kernel) h⟩

end Generator

end Assay
