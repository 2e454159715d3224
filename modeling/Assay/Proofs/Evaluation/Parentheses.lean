import Assay.Check
import Assay.Proofs.Evaluation.ResultType
import Assay.Proofs.Evaluation.Yields
import Assay.Proofs.Generation.Production
import Mathlib.Tactic.SplitIfs

/-!
# Parentheses

Parentheses mean nothing: without them an expression has the same value, finding and error, except
that an error which quotes an operand quotes it without them (`eval_erase`). A generated expression
takes the address of names only, so that checking it gives the same to the letter
(`erase_changes_nothing`).
-/

namespace Assay

/-- The expression without its parentheses. -/
def Expr.erase : Expr → Expr
  | .unary op e => .unary op e.erase
  | .binary op e f => .binary op e.erase f.erase
  | .addressOf e => .addressOf e.erase
  | .dereference e => .dereference e.erase
  | .member e field => .member e.erase field
  | .memberOfPointer e field => .memberOfPointer e.erase field
  | .index e f => .index e.erase f.erase
  | .conditional e f g => .conditional e.erase f.erase g.erase
  | .cast type e => .cast type e.erase
  | .paren e => e.erase
  | e => e

/-- The error, with the operand that it quotes freed of its parentheses. -/
def EvalError.erase : EvalError → EvalError
  | .unsupported (.address operand) => .unsupported (.address operand.erase)
  | e => e

/-- The outcome, with the operand that its error quotes freed of its parentheses. -/
def Outcome.erase : Outcome → Outcome
  | .error e => .error e.erase
  | outcome => outcome

/-- No error of the result quotes an operand in parentheses. -/
def Plain {α : Type} (result : Except EvalError α) : Prop :=
  result.mapError EvalError.erase = result

namespace Eval

variable {α β : Type}

/-- The evaluation whose errors quote operands without parentheses. -/
def erase (x : Eval α) : Eval α := ExceptT.adapt EvalError.erase x

theorem run_erase (x : Eval α) (s : Session) :
    x.erase.run s = ((x.run s).1.mapError EvalError.erase, (x.run s).2) := rfl

theorem erase_pure (a : α) : erase (pure a) = pure a := rfl

theorem erase_bind (x : Eval α) (f : α → Eval β) :
    erase (x >>= f) = x.erase >>= fun a => (f a).erase := by
  funext s
  change (x >>= f).erase.run s = (x.erase >>= fun a => (f a).erase).run s
  rw [run_erase, run_bind, run_bind, run_erase]
  rcases x.run s with ⟨_ | a, after⟩ <;> rfl

theorem erase_speculatively (x : Eval α) : x.speculatively.erase = x.erase.speculatively := rfl

theorem erase_ofExcept {result : Except EvalError α} (h : Plain result) :
    (ofExcept result).erase = ofExcept result :=
  congrArg ofExcept h

theorem erase_orError (result : Option α) (e : EvalError) :
    (orError result e).erase = orError result e.erase := by
  cases result <;> rfl

/-- A test that may fail goes before the rest. -/
theorem erase_guard {c : Bool} {e : EvalError} {x y : Eval α} (he : e.erase = e)
    (h : y = x.erase) :
    (if c then do throw e; y else y) = Eval.erase (if c then do throw e; x else x) := by
  subst h
  cases c
  · rfl
  · change (throw e : Eval α) = throw e.erase
    rw [he]

end Eval

/-! ## Operations quote nothing -/

namespace Target

variable (target : Target)

theorem unary_plain (op : UnaryOp) (v : Value) : Plain (target.unary op v) := by
  unfold unary
  cases op <;> simp only [] <;> split_ifs <;> rfl

theorem pointerArithmetic_plain (op : BinaryOp) (l r : Value) :
    Plain (target.pointerArithmetic op l r) := by
  unfold pointerArithmetic
  simp only []
  split
  · split_ifs <;> rfl
  · split_ifs <;> rfl
  · split_ifs <;> rfl
  · split_ifs
    · rcases pointerDistance_cases target l r with ⟨n, hd⟩ | hd <;> rw [hd] <;> rfl
    · rfl
  · rfl

theorem shift_plain (op : BinaryOp) (l r : Value) : Plain (target.shift op l r) := by
  unfold shift
  split_ifs <;> rfl

theorem comparison_plain (op : BinaryOp) (l r : Value) : Plain (target.comparison op l r) := by
  unfold comparison
  split <;> rfl

theorem arithmetic_plain (op : BinaryOp) (l r : Value) : Plain (target.arithmetic op l r) := by
  unfold arithmetic
  simp only []
  split
  · rfl
  · split_ifs <;> split <;> rfl

theorem binary_plain (op : BinaryOp) (l r : Value) : Plain (target.binary op l r) := by
  unfold binary
  split_ifs
  · exact target.pointerArithmetic_plain op l r
  · exact target.shift_plain op l r
  · exact target.comparison_plain op l r
  · exact target.arithmetic_plain op l r

theorem cast_plain (v : Value) (dest : Ty) : Plain (target.cast v dest) := by
  unfold cast
  simp only []
  split <;> first | rfl | (split_ifs <;> rfl)

end Target

namespace EvalContext

open Eval

variable (cx : EvalContext)

theorem resolve_plain : ∀ written : SourceType, Plain (cx.resolve written)
  | .scalar .. | .reference .. => rfl
  | .tagged name _ => by
    unfold resolve
    split <;> rfl
  | .pointer pointee _ => by
    have ih := resolve_plain pointee
    unfold resolve
    rcases hp : cx.resolve pointee with e | type <;> rw [hp] at ih
    · exact congrArg Except.error (Except.error.inj ih)
    · rfl

theorem fieldPlace_plain (record : RecordType) (address : UInt64) (field : String) :
    Plain (fieldPlace record address field) := by
  unfold fieldPlace
  split <;> rfl

theorem memberPlace_plain (base : Value) (field : String) : Plain (memberPlace base field) := by
  unfold memberPlace
  split
  · exact fieldPlace_plain _ _ _
  · rfl

theorem memberOfPointerPlace_plain (base : Value) (field : String) :
    Plain (memberOfPointerPlace base field) := by
  unfold memberOfPointerPlace
  split
  · exact fieldPlace_plain _ _ _
  · rfl

theorem elementPointer_plain (base index : Value) : Plain (cx.elementPointer base index) := by
  unfold elementPointer
  split <;> rfl

/-- The name is quoted, and a name has no parentheses. -/
theorem variablePointer_plain (name : String) : Plain (cx.variablePointer name) := by
  unfold variablePointer
  simp only []
  split
  · rfl
  · split <;> rfl

theorem joinBranches_plain (truth : Bool) (taken skipped : Value) :
    Plain (cx.joinBranches truth taken skipped) := by
  unfold joinBranches
  split
  · rfl
  · cases truth <;> rfl

theorem erase_report (finding : Finding) : (cx.report finding).erase = cx.report finding := by
  unfold report
  rw [erase_bind]
  refine bind_congr fun session => ?_
  split
  · rw [erase_bind]
    refine bind_congr fun _ => ?_
    cases cx.options.stopAtFinding <;> rfl
  · rfl

theorem erase_accept {outcome : Except EvalError Judged} (h : Plain outcome) :
    (cx.accept outcome).erase = cx.accept outcome := by
  unfold accept
  simp only [erase_bind, erase_ofExcept h, erase_report, erase_pure]

theorem erase_load (address : UInt64) (type : Ty) :
    (cx.load address type).erase = cx.load address type := by
  unfold load
  split
  · rfl
  · split
    · rfl
    · rw [erase_bind]
      refine bind_congr fun session => ?_
      split <;> rfl

/-! ## Evaluation -/

/-- Without its parentheses an expression is evaluated as with them. -/
theorem eval_erase (e : Expr) :
    cx.eval e.erase = (cx.eval e).erase ∧ cx.evalAddress e.erase = (cx.evalAddress e).erase := by
  induction e with
  | integer _ | floating _ | boolean _ => exact ⟨rfl, rfl⟩
  | var name =>
    exact ⟨(erase_orError _ (.undeclared name)).symm,
      (erase_ofExcept (cx.variablePointer_plain name)).symm⟩
  | unary op e ih =>
    refine ⟨?_, rfl⟩
    simp only [Expr.erase, eval, erase_bind, ih.1, erase_ofExcept (Target.unary_plain _ _ _)]
  | binary op e f ihe ihf =>
    refine ⟨?_, rfl⟩
    simp only [Expr.erase, eval, erase_bind, ihe.1, ihf.1]
    refine bind_congr fun l => ?_
    split
    · refine erase_guard rfl ?_
      split
      · rfl
      · rw [erase_bind]
        exact bind_congr fun r => erase_guard rfl rfl
    · simp only [erase_bind, erase_accept _ (Target.binary_plain _ _ _ _)]
  | addressOf e ih => exact ⟨ih.2, rfl⟩
  | dereference e ih =>
    constructor
    · simp only [Expr.erase, eval, erase_bind, ih.1, erase_orError, erase_load]
      rfl
    · simp only [Expr.erase, evalAddress, erase_bind, ih.1]
      refine bind_congr fun pointer => ?_
      split <;> rfl
  | member e field ih =>
    constructor
    · simp only [Expr.erase, eval, erase_bind, ih.1, erase_load,
        erase_ofExcept (memberPlace_plain _ _)]
    · simp only [Expr.erase, evalAddress, erase_bind, ih.1, erase_pure,
        erase_ofExcept (memberPlace_plain _ _)]
  | memberOfPointer e field ih =>
    constructor
    · simp only [Expr.erase, eval, erase_bind, ih.1, erase_load,
        erase_ofExcept (memberOfPointerPlace_plain _ _)]
    · simp only [Expr.erase, evalAddress, erase_bind, ih.1, erase_pure,
        erase_ofExcept (memberOfPointerPlace_plain _ _)]
  | index e f ihe ihf =>
    constructor
    · simp only [Expr.erase, eval, erase_bind, ihe.1, ihf.1, erase_orError, erase_load,
        erase_ofExcept (cx.elementPointer_plain _ _)]
      rfl
    · simp only [Expr.erase, evalAddress, erase_bind, ihe.1, ihf.1,
        erase_ofExcept (cx.elementPointer_plain _ _)]
  | conditional e f g ihe ihf ihg =>
    refine ⟨?_, rfl⟩
    simp only [Expr.erase, eval, erase_bind, ihe.1, ihf.1, ihg.1]
    refine bind_congr fun cond => erase_guard rfl ?_
    split <;> simp only [erase_bind, erase_speculatively,
      erase_ofExcept (cx.joinBranches_plain _ _ _)]
  | cast type e ih =>
    refine ⟨?_, rfl⟩
    simp only [Expr.erase, eval, erase_bind, ih.1, erase_ofExcept (cx.resolve_plain _),
      erase_accept _ (Target.cast_plain _ _ _)]
  | paren e ih => exact ih

theorem evaluateIn_erase (session : Session) (e : Expr) :
    cx.evaluateIn session e.erase =
      ((cx.evaluateIn session e).1.mapError EvalError.erase, (cx.evaluateIn session e).2) := by
  unfold evaluateIn
  rw [(cx.eval_erase e).1, run_erase]
  rcases (cx.eval e).run { session with finding := .none } with ⟨_ | v, after⟩ <;> rfl

end EvalContext

theorem check_erase (target : Target) (frame : Snapshot) (e : Expr) :
    check target frame e.erase = (check target frame e).erase := by
  have he := congrArg Prod.fst
    (EvalContext.evaluateIn_erase { target, frame := frame.toFrame } {} e)
  unfold check EvalContext.evaluate
  rw [he]
  rcases (EvalContext.evaluateIn _ {} e).1 with err | r
  · rfl
  · simp only [Except.mapError, Outcome.ofResult]
    split <;> rfl

/-! ## Generated expressions -/

namespace Expr

/-- The expression is evaluated the same without its parentheses, also where an error quotes an
operand. -/
def Transparent (e : Expr) : Prop := ∀ cx : EvalContext, cx.eval e.erase = cx.eval e

variable {e f g : Expr}

theorem Transparent.paren (he : e.Transparent) : (paren e).Transparent := he

theorem Transparent.parenIf (he : e.Transparent) (needed : Bool) :
    (e.parenIf needed).Transparent := by
  cases needed <;> exact he

theorem Transparent.unary (he : e.Transparent) (op : UnaryOp) : (unary op e).Transparent := by
  intro cx
  simp only [erase, EvalContext.eval, he cx]

theorem Transparent.binary (he : e.Transparent) (hf : f.Transparent) (op : BinaryOp) :
    (binary op e f).Transparent := by
  intro cx
  simp only [erase, EvalContext.eval, he cx, hf cx]

theorem Transparent.index (he : e.Transparent) (hf : f.Transparent) :
    (index e f).Transparent := by
  intro cx
  simp only [erase, EvalContext.eval, he cx, hf cx]

theorem Transparent.conditional (he : e.Transparent) (hf : f.Transparent) (hg : g.Transparent) :
    (conditional e f g).Transparent := by
  intro cx
  simp only [erase, EvalContext.eval, he cx, hf cx, hg cx]

theorem Transparent.check (he : e.Transparent) (target : Target) (frame : Snapshot) :
    check target frame e.erase = check target frame e := by
  unfold Assay.check EvalContext.evaluate EvalContext.evaluateIn
  rw [he]

end Expr

namespace Generator

open Assay.Expr

variable {σ : Type} {g : Generator σ}

theorem doubleConstant_yields_transparent : Yields g.doubleConstant Transparent := by
  refine (yields_true _).bind fun x _ => yields_pure ?_
  split <;> exact fun _ => rfl

/-- The only operand whose address a generated expression takes is a name. -/
theorem production_yields_transparent (child : Gen σ Expr) (kind : ExprKind)
    (hchild : Yields child Transparent) : Yields (g.production child kind) Transparent := by
  cases kind with
  | integer | boolean => exact (yields_true _).bind fun _ _ => yields_pure fun _ => rfl
  | double => exact doubleConstant_yields_transparent
  | var | addressOf => exact yields_pure fun _ => rfl
  | unary =>
    exact (yields_true _).bind fun op _ => hchild.bind fun operand ho =>
      yields_pure ((ho.parenIf _).unary op)
  | binary =>
    exact (yields_true _).bind fun op _ => hchild.bind fun lhs hl => hchild.bind fun rhs hr =>
      yields_pure ((hl.parenIf _).binary (hr.parenIf _) op)
  | member | memberOfPointer => exact (yields_true _).bind fun _ _ => yields_pure fun _ => rfl
  | index =>
    exact hchild.bind fun index hi => yields_pure (.index (fun _ => rfl) hi)
  | conditional =>
    exact hchild.bind fun cond hc => hchild.bind fun lhs hl => hchild.bind fun rhs hr =>
      yields_pure ((hc.parenIf _).conditional hl hr)

end Generator

/-- Without its parentheses an expression has the same value, finding and error, but for those of
an operand that the error quotes. What checking a generated expression gives is the same to the
letter, so the parentheses it got at random have no part in it. -/
theorem erase_changes_nothing :
    (∀ (cx : EvalContext) (session : Session) (e : Expr),
      cx.evaluateIn session e.erase =
        ((cx.evaluateIn session e).1.mapError EvalError.erase, (cx.evaluateIn session e).2))
    ∧ (∀ (target : Target) (frame : Snapshot) (e : Expr),
      check target frame e.erase = (check target frame e).erase)
    ∧ ∀ {σ : Type} (g : Generator σ), Yields g.expr fun e =>
      ∀ (target : Target) (frame : Snapshot),
        check target frame e.erase = check target frame e := by
  refine ⟨EvalContext.evaluateIn_erase, check_erase, fun g => ?_⟩
  have hexpr : Yields g.expr Expr.Transparent :=
    Generator.exprAt_yields (fun _ => yields_true _)
      (fun child kind _ => Generator.production_yields_transparent child kind)
      (fun _ he => he.paren) _ _
  exact hexpr.imp fun e he => he.check

end Assay
