import Assay.Generation.Script
import Assay.Proofs.Expr.Readable
import Assay.Proofs.Generation.Contract

/-!
# Generated expressions are readable

Where the generator adds parentheses the tree needs them, and everywhere it leaves them out
precedence does without. So generated expressions are readable (`exprAt_yields_readable`), and their
texts determine them (`expr_eq_of_text_eq`).
-/

namespace Assay

/-- The names that expressions refer to are identifiers and no truth values. -/
structure Config.Named (config : Config) : Prop where
  varName : isName config.varName
  arrayName : isName config.arrayName
  structName : isName config.structName
  structPointerName : isName config.structPointerName
  fieldNames : ∀ name ∈ config.fieldNames, isName name

namespace Expr

theorem Readable.parenIf {e : Expr} (he : e.Readable) (needed : Bool) :
    (e.parenIf needed).Readable := by
  cases needed
  · exact he
  · exact .paren he

theorem precedence_parenIf {e : Expr} {needed : Bool} {bound : Nat}
    (h : needed = false → e.precedence ≤ bound) : (e.parenIf needed).precedence ≤ bound := by
  cases needed
  · exact h rfl
  · exact Nat.zero_le _

end Expr

namespace Generator

open Assay.Expr

variable {σ : Type} {g : Generator σ}

/-- A valid configuration with proper names, and an honest sampler. -/
structure Lawful (g : Generator σ) : Prop where
  valid : g.config.problem? = none
  named : g.config.Named
  honest : g.sampler.Honest

theorem unaryNode_readable (op : UnaryOp) {e : Expr} (he : e.Readable) :
    (unaryNode op e).Readable := by
  refine .unary op (he.parenIf _) (precedence_parenIf fun h => ?_)
  simpa using h

theorem binaryNode_readable (op : BinaryOp) {e f : Expr} (he : e.Readable) (hf : f.Readable) :
    (binaryNode op e f).Readable := by
  refine .binary (he.parenIf _) (hf.parenIf _) (precedence_parenIf fun h => ?_)
    (Nat.lt_of_le_pred ?_ (precedence_parenIf fun h => ?_))
  · simpa using h
  · exact (Nat.zero_le _).trans_lt (precedence_bounds op).1
  · have hlt : f.precedence < op.precedence := by simpa using h
    exact Nat.le_pred_of_lt hlt

theorem conditionalNode_readable {e f g : Expr} (he : e.Readable) (hf : f.Readable)
    (hg : g.Readable) : (conditionalNode e f g).Readable := by
  refine .conditional (he.parenIf _) hf hg
    (Nat.lt_of_le_pred (by decide) (precedence_parenIf fun h => ?_))
  have hlt : e.precedence < conditionalPrecedence := by simpa using h
  exact Nat.le_pred_of_lt hlt

/-- A literal has no sign: that of a negative number is an operator. -/
theorem doubleConstant_yields_readable (hg : g.Lawful) : Yields g.doubleConstant Readable := by
  have hp := Config.double_proper hg.valid
  refine (ask_yields hg.honest hp).bind fun x hx => yields_pure ?_
  have hfin : x.isFinite := by
    simp only [Request.permits, Bool.and_eq_true, Bool.or_eq_true] at hx
    exact Binary64.isFinite_of_between hp.1 hp.2.1 hx.1 hx.2
  cases x with
  | nan => cases hfin
  | infinite negative => cases hfin
  | finite negative units fits =>
    cases negative
    · exact .floating units fits
    · exact .unary .neg (.floating units fits) (Nat.zero_le _)

theorem pick?_yields_mem {α : Type} (items : List α) :
    Yields (g.pick? items) fun picked => ∀ item ∈ picked, item ∈ items := by
  have hask : Yields (g.ask (.integer 0 (UInt64.ofNat (items.length - 1))) >>=
      fun i => pure items[i.toNat]?) fun picked => ∀ item ∈ picked, item ∈ items :=
    (yields_true _).bind fun i _ => yields_pure fun item hi => List.mem_of_getElem? hi
  unfold pick?
  split
  · exact yields_pure nofun
  · exact hask

theorem pickName_yields_mem (names : List String) (what : String) :
    Yields (g.pickName names what) (· ∈ names) := by
  refine (pick?_yields_mem names).bind fun picked hp => ?_
  cases picked with
  | none => exact yields_throw _
  | some name => exact yields_pure (hp name rfl)

theorem maybeParen_yields_readable {e : Expr} (he : e.Readable) :
    Yields (g.maybeParen e) Readable :=
  (yields_true _).bind fun paren _ => yields_pure (he.parenIf paren)

/-- Every expression that the generator gives at any depth is readable. -/
theorem exprAt_yields_readable (hg : g.Lawful) (fuel depth : Nat) :
    Yields (g.exprAt fuel depth) Readable := by
  induction fuel generalizing depth with
  | zero => exact yields_throw _
  | succ fuel ih =>
    have hn := hg.named
    refine (yields_true _).bind fun kind _ => ?_
    cases kind with
    | integer =>
      exact (yields_true _).bind fun n _ => (yields_pure (.integer n)).bind fun e he =>
        maybeParen_yields_readable he
    | double =>
      exact (doubleConstant_yields_readable hg).bind fun e he => maybeParen_yields_readable he
    | boolean =>
      exact (yields_true _).bind fun b _ => (yields_pure (.boolean b)).bind fun e he =>
        maybeParen_yields_readable he
    | var =>
      exact (yields_pure (.var hn.varName)).bind fun e he => maybeParen_yields_readable he
    | unary =>
      exact (yields_true _).bind fun op _ => (ih _).bind fun operand ho =>
        (yields_pure (unaryNode_readable op ho)).bind fun e he => maybeParen_yields_readable he
    | binary =>
      exact (yields_true _).bind fun op _ => (ih _).bind fun lhs hl => (ih _).bind fun rhs hr =>
        (yields_pure (binaryNode_readable op hl hr)).bind fun e he =>
        maybeParen_yields_readable he
    | addressOf =>
      exact (yields_pure (.addressOf hn.varName)).bind fun e he => maybeParen_yields_readable he
    | member =>
      exact (pickName_yields_mem _ _).bind fun field hf =>
        (yields_pure (.member hn.structName (isIdentifier_of_isName (hn.fieldNames field hf)))).bind
        fun e he => maybeParen_yields_readable he
    | memberOfPointer =>
      exact (pickName_yields_mem _ _).bind fun field hf =>
        (yields_pure (.memberOfPointer hn.structPointerName
          (isIdentifier_of_isName (hn.fieldNames field hf)))).bind
        fun e he => maybeParen_yields_readable he
    | index =>
      exact (ih _).bind fun index hi => (yields_pure (.index hn.arrayName hi)).bind fun e he =>
        maybeParen_yields_readable he
    | conditional =>
      exact (ih _).bind fun cond hc => (ih _).bind fun lhs hl => (ih _).bind fun rhs hr =>
        (yields_pure (conditionalNode_readable hc hl hr)).bind fun e he =>
        maybeParen_yields_readable he

/-- Two generated expressions with the same text are the same, whichever generators give them. -/
theorem expr_eq_of_text_eq {τ : Type} {g' : Generator τ} (hg : g.Lawful) (hg' : g'.Lawful)
    {s : σ} {s' : τ} {e e' : Expr} (h : (g.expr.run s).1 = .ok e) (h' : (g'.expr.run s').1 = .ok e')
    (ht : e.text = e'.text) : e = e' :=
  (exprAt_yields_readable hg _ _ s e h).eq_of_text_eq (exprAt_yields_readable hg' _ _ s' e' h') ht

/-- The generator of the default configuration, driven by scripts. -/
def scripted : Generator Script := { config := {}, sampler := Script.sampler }

theorem scripted_lawful : scripted.Lawful where
  valid := by decide +kernel
  named := ⟨by decide, by decide, by decide, by decide, by decide⟩
  honest := Script.sampler_honest

/-- The choices for `7 - -x`; where a script ends, nothing is put in parentheses. -/
def subtraction (rest : List Choice) : Script where
  choices := [.exprKind .binary, .binaryOp .minus, .exprKind .integer, .integer 7, .flag false,
    .exprKind .unary, .unaryOp .neg, .exprKind .var] ++ rest

theorem expr_eq_of_text_eq_subtraction :
    let e : Expr := .binary .minus (.integer { value := 7 }) (.unary .neg (.var "x"))
    let e' : Expr := .binary .minus (.integer { value := 7 }) (.unary .neg (.var "x"))
    (scripted.expr.run (subtraction [])).1 = .ok e
      ∧ (scripted.expr.run (subtraction [.flag false])).1 = .ok e' ∧ e.text = e'.text
      ∧ e = e' := by
  intro e e'
  have hok {x : Except GenError Expr} (hx : x.toOption = some e) : x = .ok e := by
    cases x <;> simp_all [Except.toOption]
  have h := hok (x := (scripted.expr.run (subtraction [])).1) (by decide +kernel)
  have h' := hok (x := (scripted.expr.run (subtraction [.flag false])).1) (by decide +kernel)
  exact ⟨h, h', rfl, expr_eq_of_text_eq scripted_lawful scripted_lawful h h' rfl⟩

end Generator

end Assay
