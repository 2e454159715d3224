import Assay.Proofs.Evaluation.Failures

/-!
# Relations of two evaluations

A relation of evaluations that passes through the ways they are put together holds of the
evaluations of every expression, as soon as it holds where a finding is reported, where memory
is read and where a conditional skips a branch (`eval_chained`). It may relate two frames that
differ in memory. In one frame a skipped branch needs nothing of its own (`eval_related`). A
property of one evaluation is such a relation as well.
-/

namespace Assay

namespace Eval

/-- A relation of evaluations that passes through evaluations one after another. It need not hold
of failures for want of memory or for undefined behaviour. -/
structure Chaining (R : ∀ α : Type, Eval α → Eval α → Prop) : Prop where
  pure : ∀ {α : Type} (a : α), R α (Pure.pure a) (Pure.pure a)
  throw : ∀ {α : Type} {e : EvalError}, e.isStatic → R α (MonadExcept.throw e) (MonadExcept.throw e)
  bind : ∀ {α β : Type} {x y : Eval α} {f g : α → Eval β}, R α x y → (∀ a, R β (f a) (g a)) →
    R β (x >>= f) (y >>= g)

/-- A relation of evaluations that passes through the ways they are put together. It need not hold
of failures for want of memory or for undefined behaviour. -/
structure Congruence (R : ∀ α : Type, Eval α → Eval α → Prop) : Prop where
  pure : ∀ {α : Type} (a : α), R α (Pure.pure a) (Pure.pure a)
  throw : ∀ {α : Type} {e : EvalError}, e.isStatic → R α (MonadExcept.throw e) (MonadExcept.throw e)
  bind : ∀ {α β : Type} {x y : Eval α} {f g : α → Eval β}, R α x y → (∀ a, R β (f a) (g a)) →
    R β (x >>= f) (y >>= g)
  speculatively : ∀ {α : Type} {x y : Eval α}, R α x y → R α x.speculatively y.speculatively

namespace Chaining

variable {R : ∀ α : Type, Eval α → Eval α → Prop} (hR : Chaining R) {α : Type}
include hR

theorem ofExcept {result : Except EvalError α}
    (h : ∀ err, result = .error err → err.isStatic) :
    R α (Eval.ofExcept result) (Eval.ofExcept result) := by
  cases result with
  | ok a => exact hR.pure a
  | error err => exact hR.throw (h err rfl)

theorem orError (result : Option α) {e : EvalError} (he : e.isStatic) :
    R α (Eval.orError result e) (Eval.orError result e) := by
  cases result with
  | none => exact hR.throw he
  | some a => exact hR.pure a

/-- A test that may fail goes before the rest. -/
theorem guard {c : Bool} {e : EvalError} (he : e.isStatic) {x y : Eval α} (h : R α x y) :
    R α (if c then do MonadExcept.throw e; x else x)
      (if c then do MonadExcept.throw e; y else y) := by
  split
  · exact hR.bind (hR.throw he) fun _ => h
  · exact h

end Chaining

theorem Congruence.chaining {R : ∀ α : Type, Eval α → Eval α → Prop} (hR : Congruence R) :
    Chaining R :=
  ⟨hR.pure, hR.throw, hR.bind⟩

end Eval

/-- The frames give names the same meaning. They may differ in memory. -/
structure Frame.SameNames (frame frame' : Frame) : Prop where
  valueOf? : ∀ name, frame'.valueOf? name = frame.valueOf? name
  taggedType? : ∀ name, frame'.taggedType? name = frame.taggedType? name
  addressOf? : ∀ name, frame'.addressOf? name = frame.addressOf? name

theorem Frame.SameNames.refl (frame : Frame) : frame.SameNames frame :=
  ⟨fun _ => rfl, fun _ => rfl, fun _ => rfl⟩

/-- The branches of the conditionals in an expression. -/
def Expr.branches : Expr → List Expr
  | integer _ | floating _ | boolean _ | var _ => []
  | unary _ e | addressOf e | dereference e | member e _ | memberOfPointer e _ | cast _ e
  | paren e => e.branches
  | binary _ e f | index e f => e.branches ++ f.branches
  | conditional e f g => f :: g :: (e.branches ++ (f.branches ++ g.branches))

namespace EvalContext

open Eval

/-- What a conditional does with the branch that it skips. -/
def skip (cx : EvalContext) (truth : Bool) (taken : Value) (e : Expr) : Eval Value := do
  let skipped ← Eval.speculatively (cx.eval e)
  Eval.ofExcept (cx.joinBranches truth taken skipped)

variable {target : Target} {frame frame' : Frame} {options options' : EvalOptions}

theorem resolve_names (names : frame.SameNames frame') : ∀ written : SourceType,
    resolve ⟨target, frame', options'⟩ written = resolve ⟨target, frame, options⟩ written
  | .scalar .. | .reference .. => rfl
  | .tagged name _ => by simp only [resolve, names.taggedType?]
  | .pointer pointee _ => by
    simp only [resolve]
    rw [resolve_names names pointee]

theorem variablePointer_names (names : frame.SameNames frame') (name : String) :
    variablePointer ⟨target, frame', options'⟩ name =
      variablePointer ⟨target, frame, options⟩ name := by
  simp only [variablePointer, names.valueOf?, names.addressOf?]

/-- Whatever relates reports, loads and skipped branches relates evaluations of one expression in
two frames that may differ in memory. -/
theorem eval_chained (names : frame.SameNames frame') {R : ∀ α : Type, Eval α → Eval α → Prop}
    (hR : Chaining R)
    (report : ∀ finding,
      R Unit (report ⟨target, frame, options⟩ finding) (report ⟨target, frame', options'⟩ finding))
    (load : ∀ address type, R Value (load ⟨target, frame, options⟩ address type)
      (load ⟨target, frame', options'⟩ address type)) (e : Expr)
    (skip : ∀ b ∈ e.branches,
      R Value (eval ⟨target, frame, options⟩ b) (eval ⟨target, frame', options'⟩ b) →
      ∀ truth taken, R Value (skip ⟨target, frame, options⟩ truth taken b)
        (skip ⟨target, frame', options'⟩ truth taken b)) :
    R Value (eval ⟨target, frame, options⟩ e) (eval ⟨target, frame', options'⟩ e)
      ∧ R Value (evalAddress ⟨target, frame, options⟩ e)
          (evalAddress ⟨target, frame', options'⟩ e) := by
  have accept {outcome : Except EvalError Judged}
      (h : ∀ err, outcome = .error err → err.isStatic) :
      R Value (accept ⟨target, frame, options⟩ outcome)
        (accept ⟨target, frame', options'⟩ outcome) :=
    hR.bind (hR.ofExcept h) fun judged => hR.bind (report judged.finding) fun _ => hR.pure _
  induction e with
  | integer _ | floating _ | boolean _ => exact ⟨hR.pure _, hR.throw rfl⟩
  | var name =>
    have hvalue : frame'.valueOf? name = frame.valueOf? name := names.valueOf? name
    have hpointer : variablePointer ⟨target, frame', options'⟩ name =
        variablePointer ⟨target, frame, options⟩ name := variablePointer_names names name
    simp only [eval, evalAddress, hvalue, hpointer]
    exact ⟨hR.orError _ rfl, hR.ofExcept variablePointer_static⟩
  | unary op e ih =>
    exact ⟨hR.bind (ih skip).1 fun v => hR.ofExcept unary_static, hR.throw rfl⟩
  | binary op e f ihe ihf =>
    have he := ihe fun b hb => skip b (List.mem_append_left _ hb)
    have hf := ihf fun b hb => skip b (List.mem_append_right _ hb)
    refine ⟨?_, hR.throw rfl⟩
    simp only [eval]
    split
    · refine hR.bind he.1 fun l => hR.guard rfl ?_
      split
      · exact hR.pure _
      · exact hR.bind hf.1 fun r => hR.guard rfl (hR.pure _)
    · exact hR.bind he.1 fun l => hR.bind hf.1 fun r => accept binary_static
  | addressOf e ih => exact ⟨(ih skip).2, hR.throw rfl⟩
  | dereference e ih =>
    constructor
    · exact hR.bind (ih skip).1 fun pointer => hR.bind (hR.orError _ rfl) fun place => load _ _
    · refine hR.bind (ih skip).1 fun pointer => ?_
      split
      · exact hR.pure _
      · exact hR.throw rfl
  | member e field ih =>
    have he := ih skip
    exact ⟨hR.bind he.1 fun base => hR.bind (hR.ofExcept memberPlace_static) fun place => load _ _,
      hR.bind he.1 fun base => hR.bind (hR.ofExcept memberPlace_static) fun place => hR.pure _⟩
  | memberOfPointer e field ih =>
    have he := ih skip
    exact ⟨hR.bind he.1 fun base => hR.bind (hR.ofExcept memberOfPointerPlace_static) fun place =>
        load _ _,
      hR.bind he.1 fun base => hR.bind (hR.ofExcept memberOfPointerPlace_static) fun place =>
        hR.pure _⟩
  | index e f ihe ihf =>
    have he := ihe fun b hb => skip b (List.mem_append_left _ hb)
    have hf := ihf fun b hb => skip b (List.mem_append_right _ hb)
    constructor
    · exact hR.bind he.1 fun base => hR.bind hf.1 fun index =>
        hR.bind (hR.ofExcept elementPointer_static) fun element =>
        hR.bind (hR.orError _ rfl) fun place => load _ _
    · exact hR.bind he.1 fun base => hR.bind hf.1 fun index => hR.ofExcept elementPointer_static
  | conditional e f g ihe ihf ihg =>
    have he := ihe fun b hb => skip b (by simp [Expr.branches, hb])
    have hf := ihf fun b hb => skip b (by simp [Expr.branches, hb])
    have hg := ihg fun b hb => skip b (by simp [Expr.branches, hb])
    refine ⟨hR.bind he.1 fun cond => hR.guard rfl ?_, hR.throw rfl⟩
    split
    · exact hR.bind hf.1 fun taken => skip g (by simp [Expr.branches]) hg.1 true taken
    · exact hR.bind hg.1 fun taken => skip f (by simp [Expr.branches]) hf.1 false taken
  | cast type e ih =>
    refine ⟨?_, hR.throw rfl⟩
    have hresolve : resolve ⟨target, frame', options'⟩ type =
        resolve ⟨target, frame, options⟩ type := resolve_names names type
    simp only [eval, hresolve]
    exact hR.bind (hR.ofExcept resolve_static) fun dest =>
      hR.bind (ih skip).1 fun v => accept cast_static
  | paren e ih => exact ih skip

/-- Whatever relates reports and loads relates evaluations of one expression in one frame. -/
theorem eval_related (options options' : EvalOptions) {R : ∀ α : Type, Eval α → Eval α → Prop}
    (hR : Congruence R)
    (report : ∀ finding,
      R Unit (report ⟨target, frame, options⟩ finding) (report ⟨target, frame, options'⟩ finding))
    (load : ∀ address type, R Value (load ⟨target, frame, options⟩ address type)
      (load ⟨target, frame, options'⟩ address type)) (e : Expr) :
    R Value (eval ⟨target, frame, options⟩ e) (eval ⟨target, frame, options'⟩ e)
      ∧ R Value (evalAddress ⟨target, frame, options⟩ e)
          (evalAddress ⟨target, frame, options'⟩ e) :=
  eval_chained (.refl frame) hR.chaining report load e fun _ _ hb _ _ =>
    hR.bind (hR.speculatively hb) fun _ => hR.chaining.ofExcept joinBranches_static

end EvalContext

end Assay
