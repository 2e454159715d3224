import Assay.Proofs.Evaluation.EarlyExit

/-!
# The branch that a conditional skips

Evaluated speculatively, an expression has one outcome whatever the session is, and leaves the
session as it was; neither memory nor undefined behaviour can make it fail (`eval_detached`). So of
the branch that a conditional skips only the type counts (`skipped_branch_counts_by_type`).
-/

namespace Assay

namespace Eval

variable {α β : Type}

/-- In a speculative session the evaluation has one outcome, and changes nothing. -/
def Detached (x : Eval α) : Prop :=
  ∃ outcome : Except EvalError α, (∀ s : Session, s.speculative = true → x.run s = (outcome, s))
    ∧ ∀ err, outcome = .error err → err.isStatic

namespace Detached

theorem pure (a : α) : Detached (Pure.pure a) := ⟨.ok a, fun _ _ => rfl, nofun⟩

theorem throw {e : EvalError} (he : e.isStatic) : Detached (MonadExcept.throw e : Eval α) := by
  refine ⟨.error e, fun _ _ => rfl, fun err h => ?_⟩
  cases h
  exact he

theorem bind {x : Eval α} {f : α → Eval β} (hx : Detached x) (hf : ∀ a, Detached (f a)) :
    Detached (x >>= f) := by
  obtain ⟨outcome, hrun, hstatic⟩ := hx
  cases outcome with
  | error err =>
    refine ⟨.error err, fun s hs => by rw [run_bind, hrun s hs], fun err' h => ?_⟩
    cases h
    exact hstatic err rfl
  | ok a =>
    obtain ⟨outcome', hrun', hstatic'⟩ := hf a
    refine ⟨outcome', fun s hs => ?_, hstatic'⟩
    rw [run_bind, hrun s hs]
    exact hrun' s hs

theorem speculatively {x : Eval α} (hx : Detached x) : Detached x.speculatively := by
  obtain ⟨outcome, hrun, hstatic⟩ := hx
  refine ⟨outcome, fun s hs => ?_, hstatic⟩
  have hself : { s with speculative := true } = s := by rw [← hs]
  rw [run_speculatively, hself, hrun s hs]

theorem congruence : Congruence fun _ x _ => Detached x where
  pure := .pure
  throw := .throw
  bind := .bind
  speculatively := .speculatively

end Detached

end Eval

namespace EvalContext

open Eval

variable (cx : EvalContext)

theorem report_detached (finding : Finding) : Detached (cx.report finding) := by
  refine ⟨.ok (), fun s hs => ?_, nofun⟩
  rw [run_report, hs, Bool.not_true, Bool.and_false]
  rfl

/-- Memory that cannot be read counts as zero. -/
theorem load_detached (address : UInt64) (type : Ty) : Detached (cx.load address type) := by
  unfold load
  split
  · exact .pure _
  · split
    · exact .pure _
    · refine ⟨.ok (.zero cx.target type), fun s hs => ?_, nofun⟩
      have hget : (get : Eval Session).run s = (.ok s, s) := rfl
      rw [run_bind, hget]
      simp only [hs, ↓reduceIte]
      rfl

/-- Of an evaluation that is speculative nothing is left but its outcome. -/
theorem eval_detached (e : Expr) : Detached (cx.eval e) :=
  (eval_related cx.options cx.options Detached.congruence cx.report_detached cx.load_detached e).1

variable {cx}

/-- The outcome of an expression that is evaluated for its type only. -/
def speculate (cx : EvalContext) (e : Expr) : Except EvalError Value :=
  ((cx.eval e).run { speculative := true }).1

theorem run_speculatively_eval (e : Expr) (s : Session) :
    (cx.eval e).speculatively.run s = (cx.speculate e, s) := by
  obtain ⟨outcome, hrun, -⟩ := cx.eval_detached e
  have hs := hrun { s with speculative := true } rfl
  have hfresh := hrun { speculative := true } rfl
  rw [run_speculatively, hs, speculate, hfresh]

theorem speculate_static {e : Expr} {err : EvalError} (h : cx.speculate e = .error err) :
    err.isStatic := by
  obtain ⟨outcome, hrun, hstatic⟩ := cx.eval_detached e
  rw [speculate, hrun _ rfl] at h
  exact hstatic err h

/-! ## Conditionals -/

theorem joinBranches_congr {truth : Bool} {taken w w' : Value} (ht : w.type = w'.type) :
    cx.joinBranches truth taken w = cx.joinBranches truth taken w' := by
  unfold joinBranches
  rw [ht]

/-- What follows the condition, once it is known which branch is taken. -/
def branch (cx : EvalContext) (truth : Bool) (taken skipped : Expr) : Eval Value := do
  let v ← cx.eval taken
  let w ← Eval.speculatively (cx.eval skipped)
  Eval.ofExcept (cx.joinBranches truth v w)

theorem branch_congr {truth : Bool} {taken b b' : Expr} {w w' : Value}
    (hb : cx.speculate b = .ok w) (hb' : cx.speculate b' = .ok w') (ht : w.type = w'.type) :
    cx.branch truth taken b = cx.branch truth taken b' := by
  refine bind_congr fun v => ?_
  funext s
  change ((cx.eval b).speculatively >>= _).run s = ((cx.eval b').speculatively >>= _).run s
  rw [run_bind, run_bind, run_speculatively_eval, run_speculatively_eval, hb, hb']
  simp only []
  rw [joinBranches_congr ht]

end EvalContext

/-- The conditional that takes one branch when its condition has the truth value, and then skips
the other. -/
def Expr.conditionalOn (truth : Bool) (cond taken skipped : Expr) : Expr :=
  if truth then .conditional cond taken skipped else .conditional cond skipped taken

namespace EvalContext

open Eval

variable {cx : EvalContext}

theorem run_conditionalOn {truth : Bool} {cond taken skipped : Expr} {s : Session}
    (hcond : ∀ v, ((cx.eval cond).run s).1 = .ok v → v.isTruthy = truth) :
    (cx.eval (.conditionalOn truth cond taken skipped)).run s =
      match (cx.eval cond).run s with
      | (.ok v, after) =>
        if v.type.isTestable then (cx.branch truth taken skipped).run after
        else (.error (.invalidCast v.type .bool), after)
      | (.error err, after) => (.error err, after) := by
  cases truth <;> simp only [Expr.conditionalOn, Bool.false_eq_true, ↓reduceIte, eval] <;>
    rw [run_bind] <;> rcases hc : (cx.eval cond).run s with ⟨err | v, after⟩ <;>
    rw [hc] at hcond <;> simp only []
  all_goals
    rw [hcond v rfl]
    cases v.type.isTestable <;> rfl

/-- Two branches that have values of one type, when evaluated for their types, are skipped alike.
Such an evaluation changes nothing in the session and does not depend on it, and fails neither for
want of memory nor for undefined behaviour. -/
theorem skipped_branch_counts_by_type (cx : EvalContext) :
    (∀ (s : Session) (truth : Bool) (cond taken b b' : Expr) (w w' : Value),
      (∀ v, ((cx.eval cond).run s).1 = .ok v → v.isTruthy = truth) →
      cx.speculate b = .ok w → cx.speculate b' = .ok w' → w.type = w'.type →
      (cx.eval (.conditionalOn truth cond taken b)).run s =
        (cx.eval (.conditionalOn truth cond taken b')).run s)
    ∧ ∀ (s : Session) (e : Expr),
      (cx.eval e).speculatively.run s = (cx.speculate e, s)
        ∧ (∀ address, cx.speculate e ≠ .error (.memoryRead address))
        ∧ ∀ finding, cx.speculate e ≠ .error (.undefinedBehavior finding) := by
  refine ⟨fun s truth cond taken b b' w w' hcond hb hb' ht => ?_, fun s e => ⟨?_, ?_, ?_⟩⟩
  · rw [run_conditionalOn hcond, run_conditionalOn hcond, branch_congr hb hb' ht]
  · exact run_speculatively_eval e s
  · intro address h
    cases speculate_static h
  · intro finding h
    cases speculate_static h

/-- Evaluation that stops, where `p` is a null pointer. -/
def overNull : EvalContext :=
  stopping (.ofArch .x86_64) (Snapshot.empty.withVariable "p" (.pointer .int 0)).toFrame

/-- `false ? p[0] : 1.5` and `false ? 1 / 0 : 1.5` -/
theorem skipped_branch_counts_by_type_null :
    let b : Expr := .index (.var "p") (.integer { value := 0 })
    let b' : Expr := .binary .div (.integer { value := 1 }) (.integer { value := 0 })
    let zero : Value := .ofInt overNull.target .int 0
    let conditional (skipped : Expr) : Expr :=
      .conditionalOn false (.boolean false) (.floating { value := 1.5 }) skipped
    overNull.evaluate b = .error (.memoryRead 0)
      ∧ overNull.evaluate b' = .error (.undefinedBehavior .divisionByZero)
      ∧ overNull.speculate b = .ok zero ∧ overNull.speculate b' = .ok zero
      ∧ (overNull.eval (conditional b)).run {} = (overNull.eval (conditional b')).run {} := by
  intro b b' zero conditional
  have hb : overNull.speculate b = .ok zero := by rfl
  have hb' : overNull.speculate b' = .ok zero := by rfl
  have hcond : ∀ v, ((overNull.eval (.boolean false)).run {}).1 = .ok v → v.isTruthy = false := by
    intro v hv
    cases hv
    rfl
  exact ⟨by rfl, by rfl, hb, hb',
    (skipped_branch_counts_by_type overNull).1 {} false _ _ b b' zero zero hcond hb hb' rfl⟩

end EvalContext

end Assay
