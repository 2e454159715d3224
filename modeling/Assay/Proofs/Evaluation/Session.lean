import Assay.Proofs.Evaluation.EarlyExit

/-!
# One session for many expressions

What was found before an evaluation makes no difference to its outcome, and the session stays as
speculative as it was (`eval_resumes`). So one session serves for many expressions, also after an
evaluation that failed: each is given what a fresh session gives it (`evaluateAll_fresh`).
-/

namespace Assay

namespace Finding

@[simp] theorem none_orElse (f : Finding) : none.orElse f = f := rfl

@[simp] theorem orElse_none (f : Finding) : f.orElse none = f := by
  cases f <;> rfl

theorem orElse_assoc (f g h : Finding) : (f.orElse g).orElse h = f.orElse (g.orElse h) := by
  cases f <;> rfl

end Finding

namespace Eval

variable {α β : Type}

/-- The evaluation has one outcome and one finding, whatever was found before. What was found
before counts first, and the session stays as speculative as it was. -/
def Resumes (x : Eval α) : Prop :=
  ∀ speculative : Bool, ∃ (outcome : Except EvalError α) (found : Finding), ∀ before : Finding,
    x.run ⟨before, speculative⟩ = (outcome, ⟨before.orElse found, speculative⟩)

namespace Resumes

theorem of_run {x : Eval α} (outcome : Bool → Except EvalError α)
    (h : ∀ s : Session, x.run s = (outcome s.speculative, s)) : Resumes x := by
  intro speculative
  refine ⟨outcome speculative, .none, fun before => ?_⟩
  rw [h, Finding.orElse_none]

theorem pure (a : α) : Resumes (Pure.pure a) := of_run (fun _ => .ok a) fun _ => rfl

theorem throw (e : EvalError) : Resumes (MonadExcept.throw e : Eval α) :=
  of_run (fun _ => .error e) fun _ => rfl

theorem bind {x : Eval α} {f : α → Eval β} (hx : Resumes x) (hf : ∀ a, Resumes (f a)) :
    Resumes (x >>= f) := by
  intro speculative
  obtain ⟨outcome, found, hrun⟩ := hx speculative
  cases outcome with
  | error e =>
    refine ⟨.error e, found, fun before => ?_⟩
    rw [run_bind, hrun]
  | ok a =>
    obtain ⟨outcome', found', hrun'⟩ := hf a speculative
    refine ⟨outcome', found.orElse found', fun before => ?_⟩
    rw [run_bind, hrun]
    simp only []
    rw [hrun', Finding.orElse_assoc]

theorem speculatively {x : Eval α} (hx : Resumes x) : Resumes x.speculatively := by
  intro speculative
  obtain ⟨outcome, found, hrun⟩ := hx true
  refine ⟨outcome, found, fun before => ?_⟩
  rw [run_speculatively, hrun]

theorem congruence : Congruence fun _ x _ => Resumes x where
  pure := .pure
  throw := fun {_ e} _ => .throw e
  bind := .bind
  speculatively := .speculatively

end Resumes

end Eval

namespace EvalContext

open Eval

section Resumes

variable (cx : EvalContext)

theorem report_resumes (finding : Finding) : Resumes (cx.report finding) := by
  intro speculative
  cases hreported : finding.isUndefined && !speculative with
  | true =>
    refine ⟨if cx.options.stopAtFinding then .error (.undefinedBehavior finding) else .ok (),
      finding, fun before => ?_⟩
    rw [run_report, if_pos hreported]
  | false =>
    refine ⟨.ok (), .none, fun before => ?_⟩
    rw [run_report, if_neg (by simp [hreported]), Finding.orElse_none]

theorem load_resumes (address : UInt64) (type : Ty) : Resumes (cx.load address type) := by
  unfold load
  split
  · exact .pure _
  · split
    · exact .pure _
    · refine Resumes.of_run (fun speculative => if speculative then .ok (.zero cx.target type)
        else .error (.memoryRead address)) fun s => ?_
      have hget : (get : Eval Session).run s = (.ok s, s) := rfl
      rw [run_bind, hget]
      simp only []
      cases s.speculative <;> rfl

theorem eval_resumes (e : Expr) : Resumes (cx.eval e) :=
  (eval_related cx.options cx.options Resumes.congruence cx.report_resumes cx.load_resumes e).1

end Resumes

variable {cx : EvalContext}

/-- A whole evaluation has one outcome and one finding, and the same ones after other findings. -/
theorem exists_outcome (cx : EvalContext) (e : Expr) :
    ∃ (outcome : Except EvalError Value) (found : Finding),
      cx.evaluate e = outcome.map (⟨·, found⟩)
        ∧ ∀ before, (cx.eval e).run ⟨before, false⟩ = (outcome, ⟨before.orElse found, false⟩) := by
  obtain ⟨outcome, found, hrun⟩ := cx.eval_resumes e false
  refine ⟨outcome, found, ?_, hrun⟩
  have hfresh := hrun .none
  simp only [evaluate, evaluateIn, hfresh]
  rfl

/-- What a fresh session is given, a session with findings is given too. -/
theorem run_of_evaluate {e : Expr} {r : Evaluation} (h : cx.evaluate e = .ok r)
    (before : Finding) :
    (cx.eval e).run ⟨before, false⟩ = (.ok r.value, ⟨before.orElse r.finding, false⟩) := by
  obtain ⟨outcome, found, hfresh, hrun⟩ := cx.exists_outcome e
  rw [hfresh] at h
  cases outcome <;> cases h
  exact hrun before

theorem run_of_evaluate_error {e : Expr} {err : EvalError} (h : cx.evaluate e = .error err)
    (before : Finding) : ∃ after, (cx.eval e).run ⟨before, false⟩ = (.error err, after) := by
  obtain ⟨outcome, found, hfresh, hrun⟩ := cx.exists_outcome e
  rw [hfresh] at h
  cases outcome <;> cases h
  exact ⟨_, hrun before⟩

theorem evaluate_of_run {e : Expr} {v : Value} {s : Session}
    (h : (cx.eval e).run {} = (.ok v, s)) : cx.evaluate e = .ok ⟨v, s.finding⟩ := by
  simp only [evaluate, evaluateIn, h]
  rfl

theorem evaluate_of_error {e : Expr} {err : EvalError} (h : ((cx.eval e).run {}).1 = .error err) :
    cx.evaluate e = .error err := by
  simp only [evaluate, evaluateIn]
  rcases hr : (cx.eval e).run {} with ⟨e' | v, after⟩ <;> rw [hr] at h <;> simp at h
  rw [h]
  rfl

section Operands

variable {x e f : Expr} {g : Value → Value → Eval Value}
  (hx : cx.eval x = cx.eval e >>= fun l => cx.eval f >>= g l) {l r : Evaluation} {err : EvalError}
include hx

/-- The operands come first, one after the other. -/
theorem run_operands (he : cx.evaluate e = .ok l) (hf : cx.evaluate f = .ok r) :
    (cx.eval x).run {} = (g l.value r.value).run ⟨l.finding.orElse r.finding, false⟩ := by
  rw [hx, run_bind, run_of_evaluate he]
  simp only [Finding.none_orElse]
  rw [run_bind, run_of_evaluate hf]

theorem evaluate_left_error (he : cx.evaluate e = .error err) : cx.evaluate x = .error err := by
  obtain ⟨s, hs⟩ := run_of_evaluate_error he .none
  refine evaluate_of_error ?_
  rw [hx, run_bind, hs]

theorem evaluate_right_error (he : cx.evaluate e = .ok l) (hf : cx.evaluate f = .error err) :
    cx.evaluate x = .error err := by
  obtain ⟨s, hs⟩ := run_of_evaluate_error hf (Finding.none.orElse l.finding)
  refine evaluate_of_error ?_
  rw [hx, run_bind, run_of_evaluate he]
  simp only []
  rw [run_bind, hs]

end Operands

theorem run_accept (carriesOn : cx.options.stopAtFinding = false) (judged : Judged)
    (before : Finding) :
    (cx.accept (.ok judged)).run ⟨before, false⟩ =
      (.ok judged.value, ⟨before.orElse judged.finding, false⟩) := by
  unfold accept
  rw [ofExcept_ok, pure_bind, run_bind, run_report, carriesOn]
  cases judged.finding with
  | none =>
    rw [Finding.orElse_none]
    rfl
  | _ => rfl

/-- An operator other than `&&` and `||` is judged on its operands, and its finding comes after
theirs. -/
theorem evaluate_binary (carriesOn : cx.options.stopAtFinding = false) {op : BinaryOp}
    (hop : op.isLogical = false) {e f : Expr} {l r : Evaluation} {judged : Judged}
    (he : cx.evaluate e = .ok l) (hf : cx.evaluate f = .ok r)
    (hj : cx.target.binary op l.value r.value = .ok judged) :
    cx.evaluate (.binary op e f) =
      .ok ⟨judged.value, (l.finding.orElse r.finding).orElse judged.finding⟩ := by
  have hrun := run_operands (eval_binary cx hop e f) he hf
  rw [hj, run_accept carriesOn] at hrun
  exact evaluate_of_run hrun

/-! ## Expressions one after another -/

/-- A session that is not speculative is as good as a fresh one. -/
theorem evaluateIn_eq_fresh {session : Session} (h : session.speculative = false) (e : Expr) :
    cx.evaluateIn session e = cx.evaluateIn {} e := by
  obtain ⟨finding, speculative⟩ := session
  cases h
  rfl

theorem speculative_evaluateIn (session : Session) (e : Expr) :
    (cx.evaluateIn session e).2.speculative = session.speculative := by
  obtain ⟨outcome, found, hrun⟩ := cx.eval_resumes e session.speculative
  simp only [evaluateIn, hrun]

theorem evaluateAll_eq_map (es : List Expr) {session : Session}
    (h : session.speculative = false) : cx.evaluateAll session es = es.map cx.evaluate := by
  induction es generalizing session with
  | nil => rfl
  | cons e rest ih =>
    have hafter : (cx.evaluateIn session e).2.speculative = false := by
      rw [speculative_evaluateIn, h]
    simp only [evaluateAll, List.map_cons]
    rw [ih hafter, evaluateIn_eq_fresh h]
    rfl

/-- One session gives every expression what a fresh session would give it, whatever came before and
however that ended. It stays as speculative as it was. -/
theorem evaluateAll_fresh (cx : EvalContext) :
    (∀ es : List Expr, cx.evaluateAll {} es = es.map cx.evaluate)
      ∧ ∀ (session : Session) (e : Expr),
          (cx.evaluateIn session e).2.speculative = session.speculative :=
  ⟨fun es => evaluateAll_eq_map es rfl, speculative_evaluateIn⟩

end EvalContext

end Assay
