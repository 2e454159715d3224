import Assay.Evaluation.Basic
import Assay.Proofs.Yields

/-!
# What evaluations yield

The ways of putting evaluations together that are their own, and the value of a whole evaluation
(`value_of_evaluateIn`).
-/

namespace Assay

namespace Eval

variable {α : Type} {P : α → Prop} {E : EvalError → Prop}

theorem run_speculatively (x : Eval α) (s : Session) :
    x.speculatively.run s = ((x.run { s with speculative := true }).1,
      { (x.run { s with speculative := true }).2 with speculative := s.speculative }) := rfl

theorem yields_ofExcept (result : Except EvalError α) :
    Yields (ofExcept result) fun a => result = .ok a :=
  fun _ _ h => h

theorem yields_orError (result : Option α) (error : EvalError) :
    Yields (orError result error) fun a => result = some a := by
  cases result with
  | none => exact yields_throw error
  | some a => exact yields_pure rfl

theorem yields_speculatively {x : Eval α} (hx : Yields x P) : Yields x.speculatively P :=
  fun s a h => hx { s with speculative := true } a h

theorem ofExcept_ok (a : α) : ofExcept (.ok a) = pure a := rfl

theorem failsWith_ofExcept {result : Except EvalError α} (h : ∀ e, result = .error e → E e) :
    FailsWith (ofExcept result) E :=
  fun _ e he => h e he

theorem failsWith_orError (result : Option α) {error : EvalError} (h : E error) :
    FailsWith (orError result error) E := by
  cases result with
  | none => exact failsWith_throw h
  | some a => exact failsWith_pure a

theorem failsWith_speculatively {x : Eval α} (hx : FailsWith x E) : FailsWith x.speculatively E :=
  fun s e h => hx { s with speculative := true } e h

theorem ends_ofExcept {result : Except EvalError α} (hP : ∀ a, result = .ok a → P a)
    (hE : ∀ e, result = .error e → E e) : Ends (ofExcept result) P E :=
  ⟨fun _ a h => hP a h, failsWith_ofExcept hE⟩

theorem ends_speculatively {x : Eval α} (hx : Ends x P E) : Ends x.speculatively P E :=
  ⟨yields_speculatively hx.yields, failsWith_speculatively hx.fails⟩

end Eval

theorem EvalContext.value_of_evaluateIn {cx : EvalContext} {session : Session} {e : Expr}
    {r : Evaluation} {P : Value → Prop} (hx : Yields (cx.eval e) P)
    (h : (cx.evaluateIn session e).1 = .ok r) : P r.value := by
  refine hx { session with finding := .none } r.value ?_
  unfold evaluateIn at h
  rcases hr : (cx.eval e).run { session with finding := .none } with ⟨_ | v, after⟩ <;>
    rw [hr] at h <;> cases h
  rfl

end Assay
