import Assay.Proofs.Evaluation.Congruence

/-!
# Stopping at the first finding

An evaluation that stops at its first finding agrees with the one that carries on up to there, and
fails with that finding; the one that carries on keeps it to its end (`evaluate_stopping`).
-/

namespace Assay

namespace Eval

variable {α β : Type}

/-- The evaluation never changes the finding. -/
def Silent (x : Eval α) : Prop := ∀ s, (x.run s).2.finding = s.finding

/-- The second evaluation does as the first until that records a finding, and then fails with it.
The first keeps the finding that it records or that it starts with. -/
structure Stops (x y : Eval α) : Prop where
  keeps : ∀ s, s.finding ≠ .none → (x.run s).2.finding = s.finding
  agrees : ∀ s, s.finding = .none → (x.run s).2.finding = .none → y.run s = x.run s
  fails : ∀ s, s.finding = .none → (x.run s).2.finding ≠ .none →
    (y.run s).1 = .error (.undefinedBehavior (x.run s).2.finding)

theorem Silent.stops {x : Eval α} (hx : x.Silent) : Stops x x where
  keeps := fun s _ => hx s
  agrees := fun _ _ _ => rfl
  fails := fun s hs hf => absurd ((hx s).trans hs) hf

namespace Stops

theorem pure (a : α) : Stops (Pure.pure a) (Pure.pure a) :=
  Silent.stops fun _ => rfl

theorem throw (e : EvalError) : Stops (MonadExcept.throw e : Eval α) (MonadExcept.throw e) :=
  Silent.stops fun _ => rfl

theorem bind {x y : Eval α} {f g : α → Eval β} (hx : Stops x y) (hf : ∀ a, Stops (f a) (g a)) :
    Stops (x >>= f) (y >>= g) where
  keeps := by
    intro s hs
    have hk := hx.keeps s hs
    rw [run_bind]
    rcases hr : x.run s with ⟨e | a, after⟩ <;> rw [hr] at hk
    · exact hk
    · simp only [] at hk ⊢
      rw [← hk] at hs ⊢
      exact (hf a).keeps after hs
  agrees := by
    intro s hs hn
    rw [run_bind] at hn ⊢
    rw [run_bind]
    by_cases hm : (x.run s).2.finding = .none
    · rw [hx.agrees s hs hm]
      rcases hr : x.run s with ⟨e | a, after⟩
      · rfl
      · rw [hr] at hm hn
        exact (hf a).agrees after hm hn
    · -- a finding of the first part would still be there
      exfalso
      rcases hr : x.run s with ⟨e | a, after⟩ <;> rw [hr] at hm hn
      · exact hm hn
      · exact hm (((hf a).keeps after hm).symm.trans hn)
  fails := by
    intro s hs hn
    rw [run_bind] at hn ⊢
    rw [run_bind]
    by_cases hm : (x.run s).2.finding = .none
    · rw [hx.agrees s hs hm]
      rcases hr : x.run s with ⟨e | a, after⟩ <;> rw [hr] at hm hn
      · exact absurd hm hn
      · exact (hf a).fails after hm hn
    · have hy := hx.fails s hs hm
      rcases hr : x.run s with ⟨e | a, after⟩ <;> rw [hr] at hm hy
      all_goals
        rcases hr' : y.run s with ⟨e' | b, after'⟩ <;> rw [hr'] at hy <;> cases hy
      · rfl
      · simp only []
        rw [(hf a).keeps after hm]

theorem speculatively {x y : Eval α} (h : Stops x y) : Stops x.speculatively y.speculatively where
  keeps := fun s hs => h.keeps { s with speculative := true } hs
  agrees := by
    intro s hs hn
    have ha := h.agrees { s with speculative := true } hs hn
    rw [run_speculatively, run_speculatively, ha]
  fails := fun s hs hn => h.fails { s with speculative := true } hs hn

theorem congruence : Congruence fun _ => Stops where
  pure := .pure
  throw := fun {_ e} _ => .throw e
  bind := .bind
  speculatively := .speculatively

end Stops

end Eval

namespace EvalContext

open Eval

/-- The context that carries on after a finding. -/
def carryingOn (target : Target) (frame : Frame) : EvalContext :=
  ⟨target, frame, { stopAtFinding := false }⟩

/-- The context that stops at the first finding. -/
def stopping (target : Target) (frame : Frame) : EvalContext :=
  ⟨target, frame, { stopAtFinding := true }⟩

variable {target : Target} {frame : Frame}

theorem run_report (cx : EvalContext) (finding : Finding) (s : Session) :
    (cx.report finding).run s =
      if finding.isUndefined && !s.speculative then
        (if cx.options.stopAtFinding then .error (.undefinedBehavior finding) else .ok (),
          { s with finding := s.finding.orElse finding })
      else (.ok (), s) := by
  have hget : (get : Eval Session).run s = (.ok s, s) := rfl
  unfold report
  rw [run_bind, hget]
  simp only []
  split
  · rw [run_bind]
    cases cx.options.stopAtFinding <;> rfl
  · rfl

theorem eval_binary (cx : EvalContext) {op : BinaryOp} (hop : op.isLogical = false) (e f : Expr) :
    cx.eval (.binary op e f) =
      cx.eval e >>= fun l => cx.eval f >>= fun r => cx.accept (cx.target.binary op l r) := by
  simp only [eval, hop, Bool.false_eq_true, ↓reduceIte]

theorem run_eval_binary {cx : EvalContext} {op : BinaryOp} (hop : op.isLogical = false) {e f : Expr}
    {s s₁ s₂ : Session} {l r : Value} (he : (cx.eval e).run s = (.ok l, s₁))
    (hf : (cx.eval f).run s₁ = (.ok r, s₂)) :
    (cx.eval (.binary op e f)).run s = (cx.accept (cx.target.binary op l r)).run s₂ := by
  rw [eval_binary cx hop, run_bind, he]
  simp only []
  rw [run_bind, hf]

theorem report_stops (finding : Finding) :
    Stops ((carryingOn target frame).report finding) ((stopping target frame).report finding) where
  keeps := by
    intro s hs
    rw [run_report]
    split
    · simp [Finding.orElse, Finding.isUndefined, hs]
    · rfl
  agrees := by
    intro s hs hn
    rw [run_report] at hn ⊢
    rw [run_report]
    split at hn
    · rename_i hc
      simp_all [Finding.orElse, Finding.isUndefined]
    · rename_i hc
      rw [if_neg hc, if_neg hc]
  fails := by
    intro s hs hn
    rw [run_report] at hn ⊢
    rw [run_report]
    split at hn
    · rename_i hc
      rw [if_pos hc, if_pos hc]
      simp [hs, Finding.orElse, Finding.isUndefined, stopping]
    · exact absurd hs hn

theorem silent_load (cx : EvalContext) (address : UInt64) (type : Ty) :
    (cx.load address type).Silent := by
  intro s
  unfold load
  split
  · rfl
  · split
    · rfl
    · rw [run_bind]
      change ((if s.speculative then _ else _ : Eval Value).run s).2.finding = s.finding
      split <;> rfl

/-- Stopping at the first finding changes nothing before it. -/
theorem eval_stops (e : Expr) :
    Stops ((carryingOn target frame).eval e) ((stopping target frame).eval e) :=
  (eval_related _ _ Stops.congruence report_stops
    (fun address type => (silent_load _ address type).stops) e).1

theorem evaluateIn_stopping_of_none (e : Expr)
    (hn : ((carryingOn target frame).evaluateIn {} e).2.finding = .none) :
    (stopping target frame).evaluateIn {} e = (carryingOn target frame).evaluateIn {} e := by
  have hr := (eval_stops e).agrees {} rfl hn
  unfold evaluateIn
  rw [hr]

theorem evaluate_stopping_of_finding (e : Expr)
    (hn : ((carryingOn target frame).evaluateIn {} e).2.finding ≠ .none) :
    (stopping target frame).evaluate e =
      .error (.undefinedBehavior ((carryingOn target frame).evaluateIn {} e).2.finding) := by
  have hr := (eval_stops e).fails {} rfl hn
  unfold evaluate evaluateIn
  rcases hy : ((stopping target frame).eval e).run {} with ⟨_ | v, after⟩ <;> rw [hy] at hr <;>
    cases hr
  rfl

theorem finding_of_evaluateIn {cx : EvalContext} {session : Session} {e : Expr} {r : Evaluation}
    (h : (cx.evaluateIn session e).1 = .ok r) :
    (cx.evaluateIn session e).2.finding = r.finding := by
  unfold evaluateIn at h ⊢
  rcases hr : (cx.eval e).run { session with finding := .none } with ⟨_ | v, after⟩ <;>
    rw [hr] at h <;> cases h
  rfl

/-- The evaluation that stops gives what the one that carries on gives if that has no finding, and
otherwise fails with its first finding, also where carrying on fails later. A finding stays,
whatever is evaluated after it. -/
theorem evaluate_stopping (target : Target) (frame : Frame) (e : Expr) :
    (stopping target frame).evaluate e =
        (match (carryingOn target frame).evaluateIn {} e with
        | (.ok r, _) =>
          if r.finding = .none then .ok r else .error (.undefinedBehavior r.finding)
        | (.error err, after) =>
          .error (if after.finding = .none then err else .undefinedBehavior after.finding))
      ∧ ∀ (later : Expr) (session : Session), session.finding ≠ .none →
          (((carryingOn target frame).eval later).run session).2.finding = session.finding := by
  refine ⟨?_, fun later session hs => (eval_stops later).keeps session hs⟩
  have hnone := @evaluateIn_stopping_of_none target frame e
  have hsome := @evaluate_stopping_of_finding target frame e
  unfold evaluate at hsome ⊢
  rcases hr : (carryingOn target frame).evaluateIn {} e with ⟨err | r, after⟩
  · rw [hr] at hnone hsome
    simp only [] at hnone hsome ⊢
    by_cases hn : after.finding = .none
    · rw [hnone hn, if_pos hn]
    · rw [hsome hn, if_neg hn]
  · have hf := finding_of_evaluateIn (congrArg Prod.fst hr)
    rw [hr] at hnone hsome hf
    simp only [] at hnone hsome hf ⊢
    rw [hf] at hnone hsome
    by_cases hn : r.finding = .none
    · rw [hnone hn, if_pos hn]
    · rw [hsome hn, if_neg hn]

/-- `1 / 0 + x`, where there is no `x` -/
example :
    (stopping (.ofArch .x86_64) Snapshot.empty.toFrame).evaluate
        (.binary .plus (.binary .div (.integer ⟨1, .decimal, .int, false⟩)
          (.integer ⟨0, .decimal, .int, false⟩)) (.var "x")) =
      .error (.undefinedBehavior .divisionByZero) := by
  rfl

end EvalContext

end Assay
