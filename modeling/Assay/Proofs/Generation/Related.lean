import Assay.Proofs.Generation.Contract
import Assay.Proofs.Generation.Production

/-!
# Generators that differ in their sampler

Generators of one configuration follow the same productions, wherever they get their answers from.
So a relation between what they do holds of whole steps if it holds of the requests and passes
through the ways computations are put together (`Generator.Relates.step`). The relations here are
between three generators.
-/

namespace Assay

/-- The failures for want of an answer. A request without an answer ends in one of them. -/
def GenError.isUnanswered : GenError → Bool
  | noExprKind _ | noTypeKind _ | noOperator _ => true
  | noNames _ | tooDeep => false

namespace Generator

variable {σ τ υ α : Type}

/-- The generator with another source of decisions. -/
def withSampler (g : Generator σ) (sampler : Sampler τ) : Generator τ :=
  ⟨g.config, sampler, g.recursionLimit⟩

/-- A relation between computations of a generator and of it with two other samplers, which holds of
all that a valid configuration asks for and of what is put together from that. -/
structure Relates (g : Generator σ) (t : Sampler τ) (u : Sampler υ)
    (R : ∀ {α : Type}, Gen σ α → Gen τ α → Gen υ α → Prop) : Prop where
  pure : ∀ {α : Type} (a : α), R (Pure.pure a) (Pure.pure a) (Pure.pure a)
  throw : ∀ {α : Type} {e : GenError}, e.isUnanswered = false →
    R (MonadExcept.throw e : Gen σ α) (MonadExcept.throw e) (MonadExcept.throw e)
  bind : ∀ {α β : Type} {x : Gen σ α} {y : Gen τ α} {z : Gen υ α} {f : α → Gen σ β}
    {f' : α → Gen τ β} {f'' : α → Gen υ β}, R x y z → (∀ a, R (f a) (f' a) (f'' a)) →
      R (x >>= f) (y >>= f') (z >>= f'')
  /-- A request that is logged whatever its answer is. -/
  ask : ∀ {α : Type} (request : Request α), request.Proper → (∀ a, (request.log? a).isSome) →
    R (g.ask request) ((g.withSampler t).ask request) ((g.withSampler u).ask request)
  /-- A request that may have no answer, and is not logged then. -/
  askFor : ∀ {α : Type} (request : Request (Option α)), request.Proper →
    (∀ a, (request.log? a).isSome = a.isSome) → ∀ {e : GenError}, e.isUnanswered →
      R (g.askFor request e) ((g.withSampler t).askFor request e)
        ((g.withSampler u).askFor request e)

namespace Relates

variable {g : Generator σ} {t : Sampler τ} {u : Sampler υ}
  {R : ∀ {α : Type}, Gen σ α → Gen τ α → Gen υ α → Prop} (hR : g.Relates t u R)

include hR

theorem qualifiers (p q : Binary64) (form : Qualifiers → SourceType) :
    R (g.ask (.qualifiers p q) >>= fun cv => Pure.pure (form cv))
      ((g.withSampler t).ask (.qualifiers p q) >>= fun cv => Pure.pure (form cv))
      ((g.withSampler u).ask (.qualifiers p q) >>= fun cv => Pure.pure (form cv)) :=
  hR.bind (hR.ask (.qualifiers p q) trivial fun _ => rfl) fun _ => hR.pure _

theorem pick? (items : List α) :
    R (g.pick? items) ((g.withSampler t).pick? items) ((g.withSampler u).pick? items) := by
  unfold Generator.pick?
  split
  · exact hR.pure none
  · exact hR.bind (hR.ask (.integer 0 _) UInt64.zero_le fun _ => rfl) fun i => hR.pure _

theorem pickName (names : List String) (what : String) :
    R (g.pickName names what) ((g.withSampler t).pickName names what)
      ((g.withSampler u).pickName names what) := by
  refine hR.bind (hR.pick? names) fun picked => ?_
  cases picked with
  | none => exact hR.throw rfl
  | some name => exact hR.pure name

theorem typeProduction {x : Gen σ SourceType} {y : Gen τ SourceType} {z : Gen υ SourceType}
    (hx : R x y z) (kind : TypeKind) :
    R (g.typeProduction x kind) ((g.withSampler t).typeProduction y kind)
      ((g.withSampler u).typeProduction z kind) := by
  cases kind with
  | scalar => exact hR.bind (hR.pick? _) fun scalar => hR.qualifiers _ _ _
  | tagged => exact hR.bind (hR.pickName _ _) fun name => hR.qualifiers _ _ _
  | pointer => exact hR.bind hx fun pointee => hR.qualifiers _ _ _
  | reference => exact hR.bind hx fun referee => hR.pure _

theorem typeAt (fuel depth : Nat) (allowReference : Bool) :
    R (g.typeAt fuel depth allowReference) ((g.withSampler t).typeAt fuel depth allowReference)
      ((g.withSampler u).typeAt fuel depth allowReference) := by
  induction fuel generalizing depth allowReference with
  | zero => exact hR.throw rfl
  | succ fuel ih =>
    rw [typeAt_succ, typeAt_succ, typeAt_succ]
    exact hR.bind (hR.askFor (.typeKind (g.typeWeights allowReference depth)) trivial
      (fun _ => Option.isSome_map) rfl) fun kind => hR.typeProduction (ih (depth + 1) false) kind

variable (valid : g.config.problem? = none)

include valid

theorem production {x : Gen σ Expr} {y : Gen τ Expr} {z : Gen υ Expr} (hx : R x y z)
    (kind : ExprKind) :
    R (g.production x kind) ((g.withSampler t).production y kind)
      ((g.withSampler u).production z kind) := by
  cases kind with
  | integer =>
    exact hR.bind (hR.ask _ (Config.integer_proper valid) fun _ => rfl) fun n => hR.pure _
  | double =>
    exact hR.bind (hR.ask _ (Config.double_proper valid) fun _ => rfl) fun x => hR.pure _
  | boolean => exact hR.bind (hR.ask (.flag _) trivial fun _ => rfl) fun b => hR.pure _
  | var | addressOf => exact hR.pure _
  | unary =>
    exact hR.bind (hR.askFor (.unaryOp g.config.unaryOps) trivial
      (fun _ => Option.isSome_map) rfl) fun op => hR.bind hx fun operand => hR.pure _
  | binary =>
    exact hR.bind (hR.askFor (.binaryOp g.config.binaryOps) trivial
      (fun _ => Option.isSome_map) rfl) fun op =>
        hR.bind hx fun lhs => hR.bind hx fun rhs => hR.pure _
  | member | memberOfPointer => exact hR.bind (hR.pickName _ _) fun field => hR.pure _
  | index => exact hR.bind hx fun index => hR.pure _
  | conditional =>
    exact hR.bind hx fun cond => hR.bind hx fun lhs => hR.bind hx fun rhs => hR.pure _

theorem exprAt (fuel depth : Nat) :
    R (g.exprAt fuel depth) ((g.withSampler t).exprAt fuel depth)
      ((g.withSampler u).exprAt fuel depth) := by
  induction fuel generalizing depth with
  | zero => exact hR.throw rfl
  | succ fuel ih =>
    rw [exprAt_succ, exprAt_succ, exprAt_succ]
    refine hR.bind (hR.askFor (.exprKind (g.config.exprWeightsAt depth)) trivial
      (fun _ => Option.isSome_map) rfl) fun kind => ?_
    refine hR.bind (hR.production valid (ih (depth + 1)) kind) fun e => ?_
    exact hR.bind (hR.ask (.flag _) trivial fun _ => rfl) fun paren => hR.pure _

theorem step (step : Step) :
    R (g.step step) ((g.withSampler t).step step) ((g.withSampler u).step step) := by
  have hexpr : R g.expr (g.withSampler t).expr (g.withSampler u).expr := hR.exprAt valid _ _
  have htype : R g.type (g.withSampler t).type (g.withSampler u).type := hR.typeAt _ _ _
  cases step <;> simp only [Generator.step, declaration, map_eq_pure_bind]
  · exact hR.bind hexpr fun e => hR.pure _
  · exact hR.bind htype fun type => hR.pure _
  · exact hR.bind (hR.bind htype fun type => hR.pure _) fun decl => hR.pure _

end Relates

end Generator

end Assay
