import Assay.Proofs.Expr.Chain
import Assay.Proofs.Generation.Viable

/-!
# The cap on depth

Where recursive kinds weigh nothing, a node is the same whatever its operands would be. So with a
cap the generator never goes below it, however much further the recursion might go
(`nest_eq_of_cap`). Each level adds at most two to the depth of an expression, an operator and
parentheses, which are needed or random but never both (`Expr.Within`); so the cap bounds the depth
of expressions, and the number of pointers and references in a type (`depth_le_of_cap`).
-/

namespace Assay

/-- The sampler gives kinds of positive weight only. -/
structure Sampler.Weighted {σ : Type} (sampler : Sampler σ) : Prop where
  exprKind : ∀ (weights : ExprKind → Binary64) (s : σ),
    (sampler.answer (.exprKind weights) s).1.all fun kind => Binary64.lt 0 (weights kind)
  typeKind : ∀ (weights : TypeKind → Binary64) (s : σ),
    (sampler.answer (.typeKind weights) s).1.all fun kind => Binary64.lt 0 (weights kind)

theorem Sampler.Honest.weighted {σ : Type} {sampler : Sampler σ} (honest : sampler.Honest) :
    sampler.Weighted where
  exprKind weights s := honest.permits (.exprKind weights) s trivial
  typeKind weights s := honest.permits (.typeKind weights) s trivial

/-- How many pointers and references a type consists of. -/
def SourceType.levels : SourceType → Nat
  | scalar .. | tagged .. => 0
  | pointer pointee _ => pointee.levels + 1
  | reference referee _ => referee.levels + 1

theorem WeightTable.atDepth_of_cap {κ : Type} [Kind κ] {table : WeightTable κ} {m depth : Nat}
    {kind : κ} (hd : m ≤ depth) (hk : Kind.isRecursive kind) :
    table.atDepth (some m) depth kind = 0 := by
  rw [atDepth, Option.any_some, decide_eq_true hd, hk]
  rfl

/-! ## Nests of nodes -/

section Nest

variable {α : Type} (node : Nat → α → α)

/-- Nodes in nodes, each one level deeper; `below` stands in the last one. -/
def nest (below : α) : (levels : Nat) → (depth : Nat) → α
  | 0, _ => below
  | levels + 1, depth => node depth (nest below levels (depth + 1))

variable {node}

/-- What lies below a node that does not depend on it makes no difference. -/
theorem nest_eq_of_cap {m : Nat} (hcap : ∀ x y, node m x = node m y) (below below' : α) {n : Nat} :
    ∀ {depth levels levels' : Nat}, depth + n = m → n < levels → n < levels' →
      nest node below levels depth = nest node below' levels' depth := by
  induction n with
  | zero =>
    intro depth levels levels' hm hl hl'
    obtain ⟨l, rfl⟩ := Nat.exists_eq_succ_of_ne_zero (Nat.ne_of_gt hl)
    obtain ⟨l', rfl⟩ := Nat.exists_eq_succ_of_ne_zero (Nat.ne_of_gt hl')
    obtain rfl : depth = m := hm
    exact hcap _ _
  | succ n ih =>
    intro depth levels levels' hm hl hl'
    obtain ⟨l, rfl⟩ := Nat.exists_eq_succ_of_ne_zero (Nat.ne_zero_of_lt hl)
    obtain ⟨l', rfl⟩ := Nat.exists_eq_succ_of_ne_zero (Nat.ne_zero_of_lt hl')
    have hnext : nest node below l (depth + 1) = nest node below' l' (depth + 1) :=
      ih (by omega) (Nat.lt_of_succ_lt_succ hl) (Nat.lt_of_succ_lt_succ hl')
    rw [nest, nest, hnext]

theorem nest_of_node {P : Nat → α → Prop} {below : α} (hbelow : P 0 below)
    (hnode : ∀ n depth x, P n x → P (n + 1) (node depth x)) (levels depth : Nat) :
    P levels (nest node below levels depth) := by
  induction levels generalizing depth with
  | zero => exact hbelow
  | succ levels ih => exact hnode levels depth _ (ih (depth + 1))

end Nest

namespace Generator

variable {σ : Type} (g : Generator σ)

/-- An expression at a depth, whose generated operands come from `child`. -/
def exprNode (depth : Nat) (child : Gen σ Expr) : Gen σ Expr := do
  let kind ← g.askFor (.exprKind (g.config.exprWeightsAt depth)) (.noExprKind depth)
  let e ← g.production child kind
  g.maybeParen e

/-- A type at a depth, which may be a reference at the root only. -/
def typeNode (depth : Nat) (child : Gen σ SourceType) : Gen σ SourceType := do
  let kind ← g.askFor (.typeKind (g.typeWeights (depth == 0) depth)) (.noTypeKind depth)
  g.typeProduction child kind

theorem exprAt_eq_nest (fuel depth : Nat) :
    g.exprAt fuel depth = nest g.exprNode (throw .tooDeep) fuel depth := by
  induction fuel generalizing depth with
  | zero => rfl
  | succ fuel ih => rw [exprAt_succ, ih, nest, exprNode]

theorem typeAt_eq_nest (fuel depth : Nat) :
    g.typeAt fuel depth (depth == 0) = nest g.typeNode (throw .tooDeep) fuel depth := by
  induction fuel generalizing depth with
  | zero => rfl
  | succ fuel ih =>
    -- below the root the flag of `ih` is `false`
    have hbelow : g.typeAt fuel (depth + 1) false = nest g.typeNode _ fuel (depth + 1) :=
      ih (depth + 1)
    rw [typeAt_succ, hbelow, nest, typeNode]

variable {g}

theorem production_congr {kind : ExprKind} (hk : Kind.isRecursive kind = false)
    (child child' : Gen σ Expr) : g.production child kind = g.production child' kind := by
  cases kind with
  | integer | double | boolean | var | addressOf | member | memberOfPointer => rfl
  | unary | binary | index | conditional => cases hk

theorem typeProduction_congr {kind : TypeKind} (hk : Kind.isRecursive kind = false)
    (child child' : Gen σ SourceType) :
    g.typeProduction child kind = g.typeProduction child' kind := by
  cases kind with
  | scalar | tagged => rfl
  | pointer | reference => cases hk

/-! ## At the cap -/

theorem askFor_yields_terminal {κ : Type} [Kind κ] {weights : κ → Binary64}
    {request : Request (Option κ)} {e : GenError}
    (hpos : ∀ s, (g.sampler.answer request s).1.all fun kind => Binary64.lt 0 (weights kind))
    (hzero : ∀ kind, Kind.isRecursive kind → weights kind = 0) :
    Yields (g.askFor request e) fun kind => Kind.isRecursive kind = false := by
  refine (askFor_yields_all hpos e).imp fun kind hkind => ?_
  by_contra hk
  rw [hzero kind (Bool.not_eq_false _ ▸ hk), Binary64.not_zero_lt_self] at hkind
  cases hkind

theorem lt_fuel {m : Nat} (cap : g.config.maxDepth = some m) (limit : 0 < g.recursionLimit) :
    m < g.fuel := by
  rw [fuel, cap, Option.getD_some]
  omega

section Capped

variable {m : Nat} (weighted : g.sampler.Weighted) (cap : g.config.maxDepth = some m)

include weighted cap

theorem exprNode_cap (child child' : Gen σ Expr) : g.exprNode m child = g.exprNode m child' := by
  have hzero (kind : ExprKind) (hk : Kind.isRecursive kind) :
      g.config.exprWeightsAt m kind = 0 := by
    rw [Config.exprWeightsAt, cap, WeightTable.atDepth_of_cap (Nat.le_refl m) hk]
  refine (askFor_yields_terminal (weighted.exprKind _) hzero).bind_congr fun kind hk => ?_
  rw [production_congr hk child child']

theorem typeNode_cap (child child' : Gen σ SourceType) :
    g.typeNode m child = g.typeNode m child' := by
  have hzero (kind : TypeKind) (hk : Kind.isRecursive kind) :
      g.typeWeights (m == 0) m kind = 0 := by
    rw [typeWeights, Config.typeWeightsAt, cap, WeightTable.atDepth_of_cap (Nat.le_refl m) hk]
    exact ite_self 0
  refine (askFor_yields_terminal (weighted.typeKind _) hzero).bind_congr fun kind hk => ?_
  exact typeProduction_congr hk child child'

/-- Beyond the cap any other computation may stand. -/
theorem expr_eq_nest (limit : 0 < g.recursionLimit) (below : Gen σ Expr) :
    g.expr = nest g.exprNode below (m + 1) 0 := by
  rw [expr, exprAt_eq_nest]
  exact nest_eq_of_cap (exprNode_cap weighted cap) _ below (Nat.zero_add m)
    (lt_fuel cap limit) (Nat.lt_succ_self m)

theorem type_eq_nest (limit : 0 < g.recursionLimit) (below : Gen σ SourceType) :
    g.type = nest g.typeNode below (m + 1) 0 := by
  have hroot : g.type = nest g.typeNode (throw .tooDeep) g.fuel 0 := g.typeAt_eq_nest g.fuel 0
  rw [hroot]
  exact nest_eq_of_cap (typeNode_cap weighted cap) _ below (Nat.zero_add m)
    (lt_fuel cap limit) (Nat.lt_succ_self m)

end Capped

theorem exprNode_failsWith {depth : Nat} {child : Gen σ Expr}
    (hchild : FailsWith child (· ≠ .tooDeep)) :
    FailsWith (g.exprNode depth child) (· ≠ .tooDeep) := by
  refine (askFor_failsWith nofun).bind fun kind => ?_
  refine (production_failsWith (fun _ => nofun) (fun _ => nofun) hchild kind).bind fun e => ?_
  exact (ask_failsWith _).bind fun paren => failsWith_pure _

theorem typeNode_failsWith {depth : Nat} {child : Gen σ SourceType}
    (hchild : FailsWith child (· ≠ .tooDeep)) :
    FailsWith (g.typeNode depth child) (· ≠ .tooDeep) :=
  (askFor_failsWith nofun).bind fun kind =>
    typeProduction_failsWith (fun _ => nofun) hchild kind

end Generator

/-! ## Depth -/

namespace Expr

/-- Primary expressions, parentheses among them, may be one deeper than others. -/
def Within (n : Nat) (e : Expr) : Prop := e.depth ≤ n + 1 ∧ (0 < e.precedence → e.depth ≤ n)

variable {n : Nat} {e f : Expr}

theorem Within.parenIf {needed : Bool} (he : e.Within n) (h : needed → 0 < e.precedence) :
    (e.parenIf needed).depth ≤ n + 1 := by
  cases needed
  · exact he.1
  · have hbare : e.depth ≤ n := he.2 (h rfl)
    rw [Expr.parenIf, if_pos rfl, depth]
    omega

theorem within_of_depth_le (h : e.depth ≤ n) : e.Within n := ⟨Nat.le_succ_of_le h, fun _ => h⟩

theorem within_paren (h : e.depth ≤ n) : (paren e).Within n := by
  refine ⟨?_, fun hp => absurd hp (Nat.not_lt_zero _)⟩
  rw [depth]
  omega

end Expr

namespace Generator

open Assay.Expr

variable {σ : Type} {g : Generator σ} {n : Nat} {child : Gen σ Expr}

theorem doubleConstant_yields_depth_le : Yields g.doubleConstant fun e => e.depth ≤ n + 2 := by
  refine (yields_true _).bind fun x _ => yields_pure ?_
  split <;> simp only [depth] <;> omega

/-- Operands that are not in parentheses get at most those that they need. -/
theorem production_yields_depth_le (hchild : Yields child (Within n)) (kind : ExprKind) :
    Yields (g.production child kind) fun e => e.depth ≤ n + 2 := by
  have hleaf {e : Expr} (h : e.depth = 1 ∨ e.depth = 2) : e.depth ≤ n + 2 := by omega
  cases kind with
  | integer | boolean => exact (yields_true _).bind fun a _ => yields_pure (hleaf (.inl rfl))
  | double => exact doubleConstant_yields_depth_le
  | var => exact yields_pure (hleaf (.inl rfl))
  | addressOf => exact yields_pure (hleaf (.inr rfl))
  | member | memberOfPointer =>
    exact (yields_true _).bind fun field _ => yields_pure (hleaf (.inr rfl))
  | unary =>
    refine (yields_true _).bind fun op _ => hchild.bind fun e he => yields_pure ?_
    have hoperand : (e.parenIf (unaryPrecedence < e.precedence)).depth ≤ n + 1 :=
      he.parenIf fun h => (Nat.zero_le _).trans_lt (of_decide_eq_true h)
    rw [unaryNode, depth]
    omega
  | binary =>
    refine (yields_true _).bind fun op _ => hchild.bind fun e he => hchild.bind fun f hf =>
      yields_pure ?_
    have hlhs : (e.parenIf (op.precedence < e.precedence)).depth ≤ n + 1 :=
      he.parenIf fun h => (Nat.zero_le _).trans_lt (of_decide_eq_true h)
    have hrhs : (f.parenIf (op.precedence ≤ f.precedence)).depth ≤ n + 1 :=
      hf.parenIf fun h => ((Nat.zero_le _).trans_lt (precedence_bounds op).1).trans_le
        (of_decide_eq_true h)
    rw [binaryNode, depth]
    omega
  | index =>
    refine hchild.bind fun e he => yields_pure ?_
    have hindex := he.1
    simp only [depth]
    omega
  | conditional =>
    refine hchild.bind fun e he => hchild.bind fun f hf => hchild.bind fun h hh => yields_pure ?_
    have hcond : (e.parenIf (conditionalPrecedence ≤ e.precedence)).depth ≤ n + 1 :=
      he.parenIf fun h => (Nat.zero_lt_succ _).trans_le (of_decide_eq_true h)
    have hlhs := hf.1
    have hrhs := hh.1
    rw [conditionalNode, depth]
    omega

theorem exprNode_yields_within {depth : Nat} (hchild : Yields child (Within n)) :
    Yields (g.exprNode depth child) (Within (n + 2)) := by
  refine (yields_true _).bind fun kind _ => ?_
  refine (production_yields_depth_le hchild kind).bind fun e he => ?_
  refine (yields_true _).bind fun paren _ => yields_pure ?_
  cases paren
  · exact within_of_depth_le he
  · exact within_paren he

theorem typeNode_yields_levels_lt {depth : Nat} {child : Gen σ SourceType}
    (hchild : Yields child fun type => type.levels < n) :
    Yields (g.typeNode depth child) fun type => type.levels < n + 1 := by
  refine (yields_true _).bind fun kind _ => ?_
  cases kind with
  | scalar | tagged =>
    exact (yields_true _).bind fun _ _ => (yields_true _).bind fun cv _ =>
      yields_pure (Nat.succ_pos n)
  | pointer =>
    exact hchild.bind fun pointee hp => (yields_true _).bind fun cv _ =>
      yields_pure (Nat.succ_lt_succ hp)
  | reference => exact hchild.bind fun referee hr => yields_pure (Nat.succ_lt_succ hr)

section Capped

variable {m : Nat} (weighted : g.sampler.Weighted) (cap : g.config.maxDepth = some m)
  (limit : 0 < g.recursionLimit)

include weighted cap limit

theorem expr_failsWith_cap : FailsWith g.expr (· ≠ .tooDeep) := by
  -- any failure but the one at issue may stand below the cap
  let P (_ : Nat) (x : Gen σ Expr) : Prop := FailsWith x (· ≠ .tooDeep)
  have hbelow : P 0 (throw (.noExprKind m)) := failsWith_throw nofun
  rw [expr_eq_nest weighted cap limit (throw (.noExprKind m))]
  exact nest_of_node hbelow (fun _ _ _ => exprNode_failsWith) (m + 1) 0

theorem type_failsWith_cap : FailsWith g.type (· ≠ .tooDeep) := by
  let P (_ : Nat) (x : Gen σ SourceType) : Prop := FailsWith x (· ≠ .tooDeep)
  have hbelow : P 0 (throw (.noTypeKind m)) := failsWith_throw nofun
  rw [type_eq_nest weighted cap limit (throw (.noTypeKind m))]
  exact nest_of_node hbelow (fun _ _ _ => typeNode_failsWith) (m + 1) 0

theorem expr_yields_depth_le : Yields g.expr fun e => e.depth ≤ 2 * m + 3 := by
  let P (n : Nat) (x : Gen σ Expr) : Prop := Yields x (Within (2 * n))
  have hbelow : P 0 (throw .tooDeep) := yields_throw _
  rw [expr_eq_nest weighted cap limit (throw .tooDeep)]
  exact Yields.imp (nest_of_node hbelow (fun _ _ _ => exprNode_yields_within) (m + 1) 0)
    fun e he => he.1

theorem type_yields_levels_le : Yields g.type fun type => type.levels ≤ m := by
  let P (n : Nat) (x : Gen σ SourceType) : Prop := Yields x fun type => type.levels < n
  have hbelow : P 0 (throw .tooDeep) := yields_throw _
  rw [type_eq_nest weighted cap limit (throw .tooDeep)]
  exact Yields.imp (nest_of_node hbelow (fun _ _ _ => typeNode_yields_levels_lt) (m + 1) 0)
    fun type => Nat.le_of_lt_succ

/-- With a cap, what would stand below it never counts: the recursion does not go there, nor does it
end for its limit. The cap bounds what the generator gives. -/
theorem depth_le_of_cap :
    (∀ below, g.expr = nest g.exprNode below (m + 1) 0)
      ∧ (∀ s, (g.expr.run s).1 ≠ .error .tooDeep)
      ∧ (∀ s e, (g.expr.run s).1 = .ok e → e.depth ≤ 2 * m + 3)
      ∧ (∀ below, g.type = nest g.typeNode below (m + 1) 0)
      ∧ (∀ s, (g.type.run s).1 ≠ .error .tooDeep)
      ∧ ∀ s type, (g.type.run s).1 = .ok type → type.levels ≤ m := by
  refine ⟨expr_eq_nest weighted cap limit, fun s hs => ?_, expr_yields_depth_le weighted cap limit,
    type_eq_nest weighted cap limit, fun s hs => ?_, type_yields_levels_le weighted cap limit⟩
  · exact expr_failsWith_cap weighted cap limit s _ hs rfl
  · exact type_failsWith_cap weighted cap limit s _ hs rfl

end Capped

/-- The generator of unary operators and doubles, with a cap. -/
def signs (m : Nat) : Generator Script where
  config := {
    doubleMin := -10
    exprWeights := (WeightTable.zeroed.set .double ⟨1, 0⟩).set .unary ⟨1, 0⟩
    maxDepth := some m }
  sampler := Script.sampler

/-- `(-(-2.5))` is as deep as the cap allows, and so is `int*`. -/
theorem depth_le_of_cap_signs :
    let s : Script := ⟨[.exprKind .unary, .unaryOp .neg, .exprKind .double, .double (-2.5),
      .flag true, .flag true], 0⟩
    let e : Expr := .paren (.unary .neg (.paren (.unary .neg (.floating ⟨2.5, false⟩))))
    let type : SourceType := .pointer (.scalar .bool .none) .none
    ((signs 1).expr.run s).1 = .ok e ∧ e.depth = 2 * 1 + 3
      ∧ ((signs 1).type.run ⟨[.typeKind .pointer], 0⟩).1 = .ok type ∧ type.levels = 1
      ∧ (∀ s, ((signs 1).expr.run s).1 ≠ .error .tooDeep)
      ∧ ∀ s e, ((signs 1).expr.run s).1 = .ok e → e.depth ≤ 2 * 1 + 3 := by
  intro s e type
  obtain ⟨-, hend, hdepth, -⟩ := depth_le_of_cap (g := signs 1) (m := 1)
    Script.sampler_honest.weighted rfl (by decide)
  exact ⟨by decide +kernel, rfl, by decide +kernel, rfl, hend, hdepth⟩

end Generator

end Assay
