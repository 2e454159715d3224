import Assay.Generation.Generator
import Assay.Proofs.Expr.Chain

/-!
# Sizes of generated nodes

An operand that takes the place of another one may need parentheses that the other did without. So
besides how much larger an expression is than another one, it counts how they bind
(`Expr.Smaller`). Nodes keep that (`Generator.unaryNode_slight`, `Generator.binaryNode_smaller`,
`Generator.conditionalNode_smaller`).
-/

namespace Assay

namespace Expr

/-- At most `c` times as large as another expression, and without need of parentheses as an operand
unless the other one needs them too or there is room for them. -/
structure Smaller (c : Nat) (e' e : Expr) : Prop where
  nodeCount_le : e'.nodeCount ≤ c * e.nodeCount
  precedence_le : unaryPrecedence < e'.precedence →
    e'.precedence ≤ e.precedence ∨ e'.nodeCount < c * e.nodeCount

/-- At most `c` times as large, and never in need of parentheses as an operand. -/
structure Slight (c : Nat) (e' e : Expr) : Prop where
  nodeCount_le : e'.nodeCount ≤ c * e.nodeCount
  precedence_le : e'.precedence ≤ unaryPrecedence

variable {c : Nat} {e e' : Expr}

theorem nodeCount_pos (e : Expr) : 0 < e.nodeCount := by
  cases e <;> simp only [nodeCount] <;> omega

theorem nodeCount_parenIf (needed : Bool) (e : Expr) :
    (e.parenIf needed).nodeCount = e.nodeCount + needed.toNat := by
  cases needed
  · rfl
  · exact Nat.add_comm 1 _

theorem Slight.smaller (he : e'.Slight c e) : e'.Smaller c e :=
  ⟨he.nodeCount_le, fun hp => absurd hp (Nat.not_lt.mpr he.precedence_le)⟩

/-- Every expression has a node, so it is no smaller than a leaf. -/
theorem slight_of_le (hle : e'.nodeCount ≤ c) (hp : e'.precedence ≤ unaryPrecedence) (e : Expr) :
    e'.Slight c e :=
  ⟨hle.trans (Nat.le_mul_of_pos_right c e.nodeCount_pos), hp⟩

theorem Smaller.refl (hc : 0 < c) (e : Expr) : e.Smaller c e :=
  ⟨Nat.le_mul_of_pos_left _ hc, fun _ => .inl (Nat.le_refl _)⟩

/-- Parentheses around the larger expression make room for some. -/
theorem Smaller.of_parenIf (hc : 0 < c) (he : e'.Smaller c e) (needed : Bool) :
    e'.Smaller c (e.parenIf needed) := by
  cases needed with
  | false => exact he
  | true =>
    have hle := he.nodeCount_le
    have hlt : e'.nodeCount < c * (e.parenIf true).nodeCount := by
      rw [nodeCount_parenIf, Nat.mul_add, Bool.toNat_true, Nat.mul_one]
      omega
    exact ⟨hlt.le, fun _ => .inr hlt⟩

theorem Smaller.parenIf (hc : 0 < c) (he : e'.Smaller c e) (needed needed' : Bool)
    (hneeded : needed' →
      unaryPrecedence < e'.precedence ∧ (e'.precedence ≤ e.precedence → needed)) :
    (e'.parenIf needed').nodeCount ≤ c * (e.parenIf needed).nodeCount := by
  have hle := he.nodeCount_le
  rw [nodeCount_parenIf, nodeCount_parenIf, Nat.mul_add]
  cases needed' with
  | false => exact hle.trans (Nat.le_add_right _ _)
  | true =>
    obtain ⟨hunary, hboth⟩ := hneeded rfl
    rcases he.precedence_le hunary with hp | hlt
    · rw [hboth hp, Bool.toNat_true, Nat.mul_one]
      omega
    · rw [Bool.toNat_true]
      omega

end Expr

namespace Generator

open Assay.Expr

variable {c : Nat} {e e' f f' h h' : Expr}

theorem unaryNode_slight (hc : 0 < c) (op op' : UnaryOp) (he : e'.Smaller c e) :
    (unaryNode op' e').Slight c (unaryNode op e) := by
  have hle := he.parenIf hc (unaryPrecedence < e.precedence)
    (unaryPrecedence < e'.precedence) fun hneeded =>
      ⟨of_decide_eq_true hneeded, fun hp =>
        decide_eq_true ((of_decide_eq_true hneeded).trans_le hp)⟩
  refine ⟨?_, Nat.le_refl _⟩
  simp only [unaryNode, nodeCount, Nat.mul_add]
  omega

/-- Of one operator, or of operands that need no parentheses. -/
theorem binaryNode_smaller (hc : 0 < c) {op op' : BinaryOp} (hop : op'.precedence ≤ op.precedence)
    (he : e'.Smaller c e) (hf : f'.Smaller c f)
    (hsame : op' = op ∨ e'.precedence ≤ unaryPrecedence ∧ f'.precedence ≤ unaryPrecedence) :
    (binaryNode op' e' f').Smaller c (binaryNode op e f) := by
  have hpos := (precedence_bounds op').1
  have hlhs := he.parenIf hc (op.precedence < e.precedence)
    (op'.precedence < e'.precedence) fun hneeded => by
      have hlt := of_decide_eq_true hneeded
      rcases hsame with rfl | ⟨hslight, -⟩
      · exact ⟨by omega, fun hp => decide_eq_true (hlt.trans_le hp)⟩
      · omega
  have hrhs := hf.parenIf hc (op.precedence ≤ f.precedence)
    (op'.precedence ≤ f'.precedence) fun hneeded => by
      have hle := of_decide_eq_true hneeded
      rcases hsame with rfl | ⟨-, hslight⟩
      · exact ⟨by omega, fun hp => decide_eq_true (hle.trans hp)⟩
      · omega
  refine ⟨?_, fun _ => .inl hop⟩
  simp only [binaryNode, nodeCount, Nat.mul_add]
  omega

theorem conditionalNode_smaller (hc : 0 < c) (he : e'.Smaller c e) (hf : f'.Smaller c f)
    (hh : h'.Smaller c h) : (conditionalNode e' f' h').Smaller c (conditionalNode e f h) := by
  have hcond := he.parenIf hc (conditionalPrecedence ≤ e.precedence)
    (conditionalPrecedence ≤ e'.precedence) fun hneeded => by
      have hle := of_decide_eq_true hneeded
      exact ⟨(by decide : unaryPrecedence < conditionalPrecedence).trans_le hle,
        fun hp => decide_eq_true (hle.trans hp)⟩
  have hlhs := hf.nodeCount_le
  have hrhs := hh.nodeCount_le
  refine ⟨?_, fun _ => .inl (Nat.le_refl _)⟩
  simp only [conditionalNode, nodeCount, Nat.mul_add]
  omega

end Generator

end Assay
