import Assay.Proofs.Evaluation.Residues
import Assay.Proofs.Ty.Widening

/-!
# Comparisons of integers

In the common type of two operands an integer stays what it is, unless it is negative and the type
is unsigned: then it is moved up by the number of values of the type (`toInt?_convert_common`). A
comparison is that of the integers so obtained (`comparison_exact`).
-/

namespace Assay

/-- The relation on integers that a comparison operator stands for. -/
def BinaryOp.relation? (op : BinaryOp) : Option (ℤ → ℤ → Bool) :=
  match op with
  | .lt => some fun a b => a < b
  | .le => some fun a b => a ≤ b
  | .gt => some fun a b => b < a
  | .ge => some fun a b => b ≤ a
  | .eq => some fun a b => a = b
  | .ne => some fun a b => a ≠ b
  | _ => none

namespace Target

variable {target : Target} {s t : ScalarType} {l r : Value} {a b : ℤ}

theorem holds_compare {op : BinaryOp} {relation : ℤ → ℤ → Bool} (h : op.relation? = some relation)
    (a b : ℤ) : holds op (some (compare a b)) = some (relation a b) := by
  rcases hcmp : compare a b with _ | _ | _
  · have hlt : a < b := Int.compare_eq_lt.mp hcmp
    cases op <;> cases h <;> simp [holds, hlt, hlt.le, hlt.ne, hlt.not_ge, hlt.not_gt]
  · have heq : a = b := Int.compare_eq_eq.mp hcmp
    subst heq
    cases op <;> cases h <;> simp [holds]
  · have hgt : b < a := Int.compare_eq_gt.mp hcmp
    cases op <;> cases h <;> simp [holds, hgt, hgt.le, hgt.ne', hgt.not_ge, hgt.not_gt]

/-- Integers are compared in the common type of the operands. -/
theorem binary_comparison {op : BinaryOp} {relation : ℤ → ℤ → Bool}
    (hop : op.relation? = some relation) (hl : l.type.carrier? = some s)
    (hr : r.type.carrier? = some t)
    (ha : (l.convert target (.scalar (target.commonCarrier s t))).toInt? = some a)
    (hb : (r.convert target (.scalar (target.commonCarrier s t))).toInt? = some b) :
    target.binary op l r = .ok (.clean (.boolean (relation a b))) := by
  have hf := Ty.isFloating_of_isPromoted (target.commonCarrier_isPromoted
    (Ty.isIntegral_of_carrier hl) (Ty.isIntegral_of_carrier hr))
  obtain ⟨-, -, -, hp⟩ := Ty.facts_of_carrier hl
  have hcomparison : op.isComparison := by cases op <;> first | rfl | cases hop
  have horder : target.order? l r = some (some (compare a b)) := by
    simp only [order?, hp, commonType?_of_carrier target hl hr, hf, Value.toInt_eq_of_toInt? ha,
      Value.toInt_eq_of_toInt? hb, Bool.false_and, Bool.false_eq_true, ↓reduceIte,
      Option.bind_eq_bind, Option.bind_some]
  rw [binary_of_isComparison hcomparison, comparison, horder, Option.bind_some, holds_compare hop]

/-- What the operands hold in their common type. -/
theorem toInt?_convert_common (arch : Arch) (hl : l.WellFormed (ofArch arch))
    (hr : r.WellFormed (ofArch arch)) (hs : l.type.carrier? = some s)
    (ht : r.type.carrier? = some t) (ha : l.toInt? = some a) (hb : r.toInt? = some b) :
    let common := (ofArch arch).commonCarrier s t
    (l.convert (ofArch arch) (.scalar common)).toInt? = some ((ofArch arch).shifted common a)
      ∧ (r.convert (ofArch arch) (.scalar common)).toInt? =
          some ((ofArch arch).shifted common b) := by
  intro common
  have hw := fitsWord_ofArch arch
  have hsi := Ty.isIntegral_of_carrier hs
  have hti := Ty.isIntegral_of_carrier ht
  have hc : common.IsPromoted := (ofArch arch).commonCarrier_isPromoted hsi hti
  obtain ⟨hain, hbin⟩ := contains_shifted arch hsi hti (hl.contains_of_toInt? hs ha)
    (hr.contains_of_toInt? ht hb)
  exact ⟨Value.toInt?_convert_eq hw hc ha hain (dvd_shifted_sub _ _ _),
    Value.toInt?_convert_eq hw hc hb hbin (dvd_shifted_sub _ _ _)⟩

end Target

namespace EvalContext

variable {cx : EvalContext}

/-- A conversion to the common type of two operands keeps an integer, but for a negative one that an
unsigned type has moved up by the number of its values. A comparison is that of the integers
themselves where no operand is moved, and of the moved ones otherwise. -/
theorem comparison_exact {arch : Arch} (target : cx.target = .ofArch arch) {e f : Expr}
    {s s₁ s₂ : Session} {l r : Value} (he : (cx.eval e).run s = (.ok l, s₁))
    (hf : (cx.eval f).run s₁ = (.ok r, s₂)) (hl : l.WellFormed cx.target)
    (hr : r.WellFormed cx.target) (hlt : l.type.carrier?.isSome) (hrt : r.type.carrier?.isSome) :
    ∃ (common : ScalarType) (a b a' b' : ℤ),
      cx.target.commonType? l.type r.type = some (.scalar common)
        ∧ l.toInt? = some a ∧ (l.convert cx.target (.scalar common)).toInt? = some a'
        ∧ r.toInt? = some b ∧ (r.convert cx.target (.scalar common)).toInt? = some b'
        ∧ (cx.target.scalarSigned common ∨ 0 ≤ a → a' = a)
        ∧ (¬ cx.target.scalarSigned common → a < 0 → a' = a + 2 ^ cx.target.scalarWidth common)
        ∧ (cx.target.scalarSigned common ∨ 0 ≤ b → b' = b)
        ∧ (¬ cx.target.scalarSigned common → b < 0 → b' = b + 2 ^ cx.target.scalarWidth common)
        ∧ ∀ op relation, BinaryOp.relation? op = some relation →
          (cx.eval (.binary op e f)).run s = (.ok (.boolean (relation a' b')), s₂)
            ∧ (cx.target.scalarSigned common ∨ 0 ≤ a ∧ 0 ≤ b →
              (cx.eval (.binary op e f)).run s = (.ok (.boolean (relation a b)), s₂)) := by
  obtain ⟨u, hu⟩ := Option.isSome_iff_exists.mp hlt
  obtain ⟨v, hv⟩ := Option.isSome_iff_exists.mp hrt
  obtain ⟨a, ha, -⟩ := hl.exists_toInt? hu
  obtain ⟨b, hb, -⟩ := hr.exists_toInt? hv
  obtain ⟨ha', hb'⟩ := Target.toInt?_convert_common arch (target ▸ hl) (target ▸ hr) hu hv ha hb
  rw [← target] at ha' hb'
  generalize hc : cx.target.commonCarrier u v = common at *
  have hkept {n : ℤ} (h : cx.target.scalarSigned common ∨ 0 ≤ n) :
      cx.target.shifted common n = n := by
    rcases h with h | h
    · exact Target.shifted_of_signed h n
    · exact Target.shifted_of_nonneg h
  have hmoved {n : ℤ} (h : ¬ cx.target.scalarSigned common) (hn : n < 0) :
      cx.target.shifted common n = n + 2 ^ cx.target.scalarWidth common := by
    simp [Target.shifted, hn, h]
  refine ⟨common, a, b, _, _, hc ▸ Target.commonType?_of_carrier _ hu hv, ha, ha', hb, hb', hkept,
    hmoved, hkept, hmoved, ?_⟩
  intro op relation hop
  have hrun : (cx.eval (.binary op e f)).run s = (.ok (.boolean (relation
      (cx.target.shifted common a) (cx.target.shifted common b))), s₂) := by
    have hlogical : op.isLogical = false := by
      cases op <;> first | rfl | cases hop
    subst hc
    rw [run_eval_binary hlogical he hf, Target.binary_comparison hop hu hv ha' hb',
      run_accept_clean]
  refine ⟨hrun, fun h => ?_⟩
  rw [hrun, hkept (h.imp_right And.left), hkept (h.imp_right And.right)]

/-- A `long` and an `unsigned int` of the same width. -/
def mixedComparison : EvalContext where
  target := .ofArch .x86_64Windows
  frame := (Snapshot.empty
    |>.withVariable "x" ⟨.scalar .long, .signed (-1)⟩
    |>.withVariable "y" ⟨.scalar .unsignedInt, .unsigned 1⟩).toFrame

/-- The common type is `unsigned long`, in which -1 is not less than 1. -/
theorem comparison_exact_mixed :
    (mixedComparison.eval (.binary .lt (.var "x") (.var "y"))).run {} =
      (.ok (.boolean (2 ^ 32 - 1 < (1 : ℤ))), {}) := by
  have hx : (mixedComparison.eval (.var "x")).run {} =
    (.ok ⟨.scalar .long, .signed (-1)⟩, {}) := rfl
  have hy : (mixedComparison.eval (.var "y")).run {} =
    (.ok ⟨.scalar .unsignedInt, .unsigned 1⟩, {}) := rfl
  have htarget : mixedComparison.target = .ofArch .x86_64Windows := rfl
  obtain ⟨common, a, b, a', b', hcommon, ha, -, hb, -, -, hmoved, hkept, -, hcompare⟩ :=
    comparison_exact htarget hx hy (by decide +kernel) (by decide +kernel) rfl rfl
  obtain rfl : ScalarType.unsignedLong = common := Ty.scalar.inj (Option.some.inj hcommon)
  obtain rfl : -1 = a := Option.some.inj ha
  obtain rfl : 1 = b := Option.some.inj hb
  obtain rfl : a' = -1 + 2 ^ 32 := hmoved (by decide) (by decide)
  obtain rfl : b' = 1 := hkept (.inr (by decide))
  exact (hcompare .lt _ rfl).1

end EvalContext

end Assay
