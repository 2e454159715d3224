import Assay.Proofs.Evaluation.Residues
import Assay.Proofs.Ty.Enumerations

/-!
# Exchanging the operands

The common type of two integers does not depend on which comes first, and a pointer moves the same
way from either side. So the symmetric operators give the same value and the same finding with their
operands exchanged, and a comparison gives what its mirror image does (`binary_exchanged`). Of one
pair of operands either every comparison is refused or they all follow one order
(`operands_exchanged`).
-/

namespace Assay

/-- The operator that says of exchanged operands what this one says of them. -/
def BinaryOp.exchanged? : BinaryOp → Option BinaryOp
  | .plus => some .plus
  | .mul => some .mul
  | .bitAnd => some .bitAnd
  | .bitXor => some .bitXor
  | .bitOr => some .bitOr
  | .eq => some .eq
  | .ne => some .ne
  | .lt => some .gt
  | .gt => some .lt
  | .le => some .ge
  | .ge => some .le
  | _ => none

theorem Ty.carrier?_of_restsOn {type : Ty} (h : type.restsOn ScalarType.isIntegral) :
    (∃ s, type.carrier? = some s) ∨ type.isArithmetic = false := by
  cases type with
  | scalar s => exact .inl ⟨s, if_pos h⟩
  | enumeration e =>
    cases hscoped : e.isScoped with
    | false =>
      have hi : e.underlying.isIntegral := h
      exact .inl ⟨e.underlying, by simp [carrier?, hscoped, hi]⟩
    | true => exact .inr (by simp [isArithmetic, hscoped])
  | pointer _ => exact .inr rfl
  | record _ => cases h

namespace Target

variable {target : Target} {s t : ScalarType} {op op' : BinaryOp} {l r : Value}

theorem commonCarrier_comm (hs : s.isIntegral) (ht : t.isIntegral) :
    target.commonCarrier s t = target.commonCarrier t s := by
  have hps : (target.promoteScalar s).IsPromoted := promoteScalar_isPromoted hs
  have hpt : (target.promoteScalar t).IsPromoted := promoteScalar_isPromoted ht
  refine target.commonScalar_comm (fun hf => ?_) hps.rank
  have hi := hps.integral
  simp [ScalarType.isIntegral, hf] at hi

section Common

variable {a b : Ty} (ha : a.restsOn ScalarType.isIntegral) (hb : b.restsOn ScalarType.isIntegral)
include ha hb

/-- Two operands have one common type, an integer type, or none. -/
theorem commonType?_exchanged :
    (∃ c : ScalarType, c.IsPromoted ∧ target.commonType? a b = some (.scalar c)
        ∧ target.commonType? b a = some (.scalar c))
      ∨ target.commonType? a b = none ∧ target.commonType? b a = none := by
  rcases Ty.carrier?_of_restsOn ha with ⟨s, hs⟩ | ha
  · rcases Ty.carrier?_of_restsOn hb with ⟨t, ht⟩ | hb
    · have hsi := Ty.isIntegral_of_carrier hs
      have hti := Ty.isIntegral_of_carrier ht
      refine .inl ⟨target.commonCarrier s t, target.commonCarrier_isPromoted hsi hti,
        commonType?_of_carrier target hs ht, ?_⟩
      rw [commonCarrier_comm hsi hti]
      exact commonType?_of_carrier target ht hs
    · exact .inr (by simp [commonType?, hb])
  · exact .inr (by simp [commonType?, ha])

end Common

/-- The operations give the same value with the same finding, or refuse the operands, each in its
own order. -/
def AgreeOrRefuse (op op' : BinaryOp) (l r : Value) (x y : Except EvalError Judged) : Prop :=
  (∃ judged, x = .ok judged ∧ y = .ok judged)
    ∨ x = .error (.ofOperands op l r) ∧ y = .error (.ofOperands op' r l)

theorem classify_plus_comm (target : Target) (l r : Value) :
    target.classify .plus l r = target.classify .plus r l := by
  obtain ⟨a, _⟩ := l
  obtain ⟨b, _⟩ := r
  cases a <;> cases b <;> simp [classify, Ty.isPointer, Ty.isIntegral]

theorem pointerArithmetic_exchanged (target : Target) (l r : Value) :
    AgreeOrRefuse .plus .plus l r (target.pointerArithmetic .plus l r)
      (target.pointerArithmetic .plus r l) := by
  simp only [pointerArithmetic, classify_plus_comm target r l]
  cases l.type.isPointer <;> cases r.type.isPointer <;> simp only []
  · exact .inr ⟨rfl, rfl⟩
  · cases l.type.isIntegerOperand
    · exact .inr ⟨rfl, rfl⟩
    · exact .inl ⟨_, rfl, rfl⟩
  · cases r.type.isIntegerOperand
    · exact .inr ⟨rfl, rfl⟩
    · exact .inl ⟨_, rfl, rfl⟩
  · exact .inr ⟨rfl, rfl⟩

theorem integerResult?_comm (h : op.exchanged? = some op) (a b : ℤ) :
    integerResult? op a b = integerResult? op b a := by
  cases op <;> cases h <;> simp only [integerResult?, bitwise]
  · rw [Int.mul_comm]
  · rw [Int.add_comm]
  · rw [BitVec.and_comm]
  · rw [BitVec.xor_comm]
  · rw [BitVec.or_comm]

/-- No operator that has an image judges arithmetic operands. -/
theorem classify_of_exchanged (h : op.exchanged? = some op') (hl : l.type = .scalar s)
    (hr : r.type = .scalar t) : target.classify op l r = .none := by
  cases op <;> cases h <;> simp [classify, hl, hr, Ty.isPointer]

theorem holds_exchanged (h : op.exchanged? = some op') (hop : op.isComparison) (order : Ordering) :
    ∃ result, holds op (some order) = some result ∧ holds op' (some order.swap) = some result := by
  cases op <;> cases h <;> cases hop <;> cases order <;> exact ⟨_, rfl, rfl⟩

theorem binary_of_exchanged (h : op.exchanged? = some op) (hop : op.isComparison = false)
    (hplus : op ≠ .plus) : target.binary op l r = target.arithmetic op l r := by
  cases op with
  | mul | bitAnd | bitXor | bitOr => rfl
  | plus => exact absurd rfl hplus
  | lt | le | gt | ge | eq | ne => cases hop
  | div | mod | minus | shl | shr | logicalAnd | logicalOr => cases h

theorem binary_plus (target : Target) (l r : Value) :
    target.binary .plus l r =
      if l.type.isPointer || r.type.isPointer then target.pointerArithmetic .plus l r
      else target.arithmetic .plus l r := by
  cases hl : l.type.isPointer <;> cases hr : r.type.isPointer <;>
    simp [binary, hl, hr, BinaryOp.isShift, BinaryOp.isComparison]

section Operands

variable (hl : l.type.restsOn ScalarType.isIntegral) (hr : r.type.restsOn ScalarType.isIntegral)
include hl hr

theorem arithmetic_exchanged (h : op.exchanged? = some op) :
    AgreeOrRefuse op op l r (target.arithmetic op l r) (target.arithmetic op r l) := by
  rcases target.commonType?_exchanged hl hr with ⟨c, hc, hlr, hrl⟩ | ⟨hlr, hrl⟩
  · have hf := Ty.isFloating_of_isPromoted hc
    have hjudged (v w : Value) : target.classify op (v.convert target (.scalar c))
        (w.convert target (.scalar c)) = .none :=
      classify_of_exchanged h (Value.convert_type v _) (Value.convert_type w _)
    simp only [arithmetic, hlr, hrl, hf, hjudged, Bool.false_eq_true, ↓reduceIte,
      integerResult?_comm h (r.convert target (.scalar c)).toInt]
    cases integerResult? op (l.convert target (.scalar c)).toInt
      (r.convert target (.scalar c)).toInt
    · exact .inr ⟨rfl, rfl⟩
    · exact .inl ⟨_, rfl, rfl⟩
  · simp only [arithmetic, hlr, hrl]
    exact .inr ⟨rfl, rfl⟩

/-- Operands are in order both ways round, or in none. -/
theorem order?_exchanged :
    (∃ order : Ordering, target.order? l r = some (some order)
        ∧ target.order? r l = some (some order.swap))
      ∨ target.order? l r = none ∧ target.order? r l = none := by
  unfold order?
  rw [Bool.and_comm r.type.isPointer]
  cases l.type.isPointer && r.type.isPointer with
  | true => exact .inl ⟨compare l.toInt r.toInt, rfl, by rw [Int.compare_swap]; rfl⟩
  | false =>
    rcases target.commonType?_exchanged hl hr with ⟨c, hc, hlr, hrl⟩ | ⟨hlr, hrl⟩
    · have hf := Ty.isFloating_of_isPromoted hc
      simp only [hlr, hrl, hf, Bool.false_eq_true, ↓reduceIte, Option.bind_eq_bind,
        Option.bind_some]
      refine .inl ⟨compare (l.convert target (.scalar c)).toInt
        (r.convert target (.scalar c)).toInt, rfl, ?_⟩
      rw [Int.compare_swap]
    · simp only [hlr, hrl, Bool.false_eq_true, ↓reduceIte, Option.bind_eq_bind, Option.bind_none]
      exact .inr ⟨trivial, trivial⟩

theorem comparison_exchanged (h : op.exchanged? = some op') (hop : op.isComparison) :
    AgreeOrRefuse op op' l r (target.comparison op l r) (target.comparison op' r l) := by
  rcases target.order?_exchanged hl hr with ⟨order, hlr, hrl⟩ | ⟨hlr, hrl⟩
  · obtain ⟨result, hresult, himage⟩ := holds_exchanged h hop order
    simp only [comparison, hlr, hrl, Option.bind_some, hresult, himage]
    exact .inl ⟨_, rfl, rfl⟩
  · simp only [comparison, hlr, hrl, Option.bind_none]
    exact .inr ⟨rfl, rfl⟩

/-- An operator and its image agree on operands and the exchanged operands. -/
theorem binary_exchanged (h : op.exchanged? = some op') :
    AgreeOrRefuse op op' l r (target.binary op l r) (target.binary op' r l) := by
  cases hop : op.isComparison with
  | true =>
    have himage : op'.isComparison := by cases op <;> cases h <;> first | rfl | cases hop
    rw [binary_of_isComparison hop, binary_of_isComparison himage]
    exact comparison_exchanged hl hr h hop
  | false =>
    obtain rfl : op = op' := by cases op <;> cases h <;> first | rfl | cases hop
    by_cases hplus : op = .plus
    · subst hplus
      rw [binary_plus, binary_plus, Bool.or_comm r.type.isPointer]
      split
      · exact pointerArithmetic_exchanged target l r
      · exact arithmetic_exchanged hl hr h
    · rw [binary_of_exchanged h hop hplus, binary_of_exchanged h hop hplus]
      exact arithmetic_exchanged hl hr h

/-- A comparison that is not refused says how the operands are ordered, and so do all others. -/
theorem exists_order_of_comparison (hop : op.isComparison) {judged : Judged}
    (h : target.binary op l r = .ok judged) :
    ∃ order : Ordering, ∀ op, op.isComparison → ∃ result, holds op (some order) = some result
      ∧ target.binary op l r = .ok (.clean (.boolean result)) := by
  rw [binary_of_isComparison hop, comparison] at h
  rcases target.order?_exchanged hl hr with ⟨order, horder, -⟩ | ⟨hnone, -⟩
  · refine ⟨order, fun op hop => ?_⟩
    obtain ⟨result, hresult⟩ : ∃ result, holds op (some order) = some result := by
      cases op <;> cases hop <;> exact ⟨_, rfl⟩
    refine ⟨result, hresult, ?_⟩
    rw [binary_of_isComparison hop, comparison, horder, Option.bind_some, hresult]
  · rw [hnone] at h
    cases h

end Operands

end Target

namespace EvalContext

variable {cx : EvalContext} {e f : Expr} {l r : Value}

/-- Operands that have the same values in either order give, to an operator and to its image, one
value and one finding, or they are refused by both. Where one comparison of them succeeds they all
do, as those of two items of an order. -/
theorem operands_exchanged {s s₁ s₂ t₁ t₂ : Session} (he : (cx.eval e).run s = (.ok l, s₁))
    (hf : (cx.eval f).run s₁ = (.ok r, s₂)) (hf' : (cx.eval f).run s = (.ok r, t₁))
    (he' : (cx.eval e).run t₁ = (.ok l, t₂)) (hl : l.type.restsOn ScalarType.isIntegral)
    (hr : r.type.restsOn ScalarType.isIntegral) :
    (∀ op op', BinaryOp.exchanged? op = some op' →
        (∃ judged, (cx.eval (.binary op e f)).run s = (cx.accept (.ok judged)).run s₂
            ∧ (cx.eval (.binary op' f e)).run s = (cx.accept (.ok judged)).run t₂)
          ∨ (cx.eval (.binary op e f)).run s = (.error (.invalidBinary op l.type r.type), s₂)
            ∧ (cx.eval (.binary op' f e)).run s = (.error (.invalidBinary op' r.type l.type), t₂))
      ∧ ∀ op v after, BinaryOp.isComparison op →
          (cx.eval (.binary op e f)).run s = (.ok v, after) →
          ∃ truth : BinaryOp → Bool,
            (∀ op, BinaryOp.isComparison op →
              (cx.eval (.binary op e f)).run s = (.ok (.boolean (truth op)), s₂))
            ∧ [truth .lt, truth .eq, truth .gt].count true = 1
            ∧ truth .le = !truth .gt ∧ truth .ge = !truth .lt ∧ truth .ne = !truth .eq := by
  refine ⟨fun op op' h => ?_, fun op v after hop h => ?_⟩
  · have hop : op.isLogical = false ∧ op'.isLogical = false := by
      cases op <;> cases h <;> exact ⟨rfl, rfl⟩
    rw [run_eval_binary hop.1 he hf, run_eval_binary hop.2 hf' he']
    rcases cx.target.binary_exchanged hl hr h with ⟨judged, hlr, hrl⟩ | ⟨hlr, hrl⟩
    · exact .inl ⟨judged, by rw [hlr], by rw [hrl]⟩
    · exact .inr ⟨by rw [hlr]; rfl, by rw [hrl]; rfl⟩
  · have hrun {op : BinaryOp} (hop : op.isComparison) : (cx.eval (.binary op e f)).run s =
        (cx.accept (cx.target.binary op l r)).run s₂ :=
      run_eval_binary (by cases op <;> first | rfl | cases hop) he hf
    rw [hrun hop] at h
    cases hjudged : cx.target.binary op l r with
    | error err =>
      rw [hjudged] at h
      cases h
    | ok judged =>
      obtain ⟨order, horder⟩ := Target.exists_order_of_comparison hl hr hop hjudged
      refine ⟨fun op => (Target.holds op (some order)).getD false, fun op hop => ?_, ?_⟩
      · obtain ⟨result, hresult, hbinary⟩ := horder op hop
        simp only [hrun hop, hbinary, run_accept_clean, hresult, Option.getD_some]
      · cases order <;> exact ⟨rfl, rfl, rfl, rfl⟩

/-- A pointer and an enumeration in either order, and an `int` and a `bool`. -/
def eitherOrder : EvalContext where
  target := .ofArch .i686
  frame := (Snapshot.empty
    |>.withVariable "p" (.pointer (.scalar .double) 0)
    |>.withVariable "n" ⟨.enumeration ⟨"E", .short, false⟩, .signed (-3)⟩
    |>.withVariable "i" ⟨.int, .signed (-1)⟩
    |>.withVariable "b" (.boolean true)).toFrame

/-- The null pointer is found moved on either side, and `-1`, less than `true`, is not greater. -/
theorem operands_exchanged_null :
    (eitherOrder.eval (.binary .plus (.var "n") (.var "p"))).run {} =
        (.ok (.pointer (.scalar .double) 0xFFFFFFE8), ⟨.nullArithmetic, false⟩)
      ∧ (eitherOrder.eval (.binary .gt (.var "i") (.var "b"))).run {} = (.ok (.boolean false), {})
      := by
  have hp : (eitherOrder.eval (.var "p")).run {} = (.ok (.pointer (.scalar .double) 0), {}) := rfl
  have hn : (eitherOrder.eval (.var "n")).run {} =
    (.ok ⟨.enumeration ⟨"E", .short, false⟩, .signed (-3)⟩, {}) := rfl
  have hi : (eitherOrder.eval (.var "i")).run {} = (.ok ⟨.int, .signed (-1)⟩, {}) := rfl
  have hb : (eitherOrder.eval (.var "b")).run {} = (.ok (.boolean true), {}) := rfl
  obtain ⟨hsum, -⟩ := operands_exchanged hp hn hn hp rfl rfl
  obtain ⟨-, hcompare⟩ := operands_exchanged hi hb hb hi rfl rfl
  constructor
  · have hmoved : (eitherOrder.eval (.binary .plus (.var "p") (.var "n"))).run {} =
      (.ok (.pointer (.scalar .double) 0xFFFFFFE8), ⟨.nullArithmetic, false⟩) := rfl
    rcases hsum .plus .plus rfl with ⟨judged, h, himage⟩ | ⟨h, -⟩
    · exact himage.trans (h.symm.trans hmoved)
    · cases hmoved.symm.trans h
  · have hless : (eitherOrder.eval (.binary .lt (.var "i") (.var "b"))).run {} =
      (.ok (.boolean true), {}) := rfl
    obtain ⟨truth, htruth, hone, -⟩ := hcompare .lt _ _ rfl hless
    have hlt := (htruth .lt rfl).symm.trans hless
    rw [htruth .gt rfl]
    cases hl : truth .lt <;> cases he : truth .eq <;> cases hg : truth .gt <;> simp_all

end EvalContext

end Assay
