import Assay.Proofs.Evaluation.EarlyExit
import Assay.Proofs.IntegerBits
import Assay.Proofs.Value.Residue
import Mathlib.Tactic.Ring

/-!
# Integer operators modulo the width

Sums, products and bitwise operators of congruent integers are congruent, also when they are first
reduced to 128 bits (`exists_integerResult?`). So these operators, and `-` and `~` before an
operand, have no finding and give the exact result modulo the width of their type, whatever
conversions the operands went through (`operators_residue`).
-/

namespace Assay

/-- What a binary operator gives on integers without bounds, in two's complement for the bitwise
ones. -/
def BinaryOp.exactResult? (op : BinaryOp) (a b : ℤ) : Option ℤ :=
  match op with
  | .plus => some (a + b)
  | .minus => some (a - b)
  | .mul => some (a * b)
  | .bitAnd => some (a.land b)
  | .bitOr => some (a.lor b)
  | .bitXor => some (a.xor b)
  | _ => none

/-- What a unary operator gives on integers without bounds. -/
def UnaryOp.exactResult? (op : UnaryOp) (a : ℤ) : Option ℤ :=
  match op with
  | .neg => some (-a)
  | .bitNot => some a.lnot
  | _ => none

namespace Target

variable {target : Target} {a b m n k : ℤ} {w : ℕ} {l r : Value} {s t : ScalarType}

theorem dvd_wrapWide_sub_of_dvd (hw : w ≤ 128) (h : (Nat.pow 2 w : ℤ) ∣ n - k) :
    (Nat.pow 2 w : ℤ) ∣ wrapWide n - k := by
  have hadd := Int.dvd_add (dvd_wrapWide_sub hw n) h
  rwa [sub_add_sub_cancel] at hadd

/-- Congruent operands have congruent results. -/
theorem exists_integerResult? (hw : w ≤ 128) (ha : (Nat.pow 2 w : ℤ) ∣ a - m)
    (hb : (Nat.pow 2 w : ℤ) ∣ b - n) {op : BinaryOp} (h : op.exactResult? m n = some k) :
    ∃ result, integerResult? op a b = some result ∧ (Nat.pow 2 w : ℤ) ∣ result - k := by
  cases op <;> simp only [BinaryOp.exactResult?, reduceCtorEq, Option.some.injEq] at h <;> subst h
  case plus =>
    refine ⟨_, rfl, dvd_wrapWide_sub_of_dvd hw ?_⟩
    rw [add_sub_add_comm]
    exact Int.dvd_add ha hb
  case minus =>
    refine ⟨_, rfl, dvd_wrapWide_sub_of_dvd hw ?_⟩
    rw [sub_sub_sub_comm]
    exact Int.dvd_sub ha hb
  case mul =>
    refine ⟨_, rfl, dvd_wrapWide_sub_of_dvd hw ?_⟩
    have hsplit : a * b - m * n = (a - m) * b + m * (b - n) := by ring
    rw [hsplit]
    exact Int.dvd_add (ha.mul_right b) (hb.mul_left m)
  case bitAnd =>
    rw [← Int.bitwise_and]
    exact ⟨_, rfl, dvd_bitwise_sub (fun x y i _ => BitVec.getLsbD_and) hw ha hb⟩
  case bitOr =>
    rw [← Int.bitwise_or]
    exact ⟨_, rfl, dvd_bitwise_sub (fun x y i _ => BitVec.getLsbD_or) hw ha hb⟩
  case bitXor =>
    rw [← Int.bitwise_xor]
    exact ⟨_, rfl, dvd_bitwise_sub (fun x y i _ => BitVec.getLsbD_xor) hw ha hb⟩

theorem binary_of_isComparison {op : BinaryOp} (hop : op.isComparison) :
    target.binary op l r = target.comparison op l r := by
  cases op <;> first | rfl | cases hop

/-- Operands of integer arithmetic are computed with in their common type. -/
theorem binary_arithmetic {op : BinaryOp} (hl : l.type.carrier? = some s)
    (hr : r.type.carrier? = some t)
    (ha : (l.convert target (.scalar (target.commonCarrier s t))).toInt? = some a)
    (hb : (r.convert target (.scalar (target.commonCarrier s t))).toInt? = some b)
    (hn : integerResult? op a b = some n) :
    target.binary op l r =
      .ok ⟨target.classify op (l.convert target (.scalar (target.commonCarrier s t)))
          (r.convert target (.scalar (target.commonCarrier s t))),
        .ofInt target (.scalar (target.commonCarrier s t)) n⟩ := by
  have hf := Ty.isFloating_of_isPromoted (target.commonCarrier_isPromoted
    (Ty.isIntegral_of_carrier hl) (Ty.isIntegral_of_carrier hr))
  obtain ⟨-, -, -, hlp⟩ := Ty.facts_of_carrier hl
  obtain ⟨-, -, -, hrp⟩ := Ty.facts_of_carrier hr
  have harith : target.binary op l r = target.arithmetic op l r := by
    unfold binary
    rw [if_neg (by simp [hlp, hrp])]
    cases op <;> first | rfl | cases hn
  simp only [harith, arithmetic, commonType?_of_carrier target hl hr, hf, Bool.false_eq_true,
    ↓reduceIte, Value.toInt_eq_of_toInt? ha, Value.toInt_eq_of_toInt? hb, hn]

theorem classify_exact {op : BinaryOp} (h : op.exactResult? m n = some k) (hl : l.type = .scalar s)
    (hr : r.type = .scalar t) : target.classify op l r = .none := by
  cases op <;> cases h <;> simp [classify, hl, hr, Ty.isPointer]

/-- An operator with an exact result gives it in the common type, and has no finding. -/
theorem binary_residue (hw : target.FitsWord) {op : BinaryOp} (hl : l.type.carrier? = some s)
    (hr : r.type.carrier? = some t) (hm : l.toInt? = some m) (hn : r.toInt? = some n)
    (h : op.exactResult? m n = some k) :
    ∃ v, target.binary op l r = .ok (.clean v)
      ∧ v.IsResidue target (target.commonCarrier s t) k := by
  have hc : (target.commonCarrier s t).IsPromoted := target.commonCarrier_isPromoted
    (Ty.isIntegral_of_carrier hl) (Ty.isIntegral_of_carrier hr)
  obtain ⟨a, ha, -, ham⟩ := Value.toInt?_convert hw hc hm
  obtain ⟨b, hb, -, hbn⟩ := Value.toInt?_convert hw hc hn
  -- conversion moves the operands by multiples of the modulus, which the operator does not see
  obtain ⟨result, hresult, hdvd⟩ := exists_integerResult? (hw.scalarWidth_le _) ham hbn h
  refine ⟨.ofInt target (.scalar (target.commonCarrier s t)) result, ?_,
    (Value.isResidue_ofInt hw hc result).congr hdvd⟩
  rw [binary_arithmetic hl hr ha hb hresult,
    classify_exact h (Value.convert_type l _) (Value.convert_type r _), Judged.clean]

theorem unary_residue (hw : target.FitsWord) {op : UnaryOp} (hl : l.type.carrier? = some s)
    (hm : l.toInt? = some m) (h : op.exactResult? m = some k) :
    ∃ v, target.unary op l = .ok v ∧ v.IsResidue target (target.promoteScalar s) k := by
  have hc : (target.promoteScalar s).IsPromoted :=
    promoteScalar_isPromoted (Ty.isIntegral_of_carrier hl)
  obtain ⟨-, -, -, hpromote⟩ := Ty.layout_of_carrier target hl
  obtain ⟨hi, hal, -, -⟩ := Ty.facts_of_carrier hl
  have hf := Ty.isFloating_of_isPromoted hc
  obtain ⟨a, ha, -, ham⟩ := Value.toInt?_convert hw hc hm
  cases op <;> simp only [UnaryOp.exactResult?, reduceCtorEq, Option.some.injEq] at h <;> subst h
  case neg =>
    refine ⟨.ofInt target (.scalar (target.promoteScalar s)) (wrapWide (-a)), ?_,
      (Value.isResidue_ofInt hw hc _).congr (dvd_wrapWide_sub_of_dvd (hw.scalarWidth_le _) ?_)⟩
    · simp only [unary, hal, hpromote, hf, Value.toInt_eq_of_toInt? ha, Bool.not_true,
        Bool.false_eq_true, ↓reduceIte]
    · rw [neg_sub_neg, ← Int.dvd_neg, neg_sub]
      exact ham
  case bitNot =>
    refine ⟨.ofInt target (.scalar (target.promoteScalar s)) (-a - 1), ?_,
      (Value.isResidue_ofInt hw hc _).congr ?_⟩
    · simp only [unary, Ty.isIntegerOperand, hi, hal, hpromote, Value.toInt_eq_of_toInt? ha,
        Bool.and_self, ↓reduceIte]
    · rw [lnot_eq, sub_sub_sub_cancel_right, neg_sub_neg, ← Int.dvd_neg, neg_sub]
      exact ham

end Target

namespace EvalContext

variable {cx : EvalContext}

theorem run_accept_clean (cx : EvalContext) (v : Value) (s : Session) :
    (cx.accept (.ok (.clean v))).run s = (.ok v, s) :=
  rfl

theorem run_eval_unary {op : UnaryOp} {e : Expr} {s s₁ : Session} {v w : Value}
    (he : (cx.eval e).run s = (.ok v, s₁)) (hw : cx.target.unary op v = .ok w) :
    (cx.eval (.unary op e)).run s = (.ok w, s₁) := by
  simp only [eval]
  rw [run_bind, he]
  simp only [hw]
  rfl

/-- The integer operators `+ - * & | ^` and the operators `- ~` have no finding. They give the one
value of the common type, or of the promoted type, that is congruent to the exact result on the
integers the operands hold, before any conversion. -/
theorem operators_residue {arch : Arch} (target : cx.target = .ofArch arch) {e : Expr}
    {s s₁ : Session} {l : Value} (he : (cx.eval e).run s = (.ok l, s₁))
    (hl : l.WellFormed cx.target) (hlt : l.type.carrier?.isSome) :
    ∃ a, l.toInt? = some a
      ∧ (∃ promoted, cx.target.promote l.type = .scalar promoted
          ∧ ∀ op k, UnaryOp.exactResult? op a = some k →
            ∃ v, (cx.eval (.unary op e)).run s = (.ok v, s₁)
              ∧ v.IsResidue cx.target promoted k
              ∧ ∀ w : Value, w.IsResidue cx.target promoted k → w = v)
      ∧ ∀ {f s₂ r}, (cx.eval f).run s₁ = (.ok r, s₂) → r.WellFormed cx.target →
          r.type.carrier?.isSome →
          ∃ b common, r.toInt? = some b
            ∧ cx.target.commonType? l.type r.type = some (.scalar common)
            ∧ ∀ op k, BinaryOp.exactResult? op a b = some k →
              ∃ v, (cx.eval (.binary op e f)).run s = (.ok v, s₂)
                ∧ v.IsResidue cx.target common k
                ∧ ∀ w : Value, w.IsResidue cx.target common k → w = v := by
  obtain ⟨u, hu⟩ := Option.isSome_iff_exists.mp hlt
  have hw : cx.target.FitsWord := by
    rw [target]
    exact Target.fitsWord_ofArch arch
  obtain ⟨a, ha, -⟩ := hl.exists_toInt? hu
  have hui := Ty.isIntegral_of_carrier hu
  refine ⟨a, ha, ⟨_, (Ty.layout_of_carrier cx.target hu).2.2.2, ?_⟩, ?_⟩
  · intro op k hk
    obtain ⟨v, hv, hresidue⟩ := Target.unary_residue hw hu ha hk
    exact ⟨v, run_eval_unary he hv, hresidue,
      fun w h => hresidue.unique h hw (Target.promoteScalar_isPromoted hui)⟩
  · intro f s₂ r hf hr hrt
    obtain ⟨t, ht⟩ := Option.isSome_iff_exists.mp hrt
    obtain ⟨b, hb, -⟩ := hr.exists_toInt? ht
    refine ⟨b, _, hb, Target.commonType?_of_carrier _ hu ht, ?_⟩
    intro op k hk
    obtain ⟨v, hv, hresidue⟩ := Target.binary_residue hw hu ht ha hb hk
    have hlogical : op.isLogical = false := by
      cases op <;> first | rfl | cases hk
    refine ⟨v, ?_, hresidue, fun w h => hresidue.unique h hw
      (cx.target.commonCarrier_isPromoted hui (Ty.isIntegral_of_carrier ht))⟩
    rw [run_eval_binary hlogical he hf, hv, run_accept_clean]

/-- The greatest word there is, to be multiplied by itself. -/
def greatestWord : EvalContext where
  target := .ofArch .x86_64Windows
  frame := (Snapshot.empty
    |>.withVariable "x" ⟨.scalar .unsignedLongLong, .unsigned 0xffffffffffffffff⟩).toFrame

/-- The product does not fit 128 bits with a sign, and is one modulo `2 ^ 64`. -/
theorem operators_residue_words :
    (greatestWord.eval (.unary .neg (.var "x"))).run {} =
        (.ok ⟨.scalar .unsignedLongLong, .unsigned 1⟩, {})
      ∧ (greatestWord.eval (.binary .mul (.var "x") (.var "x"))).run {} =
        (.ok ⟨.scalar .unsignedLongLong, .unsigned 1⟩, {}) := by
  have hx : (greatestWord.eval (.var "x")).run {} =
    (.ok ⟨.scalar .unsignedLongLong, .unsigned 0xffffffffffffffff⟩, {}) := rfl
  have htarget : greatestWord.target = .ofArch .x86_64Windows := rfl
  have hone (k : ℤ) (hk : (2 ^ 64 : ℤ) ∣ 1 - k) :
      (⟨.scalar .unsignedLongLong, .unsigned 1⟩ : Value).IsResidue greatestWord.target
        .unsignedLongLong k :=
    ⟨rfl, by decide +kernel, 1, rfl, hk⟩
  obtain ⟨a, ha, ⟨promoted, hpromoted, hunary⟩, hbinary⟩ :=
    operators_residue htarget hx (by decide +kernel) rfl
  obtain ⟨b, common, hb, hcommon, hproduct⟩ := hbinary hx (by decide +kernel) rfl
  obtain rfl : 0xffffffffffffffff = a := Option.some.inj ha
  obtain rfl : 0xffffffffffffffff = b := Option.some.inj hb
  obtain rfl : ScalarType.unsignedLongLong = promoted := Ty.scalar.inj hpromoted
  obtain rfl : ScalarType.unsignedLongLong = common := Ty.scalar.inj (Option.some.inj hcommon)
  obtain ⟨v, hv, -, hvunique⟩ := hunary .neg _ rfl
  obtain ⟨w, hw, -, hwunique⟩ := hproduct .mul _ rfl
  obtain rfl := hvunique _ (hone _ (by decide))
  obtain rfl := hwunique _ (hone _ (by decide))
  exact ⟨hv, hw⟩

end EvalContext

end Assay
