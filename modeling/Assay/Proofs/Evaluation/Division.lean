import Assay.Proofs.Evaluation.Residues

/-!
# Integer division and remainder

Of two integers in the range of a type, the remainder is in range, and so is the quotient rounded
toward zero, but for the least integer divided by minus one (`IntRange.signed_contains_tdiv`). That
case and the zero divisor are the findings of a division, and without them the result is exact
(`division_judged`).
-/

namespace Assay

namespace IntRange

theorem contains_tmod {range : IntRange} {a : Int} (hmin : range.min ≤ 0) (hmax : 0 ≤ range.max)
    (ha : range.contains a) (b : Int) : range.contains (a.tmod b) := by
  have hle : (a.tmod b).natAbs ≤ a.natAbs := by
    rw [Int.natAbs_tmod]
    exact Nat.mod_le _ _
  -- a remainder lies between zero and the dividend
  refine contains_between hmin hmax ha ?_
  rcases Int.le_total 0 a with h | h
  · have hnonneg := Int.tmod_nonneg b h
    omega
  · have hneg := Int.tmod_nonneg b (Int.neg_nonneg_of_nonpos h)
    rw [Int.neg_tmod] at hneg
    omega

theorem unsigned_contains_tdiv {width : Nat} {a b : Int} (ha : (unsigned width).contains a)
    (hb : (unsigned width).contains b) : (unsigned width).contains (a.tdiv b) := by
  have hle := Int.natAbs_tdiv_le_natAbs a b
  rw [contains_iff] at ha hb ⊢
  simp only [unsigned] at ha hb ⊢
  have hnonneg := Int.tdiv_nonneg ha.1 hb.1
  omega

theorem signed_contains_tdiv {width : Nat} {a b : Int} (ha : (signed width).contains a)
    (hb : b ≠ 0) :
    (signed width).contains (a.tdiv b) ↔ ¬ (b = -1 ∧ (signed width).min = a) := by
  have hpos : 0 < Nat.pow 2 (width - 1) := Nat.two_pow_pos _
  have hle := Int.natAbs_tdiv_le_natAbs a b
  rw [contains_iff] at ha ⊢
  simp only [signed] at ha ⊢
  by_cases hneg : b = -1
  · subst hneg
    rw [Int.tdiv_neg, Int.tdiv_one]
    omega
  by_cases hone : b = 1
  · subst hone
    rw [Int.tdiv_one]
    omega
  · -- the quotient is at most half the dividend, and so not the one more that the least integer has
    have hhalf : (a.tdiv b).natAbs ≤ a.natAbs / 2 := by
      rw [Int.natAbs_tdiv]
      exact Nat.div_le_div_left (by omega) (by decide)
    omega

end IntRange

namespace Target

variable {target : Target} {c : ScalarType}

theorem scalarRange_contains_tdiv (hb : c ≠ .bool) {a b : Int}
    (ha : (target.scalarRange c).contains a) (hb' : (target.scalarRange c).contains b)
    (hne : b ≠ 0) : (target.scalarRange c).contains (a.tdiv b) ↔
      ¬ (b = -1 ∧ target.scalarSigned c ∧ (target.scalarRange c).min = a) := by
  cases hs : target.scalarSigned c <;> simp only [scalarRange, hb, hs, ↓reduceIte,
    Bool.false_eq_true] at ha hb' ⊢
  · simp only [IntRange.unsigned_contains_tdiv ha hb', false_and, and_false, not_false_eq_true]
  · simp only [IntRange.signed_contains_tdiv ha hne, true_and]

theorem classify_division {op : BinaryOp} (hop : op = .div ∨ op = .mod) {l r : Value} {a b : Int}
    (hc : c.isIntegral) (hlt : l.type = .scalar c) (hrt : r.type = .scalar c)
    (hl : l.toInt? = some a) (hr : r.toInt? = some b) :
    target.classify op l r = if b = 0 then .divisionByZero
      else if b = -1 ∧ target.scalarSigned c ∧ (target.scalarRange c).min = a
      then .divisionByMinusOne else .none := by
  have hcheck : target.classify op l r = target.checkDivision l r := by
    have hint : (Ty.scalar c).isIntegral = true := hc
    obtain rfl | rfl := hop <;> simp only [classify, hlt, hrt, hint, Bool.and_self, ↓reduceIte]
  have hsigned : target.isSigned (.scalar c) = target.scalarSigned c := rfl
  simp only [hcheck, checkDivision, hl, hr, hlt, hsigned, range?, hc, ↓reduceIte, Option.map_some,
    Option.some.injEq]

/-- The finding of a division in one type: none exactly when the type holds the quotient. -/
theorem classify_division_iff (hb : c ≠ .bool) {op : BinaryOp} (hop : op = .div ∨ op = .mod)
    {l r : Value} {a b : Int} (hc : c.isIntegral) (hlt : l.type = .scalar c)
    (hrt : r.type = .scalar c) (hl : l.toInt? = some a) (hr : r.toInt? = some b)
    (hain : (target.scalarRange c).contains a) (hbin : (target.scalarRange c).contains b) :
    (target.classify op l r = .none ↔ b ≠ 0 ∧ (target.scalarRange c).contains (a.tdiv b))
      ∧ (target.classify op l r = .divisionByZero ↔ b = 0)
      ∧ (target.classify op l r = .divisionByMinusOne ↔
          target.scalarSigned c ∧ a = (target.scalarRange c).min ∧ b = -1) := by
  rw [classify_division hop hc hlt hrt hl hr]
  by_cases hzero : b = 0
  · subst hzero
    simp
  · simp only [scalarRange_contains_tdiv hb hain hbin hzero, hzero, ↓reduceIte, ne_eq,
      not_false_eq_true, true_and, iff_false]
    split_ifs with h
    · simp [h]
    · simp only [h, not_false_eq_true, true_and, false_iff]
      rintro ⟨hs, rfl, hone⟩
      exact h ⟨hone, hs, rfl⟩

/-- The quotient or the remainder of integers in a range: both zero when the divisor is. -/
def divisionResult (op : BinaryOp) (a b : Int) : Int :=
  if b = 0 then 0 else if op = .div then a.tdiv b else a.tmod b

theorem integerResult?_division (hw : target.FitsWord) {op : BinaryOp} (hop : op = .div ∨ op = .mod)
    {a : Int} (ha : (target.scalarRange c).contains a) (b : Int) :
    integerResult? op a b = some (divisionResult op a b) := by
  have habs : a.natAbs < 2 ^ 64 :=
    (natAbs_lt_of_contains hw ha).trans_le (Nat.pow_le_pow_right (by decide) (hw c).2)
  have hle := Int.natAbs_tdiv_le_natAbs a b
  obtain rfl | rfl := hop
  · rw [integerResult?, divisionResult, wrapWide_eq_self (by omega) (by omega), if_pos rfl]
  · rfl

theorem contains_divisionResult (hw : target.FitsWord) (op : BinaryOp) {a b : Int}
    (ha : (target.scalarRange c).contains a) (hne : b ≠ 0)
    (hq : (target.scalarRange c).contains (a.tdiv b)) :
    (target.scalarRange c).contains (divisionResult op a b) := by
  obtain ⟨hmin, hmax, -⟩ := scalarRange_bounds hw c
  rw [divisionResult, if_neg hne]
  split
  · exact hq
  · exact IntRange.contains_tmod hmin hmax ha b

/-- Operands of integer arithmetic are divided in their common type. -/
theorem binary_division (hw : target.FitsWord) {op : BinaryOp} (hop : op = .div ∨ op = .mod)
    {l r : Value} {s t : ScalarType} (hl : l.type.carrier? = some s) (hr : r.type.carrier? = some t)
    {a b : Int} (ha : (l.convert target (.scalar (target.commonCarrier s t))).toInt? = some a)
    (hb : (r.convert target (.scalar (target.commonCarrier s t))).toInt? = some b)
    (hin : (target.scalarRange (target.commonCarrier s t)).contains a) :
    target.binary op l r =
      .ok ⟨target.classify op (l.convert target (.scalar (target.commonCarrier s t)))
          (r.convert target (.scalar (target.commonCarrier s t))),
        .ofInt target (.scalar (target.commonCarrier s t)) (divisionResult op a b)⟩ :=
  binary_arithmetic hl hr ha hb (integerResult?_division hw hop hin b)

end Target

namespace EvalContext

variable {cx : EvalContext}

/-- A quotient or remainder of integers is judged in the common type of the operands: it has no
finding exactly when the divisor is not zero and the type holds the quotient, and is exact then. -/
theorem division_judged {arch : Arch} (target : cx.target = .ofArch arch) {op : BinaryOp}
    (hop : op = .div ∨ op = .mod) {e f : Expr} {s s₁ s₂ : Session} {l r : Value}
    (he : (cx.eval e).run s = (.ok l, s₁)) (hf : (cx.eval f).run s₁ = (.ok r, s₂))
    (hl : l.WellFormed cx.target) (hr : r.WellFormed cx.target)
    (hlt : l.type.carrier?.isSome) (hrt : r.type.carrier?.isSome) :
    ∃ (common : ScalarType) (a b : Int) (judged : Judged),
      cx.target.commonType? l.type r.type = some (.scalar common)
        ∧ (l.convert cx.target (.scalar common)).toInt? = some a
        ∧ (r.convert cx.target (.scalar common)).toInt? = some b
        ∧ (cx.eval (.binary op e f)).run s = (cx.accept (.ok judged)).run s₂
        ∧ (judged.finding = .none ↔ b ≠ 0 ∧ (cx.target.scalarRange common).contains (a.tdiv b))
        ∧ (judged.finding = .divisionByZero ↔ r.toInt? = some 0)
        ∧ (judged.finding = .divisionByMinusOne ↔
            cx.target.scalarSigned common ∧ a = (cx.target.scalarRange common).min ∧ b = -1)
        ∧ judged.value.type = .scalar common
        ∧ (judged.finding = .none → ∃ quotient remainder : Int,
            judged.value.toInt? = some (if op = .div then quotient else remainder)
              ∧ quotient = a.tdiv b ∧ quotient * b + remainder = a
              ∧ remainder.natAbs < b.natAbs ∧ (remainder = 0 ∨ remainder.sign = a.sign)) := by
  obtain ⟨u, hu⟩ := Option.isSome_iff_exists.mp hlt
  obtain ⟨v, hv⟩ := Option.isSome_iff_exists.mp hrt
  have hw : cx.target.FitsWord := by
    rw [target]
    exact Target.fitsWord_ofArch arch
  have hc : (cx.target.commonCarrier u v).IsPromoted :=
    cx.target.commonCarrier_isPromoted (Ty.isIntegral_of_carrier hu) (Ty.isIntegral_of_carrier hv)
  have hle : cx.target.scalarWidth v ≤ cx.target.scalarWidth (cx.target.commonCarrier u v) := by
    rw [target]
    exact (Target.scalarWidth_le_commonCarrier arch (Ty.isIntegral_of_carrier hu)
      (Ty.isIntegral_of_carrier hv)).2
  obtain ⟨m, hm, -⟩ := hl.exists_toInt? hu
  obtain ⟨n, hn, hnin⟩ := hr.exists_toInt? hv
  obtain ⟨a, ha, hain, -⟩ := Value.toInt?_convert hw hc hm
  obtain ⟨b, hb, hbin, hbn⟩ := Value.toInt?_convert hw hc hn
  have hzero : b = 0 ↔ n = 0 := Value.eq_zero_of_convert hw hnin hle hbin hbn
  obtain ⟨hnone, hbyZero, hbyMinusOne⟩ := Target.classify_division_iff hc.ne_bool hop hc.integral
    (Value.convert_type l _) (Value.convert_type r _) ha hb hain hbin
  refine ⟨cx.target.commonCarrier u v, a, b,
    ⟨cx.target.classify op (l.convert cx.target _) (r.convert cx.target _),
      .ofInt cx.target (.scalar _) (Target.divisionResult op a b)⟩,
    Target.commonType?_of_carrier _ hu hv, ha, hb, ?_, hnone, ?_, hbyMinusOne,
    Value.ofInt_type _ _, ?_⟩
  · have hlogical : op.isLogical = false := by obtain rfl | rfl := hop <;> rfl
    rw [run_eval_binary hlogical he hf, Target.binary_division hw hop hu hv ha hb hain]
  · rw [hbyZero, hzero, hn, Option.some.injEq]
  · intro hfinding
    obtain ⟨hne, hq⟩ := hnone.mp hfinding
    refine ⟨a.tdiv b, a.tmod b, ?_, rfl, Int.tdiv_mul_add_tmod a b, ?_, ?_⟩
    · rw [Value.toInt?_ofInt_of_contains hw hc.ne_bool
        (Target.contains_divisionResult hw op hain hne hq), Target.divisionResult, if_neg hne]
    · rw [Int.natAbs_tmod]
      exact Nat.mod_lt _ (Int.natAbs_pos.mpr hne)
    · rw [Int.sign_tmod, ← Int.dvd_iff_tmod_eq_zero]
      by_cases hdvd : b ∣ a
      · exact .inl hdvd
      · exact .inr (if_neg hdvd)

/-- An `int` and an `unsigned int` to be divided. -/
def mixedDivision : EvalContext where
  target := .ofArch .x86_64
  frame := (Snapshot.empty
    |>.withVariable "x" (.ofInt (.ofArch .x86_64) .int (-7))
    |>.withVariable "y" (.ofInt (.ofArch .x86_64) (.scalar .unsignedInt) 2)).toFrame

/-- `x / y` divides what -7 is as an `unsigned int`. -/
theorem division_judged_mixed :
    ∃ judged : Judged,
      (mixedDivision.eval (.binary .div (.var "x") (.var "y"))).run {} =
          (mixedDivision.accept (.ok judged)).run {}
        ∧ judged.finding = .none ∧ judged.value.type = .scalar .unsignedInt
        ∧ judged.value.toInt? = some 2147483644 := by
  have hx : (mixedDivision.eval (.var "x")).run {} =
    (.ok (.ofInt (.ofArch .x86_64) .int (-7)), {}) := rfl
  have hy : (mixedDivision.eval (.var "y")).run {} =
    (.ok (.ofInt (.ofArch .x86_64) (.scalar .unsignedInt) 2), {}) := rfl
  have htarget : mixedDivision.target = .ofArch .x86_64 := rfl
  obtain ⟨common, a, b, judged, hcommon, ha, hb, hrun, hnone, -, -, htype, hvalue⟩ :=
    division_judged htarget (.inl rfl) hx hy (by decide +kernel) (by decide +kernel) (by decide)
      (by decide)
  have hunsigned : mixedDivision.target.commonType? .int (.scalar .unsignedInt) =
    some (.scalar .unsignedInt) := rfl
  obtain rfl : .unsignedInt = common := by
    simpa only [Option.some.injEq, Ty.scalar.injEq] using hunsigned.symm.trans hcommon
  obtain rfl : 4294967289 = a := Option.some.inj (.trans (by decide +kernel) ha)
  obtain rfl : 2 = b := Option.some.inj (.trans (by decide +kernel) hb)
  have hfinding : judged.finding = .none := hnone.mpr (by decide)
  obtain ⟨quotient, remainder, hresult, hquotient, -⟩ := hvalue hfinding
  refine ⟨judged, hrun, hfinding, htype, ?_⟩
  rw [hresult, hquotient, if_pos rfl]
  rfl

end EvalContext

end Assay
