import Assay.Proofs.Evaluation.Residues
import Assay.Proofs.Ty.Widening
import Mathlib.Data.Rat.Floor

/-!
# Shifts

Promotion keeps the integers of both operands, so a shift is judged on the amount as it is written,
and not on what is shifted (`binary_shift`). The amount by which integers are moved is the residue
modulo the width, which is less than the width, and the result is exact modulo the width to the
left, and rounded down to the right (`shift_judged`).
-/

namespace Assay

namespace Target

variable {target : Target} {s t : ScalarType} {l r : Value} {x n : ℤ}

theorem toInt?_convert_promoteScalar (hw : target.FitsWord) (hs : s.isIntegral)
    (hl : l.toInt? = some n) (hn : (target.scalarRange s).contains n) :
    (l.convert target (.scalar (target.promoteScalar s))).toInt? = some n :=
  Value.toInt?_convert_eq hw (promoteScalar_isPromoted hs) hl (contains_promoteScalar hn) (by simp)

theorem promoteScalar_of_isPromoted (h : s.IsPromoted) : target.promoteScalar s = s := by
  rw [promoteScalar, if_pos h.rank]

theorem shiftWidth_of_isPromoted (h : s.IsPromoted) :
    target.shiftWidth (.scalar s) = target.scalarWidth s := by
  rw [shiftWidth, promote, if_pos h.integral, promoteScalar_of_isPromoted h, width]

/-- What a shift makes of an integer. -/
def shiftResult (op : BinaryOp) (x : ℤ) (amount : ℕ) : ℤ :=
  if op = .shl then wrapWide (x * Nat.pow 2 amount) else x / Nat.pow 2 amount

theorem classify_shift {op : BinaryOp} (hop : op = .shl ∨ op = .shr) (hs : s.IsPromoted)
    (hl : l.type = .scalar s) (hn : r.toInt? = some n) :
    target.classify op l r =
      if n < 0 ∨ (target.scalarWidth s : ℤ) ≤ n then .invalidShift else .none := by
  have hcheck : target.classify op l r = target.checkShift l.type r := by
    rcases hop with rfl | rfl <;> rfl
  rw [hcheck, checkShift, hn, hl, shiftWidth_of_isPromoted hs]

theorem shiftFinding_iff (n : ℤ) (width : ℕ) :
    let finding : Finding := if n < 0 ∨ (width : ℤ) ≤ n then .invalidShift else .none
    (finding = .invalidShift ↔ n < 0 ∨ (width : ℤ) ≤ n)
      ∧ (finding = .none ↔ 0 ≤ n ∧ n < width) := by
  intro finding
  by_cases h : n < 0 ∨ (width : ℤ) ≤ n
  · simp only [finding, h, ↓reduceIte, reduceCtorEq, true_and, false_iff]
    omega
  · simp only [finding, h, ↓reduceIte, reduceCtorEq, true_and, true_iff]
    omega

/-- A shift is judged on the integers of the operands as they are, and computes with them. -/
theorem binary_shift (hw : target.FitsWord) {op : BinaryOp} (hop : op = .shl ∨ op = .shr)
    (hl : l.type.carrier? = some s) (hr : r.type.carrier? = some t) (hx : l.toInt? = some x)
    (hn : r.toInt? = some n) (hxin : (target.scalarRange s).contains x)
    (hnin : (target.scalarRange t).contains n) :
    let promoted := target.promoteScalar s
    let width := target.scalarWidth promoted
    target.binary op l r =
      .ok ⟨if n < 0 ∨ (width : ℤ) ≤ n then .invalidShift else .none,
        .ofInt target (.scalar promoted) (shiftResult op x (n % width).toNat)⟩ := by
  intro promoted width
  have hs := Ty.isIntegral_of_carrier hl
  have ht := Ty.isIntegral_of_carrier hr
  have hsp : promoted.IsPromoted := promoteScalar_isPromoted hs
  obtain ⟨hil, hal, -, -⟩ := Ty.facts_of_carrier hl
  obtain ⟨hir, har, -, -⟩ := Ty.facts_of_carrier hr
  have hx := toInt?_convert_promoteScalar hw hs hx hxin
  have hn := toInt?_convert_promoteScalar hw ht hn hnin
  have hshift : target.binary op l r = target.shift op l r := by
    rcases hop with rfl | rfl <;> rfl
  simp only [hshift, shift, Ty.isIntegerOperand, hil, hal, hir, har,
    (Ty.layout_of_carrier target hl).2.2.2, (Ty.layout_of_carrier target hr).2.2.2,
    classify_shift hop hsp (Value.convert_type l _) hn, Value.toInt_eq_of_toInt? hx,
    Value.toInt_eq_of_toInt? hn, shiftWidth_of_isPromoted hsp, Bool.and_self, Bool.not_true,
    Bool.or_self, Bool.false_eq_true, ↓reduceIte, shiftResult, promoted, width]

theorem floor_div_two_pow (x : ℤ) (k : ℕ) : ⌊(x / 2 ^ k : ℚ)⌋ = x / Nat.pow 2 k := by
  exact_mod_cast Rat.floor_intCast_div_natCast x (2 ^ k)

theorem contains_div_two_pow (hw : target.FitsWord) (hx : (target.scalarRange s).contains x)
    (k : ℕ) : (target.scalarRange s).contains (x / Nat.pow 2 k) := by
  obtain ⟨hmin, hmax, -⟩ := scalarRange_bounds hw s
  have hpos : (0 : ℤ) < Nat.pow 2 k := Int.natCast_pos.mpr (Nat.two_pow_pos k)
  refine IntRange.contains_between hmin hmax hx ?_
  rcases Int.le_total 0 x with h | h
  · exact .inl ⟨Int.ediv_nonneg h hpos.le, Int.ediv_le_self _ h⟩
  · have hle : x * Nat.pow 2 k ≤ x := by nlinarith
    have hdiv := Int.ediv_le_ediv hpos h
    rw [Int.zero_ediv] at hdiv
    exact .inr ⟨Int.le_ediv_of_mul_le hpos hle, hdiv⟩

theorem shiftResult_residue (hw : target.FitsWord) (hs : s.IsPromoted) {op : BinaryOp}
    (hop : op = .shl ∨ op = .shr) (x : ℤ) (k : ℕ) :
    (Value.ofInt target (.scalar s) (shiftResult op x k)).IsResidue target s
      (if op = .shl then x * 2 ^ k else ⌊(x / 2 ^ k : ℚ)⌋) := by
  refine (Value.isResidue_ofInt hw hs _).congr ?_
  rcases hop with rfl | rfl <;> simp only [shiftResult, ↓reduceIte, reduceCtorEq]
  · exact dvd_wrapWide_sub_of_dvd (hw.scalarWidth_le s) (by simp)
  · rw [floor_div_two_pow, sub_self]
    exact dvd_zero _

theorem contains_floor_promoteScalar (hw : target.FitsWord)
    (hx : (target.scalarRange s).contains x) (k : ℕ) :
    (target.scalarRange (target.promoteScalar s)).contains ⌊(x / 2 ^ k : ℚ)⌋ := by
  rw [floor_div_two_pow]
  exact contains_div_two_pow hw (contains_promoteScalar hx) k

end Target

namespace EvalContext

variable {cx : EvalContext}

/-- A shift has a finding exactly when the amount, as the right operand holds it, is negative or not
less than the width of the promoted left operand, whatever is shifted. The amount used is the
residue modulo that width, which is the amount itself when there is no finding. -/
theorem shift_judged {arch : Arch} (target : cx.target = .ofArch arch) {op : BinaryOp}
    (hop : op = .shl ∨ op = .shr) {e f : Expr} {s s₁ s₂ : Session} {l r : Value}
    (he : (cx.eval e).run s = (.ok l, s₁)) (hf : (cx.eval f).run s₁ = (.ok r, s₂))
    (hl : l.WellFormed cx.target) (hr : r.WellFormed cx.target)
    (hlt : l.type.carrier?.isSome) (hrt : r.type.carrier?.isSome) :
    ∃ (promoted : ScalarType) (x n : ℤ) (amount : ℕ) (judged : Judged),
      cx.target.promote l.type = .scalar promoted
        ∧ l.toInt? = some x ∧ r.toInt? = some n
        ∧ (cx.eval (.binary op e f)).run s = (cx.accept (.ok judged)).run s₂
        ∧ (judged.finding = .invalidShift ↔ n < 0 ∨ (cx.target.scalarWidth promoted : ℤ) ≤ n)
        ∧ (judged.finding = .none ↔ 0 ≤ n ∧ n < cx.target.scalarWidth promoted)
        ∧ cx.target.shiftWidth (.scalar promoted) = cx.target.scalarWidth promoted
        ∧ 0 < cx.target.scalarWidth promoted
        ∧ (amount : ℤ) = n % cx.target.scalarWidth promoted ∧ amount < 128
        ∧ (judged.finding = .none → (amount : ℤ) = n)
        ∧ (op = .shl → judged.value.IsResidue cx.target promoted (x * 2 ^ amount))
        ∧ (op = .shr → judged.value.IsResidue cx.target promoted ⌊(x / 2 ^ amount : ℚ)⌋
            ∧ judged.value.toInt? = some ⌊(x / 2 ^ amount : ℚ)⌋) := by
  obtain ⟨u, hu⟩ := Option.isSome_iff_exists.mp hlt
  obtain ⟨v, hv⟩ := Option.isSome_iff_exists.mp hrt
  have hw : cx.target.FitsWord := by
    rw [target]
    exact Target.fitsWord_ofArch arch
  have hs : (cx.target.promoteScalar u).IsPromoted :=
    Target.promoteScalar_isPromoted (Ty.isIntegral_of_carrier hu)
  obtain ⟨x, hx, hxin⟩ := hl.exists_toInt? hu
  obtain ⟨n, hn, hnin⟩ := hr.exists_toInt? hv
  have hbinary := Target.binary_shift hw hop hu hv hx hn hxin hnin
  have hfloor := Target.contains_floor_promoteScalar hw hxin
  generalize hpromoted : cx.target.promoteScalar u = promoted at *
  obtain ⟨hpos, hfits⟩ := hw promoted
  have hlt : n % cx.target.scalarWidth promoted < cx.target.scalarWidth promoted :=
    Int.emod_lt_of_pos n (by omega)
  obtain ⟨amount, hamount⟩ := Int.eq_ofNat_of_zero_le
    (Int.emod_nonneg n (by omega : (cx.target.scalarWidth promoted : ℤ) ≠ 0))
  have hresidue := Target.shiftResult_residue hw hs hop x amount
  obtain ⟨hinvalid, hnone⟩ := Target.shiftFinding_iff n (cx.target.scalarWidth promoted)
  simp only [hamount, Int.toNat_natCast] at hbinary
  refine ⟨promoted, x, n, amount, _, hpromoted ▸ (Ty.layout_of_carrier cx.target hu).2.2.2, hx, hn,
    (run_eval_binary ?_ he hf).trans (by rw [hbinary]), hinvalid, hnone,
    Target.shiftWidth_of_isPromoted hs, hpos, hamount.symm, by omega, ?_, ?_, ?_⟩
  · rcases hop with rfl | rfl <;> rfl
  · intro h
    obtain ⟨hnonneg, hlt⟩ := hnone.mp h
    rw [← hamount, Int.emod_eq_of_lt hnonneg hlt]
  · rintro rfl
    exact hresidue
  · rintro rfl
    exact ⟨hresidue, hresidue.toInt?_eq hw hs (hfloor amount)⟩

/-- A negative `short` to be shifted by one more than its promoted width. -/
def wideShift : EvalContext where
  target := .ofArch .i686
  frame := (Snapshot.empty
    |>.withVariable "x" ⟨.scalar .short, .signed (-3)⟩
    |>.withVariable "n" ⟨.scalar .unsignedLongLong, .unsigned 33⟩).toFrame

/-- `x >> n` is not defined, and its value is that of a shift by one, rounded down. -/
theorem shift_judged_wide :
    ∃ judged : Judged,
      (wideShift.eval (.binary .shr (.var "x") (.var "n"))).run {} =
          (wideShift.accept (.ok judged)).run {}
        ∧ judged.finding = .invalidShift ∧ judged.value.type = .int
        ∧ judged.value.toInt? = some (-2) := by
  have hx : (wideShift.eval (.var "x")).run {} = (.ok ⟨.scalar .short, .signed (-3)⟩, {}) := rfl
  have hn : (wideShift.eval (.var "n")).run {} =
    (.ok ⟨.scalar .unsignedLongLong, .unsigned 33⟩, {}) := rfl
  have htarget : wideShift.target = .ofArch .i686 := rfl
  obtain ⟨promoted, x, n, amount, judged, hpromoted, hx, hn, hrun, hinvalid, -, -, -, hamount, -, -,
      -, hvalue⟩ :=
    shift_judged htarget (.inr rfl) hx hn (by decide +kernel) (by decide +kernel) rfl rfl
  obtain rfl : .int = promoted := Ty.scalar.inj hpromoted
  obtain rfl : -3 = x := Option.some.inj hx
  obtain rfl : 33 = n := Option.some.inj hn
  obtain rfl : amount = 1 := Int.natCast_inj.mp hamount
  obtain ⟨hresidue, hresult⟩ := hvalue rfl
  refine ⟨judged, hrun, hinvalid.mpr (.inr (by decide)), hresidue.type, hresult.trans ?_⟩
  norm_num

end EvalContext

end Assay
