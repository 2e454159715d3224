import Assay.Proofs.Evaluation.EarlyExit
import Assay.Proofs.Value.Address
import Mathlib.Algebra.Group.Int.Defs
import Mathlib.Algebra.Group.Nat.Defs

/-!
# Differences of pointers

The value of a difference of pointers is the exact distance between them, in elements
(`toInt?_elementDistance`). Its finding is that of the distance modulo `2 ^ 64`
(`checkPointerDifference_pointer`). So it is the finding of the exact distance where that fits 64
bits (`difference_judged`), and not always where it does not (`difference_wraps`).
-/

namespace Assay

/-- The distance in bytes from `b` to `a`. -/
def byteDistance (a b : UInt64) : Int := a.toNat - b.toNat

/-- The distance is negative and no multiple of the element size. -/
def Uneven (size distance : Int) : Prop := distance < 0 ∧ ¬ size ∣ distance

instance (size distance : Int) : Decidable (Uneven size distance) :=
  inferInstanceAs (Decidable (_ ∧ _))

namespace Target

variable {target : Target} {pointee : Ty} {a b : UInt64}

theorem bmod_eq_self {n : Int} (hl : -2 ^ 63 ≤ n) (hu : n < 2 ^ 63) : n.bmod UInt64.size = n :=
  Int.bmod_eq_of_le hl hu

/-- An element of `2 ^ 63` bytes or more counts as one of a negative size. -/
theorem one_lt_bmod_iff {size : Nat} (h1 : 1 < size) (h64 : size < UInt64.size) :
    1 < (size : Int).bmod UInt64.size ↔ size < 2 ^ 63 := by
  have hmod : (size : Int) % UInt64.size = size := Int.emod_eq_of_lt (by omega) (by omega)
  have hhalf : ((UInt64.size : Int) + 1) / 2 = 2 ^ 63 := rfl
  have hfull : (UInt64.size : Int) = 2 ^ 64 := rfl
  rw [Int.bmod_def, hmod, hhalf]
  split <;> omega

theorem checkPointerDifference_pointer (h1 : 1 < target.sizeOf pointee)
    (h64 : target.sizeOf pointee < UInt64.size) :
    target.checkPointerDifference (.pointer pointee a) (.pointer pointee b) =
      if target.sizeOf pointee < 2 ^ 63 ∧
          Uneven (target.sizeOf pointee) ((byteDistance a b).bmod UInt64.size)
      then .invalidDifference else .none := by
  have hsize := one_lt_bmod_iff h1 h64
  by_cases h63 : target.sizeOf pointee < 2 ^ 63
  · have hself : (target.sizeOf pointee : Int).bmod UInt64.size = target.sizeOf pointee :=
      bmod_eq_self (by omega) (by omega)
    simp only [checkPointerDifference, Value.pointer, Value.address?, Ty.pointee?, hself, Uneven,
      Int.dvd_iff_tmod_eq_zero, byteDistance, h63, true_and]
    have : (1 : Int) < target.sizeOf pointee := by omega
    simp only [this, true_and, ne_eq]
  · have : ¬ 1 < (target.sizeOf pointee : Int).bmod UInt64.size := fun h => h63 (hsize.mp h)
    simp only [checkPointerDifference, Value.pointer, Value.address?, Ty.pointee?, this, h63,
      false_and, ↓reduceIte]

theorem bmod_pow_eq_self {width : Nat} (hw : 1 ≤ width) {n : Int}
    (hn : n.natAbs < 2 ^ (width - 1)) : n.bmod (Nat.pow 2 width) = n := by
  obtain ⟨k, rfl⟩ := Nat.exists_eq_add_of_le' hw
  have hpow : Nat.pow 2 (k + 1) = 2 ^ k * 2 := rfl
  rw [Nat.add_sub_cancel] at hn
  rw [hpow]
  exact Int.bmod_eq_of_le (by omega) (by omega)

theorem toInt?_ofInt_bmod (arch : Arch) (n : Int) :
    (Value.ofInt (ofArch arch) (.scalar (ofArch arch).differenceType) n).toInt? =
      some (n.bmod (Nat.pow 2 (ofArch arch).pointerBits)) := by
  have hbits := pointerBits_bounds arch
  have hscalar : (Value.ofInt (ofArch arch) (.scalar (ofArch arch).differenceType) n).scalar =
      .signed (Int64.ofInt (n.bmod (Nat.pow 2 (ofArch arch).pointerBits))) := by
    cases arch <;> rfl
  rw [Value.toInt?, hscalar]
  simp only []
  rw [Value.toInt_ofInt_bmod hbits.1 hbits.2]

/-- The distance from `b` to `a` as a value, in elements. -/
def elementDistance (target : Target) (pointee : Ty) (a b : UInt64) : Value :=
  .ofInt target (.scalar target.differenceType)
    ((byteDistance a b).tdiv (target.sizeOf pointee))

/-- Addresses are too close to each other for their distance to overflow. -/
theorem wideRange_contains_byteDistance (a b : UInt64) :
    wideRange.contains (byteDistance a b) := by
  have ha := a.toNat_lt
  have hb := b.toNat_lt
  rw [wideRange_contains_iff, byteDistance]
  omega

theorem pointerDistance_pointer (h1 : 1 ≤ target.sizeOf pointee) :
    target.pointerDistance (.pointer pointee a) (.pointer pointee b) =
      .ok (target.elementDistance pointee a b) := by
  have hsize : max 1 (((Value.pointer pointee a).type.pointee?.map target.sizeOf).getD 1) =
      target.sizeOf pointee := Nat.max_eq_right h1
  have hvalues : (Value.pointer pointee a).toInt - (Value.pointer pointee b).toInt =
      byteDistance a b := rfl
  simp only [pointerDistance, hsize, hvalues, wideRange_contains_byteDistance, ↓reduceIte,
    elementDistance]

/-- Of elements longer than a byte, no more lie between two addresses than the type of differences
has room for. -/
theorem toInt?_elementDistance {arch : Arch} (ha : a.toNat < 2 ^ (ofArch arch).pointerBits)
    (hb : b.toNat < 2 ^ (ofArch arch).pointerBits) (h1 : 1 < (ofArch arch).sizeOf pointee) :
    ((ofArch arch).elementDistance pointee a b).toInt? =
      some ((byteDistance a b).tdiv ((ofArch arch).sizeOf pointee)) := by
  have hquotient : ((byteDistance a b).tdiv ((ofArch arch).sizeOf pointee)).natAbs ≤
      (byteDistance a b).natAbs / 2 := by
    rw [Int.natAbs_tdiv]
    exact Nat.div_le_div_left h1 (by decide)
  have hpow : 2 ^ (ofArch arch).pointerBits = 2 * 2 ^ ((ofArch arch).pointerBits - 1) := by
    cases arch <;> rfl
  have habs : (byteDistance a b).natAbs < 2 ^ (ofArch arch).pointerBits := by
    unfold byteDistance
    omega
  have hhalf : (byteDistance a b).natAbs / 2 < 2 ^ ((ofArch arch).pointerBits - 1) := by omega
  rw [elementDistance, toInt?_ofInt_bmod,
    bmod_pow_eq_self (pointerBits_bounds arch).1 (Nat.lt_of_le_of_lt hquotient hhalf)]

theorem binary_minus_pointers (h1 : 1 ≤ target.sizeOf pointee) :
    target.binary .minus (.pointer pointee a) (.pointer pointee b) =
      .ok ⟨target.checkPointerDifference (.pointer pointee a) (.pointer pointee b),
        target.elementDistance pointee a b⟩ := by
  have htype (c : UInt64) : (Value.pointer pointee c).type = .pointer pointee := rfl
  simp [binary, pointerArithmetic, htype, Ty.isPointer, classify, pointerDistance_pointer h1, bind,
    Except.bind]

end Target

namespace EvalContext

variable {cx : EvalContext}

/-- The value of a difference of pointers is the exact distance, in elements. Its finding is that of
the distance modulo `2 ^ 64`, and so that of the exact distance where it fits 64 bits. -/
theorem difference_judged {arch : Arch} (target : cx.target = .ofArch arch) {e f : Expr}
    {s s₁ s₂ : Session} {pointee : Ty} {a b : UInt64}
    (he : (cx.eval e).run s = (.ok (.pointer pointee a), s₁))
    (hf : (cx.eval f).run s₁ = (.ok (.pointer pointee b), s₂))
    (ha : a.toNat < 2 ^ cx.target.pointerBits) (hb : b.toNat < 2 ^ cx.target.pointerBits)
    (h1 : 1 < cx.target.sizeOf pointee) (h64 : cx.target.sizeOf pointee < UInt64.size) :
    ∃ judged : Judged,
      (cx.eval (.binary .minus e f)).run s = (cx.accept (.ok judged)).run s₂
        ∧ judged.value.toInt? = some ((byteDistance a b).tdiv (cx.target.sizeOf pointee))
        ∧ (judged.finding =
            if cx.target.sizeOf pointee < 2 ^ 63 ∧
                Uneven (cx.target.sizeOf pointee) ((byteDistance a b).bmod UInt64.size)
            then .invalidDifference else .none)
        ∧ (cx.target.sizeOf pointee < 2 ^ 63 → -2 ^ 63 ≤ byteDistance a b →
            byteDistance a b < 2 ^ 63 →
            judged.finding =
              if Uneven (cx.target.sizeOf pointee) (byteDistance a b)
              then .invalidDifference else .none) := by
  have hfinding := Target.checkPointerDifference_pointer (a := a) (b := b) h1 h64
  refine ⟨⟨cx.target.checkPointerDifference (.pointer pointee a) (.pointer pointee b),
    cx.target.elementDistance pointee a b⟩, ?_, ?_, ?_, ?_⟩
  · rw [run_eval_binary rfl he hf, Target.binary_minus_pointers (Nat.le_of_lt h1)]
  · rw [target] at ha hb h1 ⊢
    exact Target.toInt?_elementDistance ha hb h1
  · rw [hfinding]
  · intro h63 hl hu
    rw [hfinding, Target.bmod_eq_self hl hu]
    simp only [h63, true_and]

/-- Two variables that point to an `int` each. -/
def holding (a b : UInt64) : EvalContext where
  target := .ofArch .x86_64
  frame := (Snapshot.empty
    |>.withVariable "p" (.pointer .int a)
    |>.withVariable "q" (.pointer .int b)).toFrame

/-- `p - q` with the pointers at 4 and 10 -/
theorem difference_judged_uneven :
    let cx := holding 4 10
    ∃ judged : Judged,
      (cx.eval (.binary .minus (.var "p") (.var "q"))).run {} = (cx.accept (.ok judged)).run {}
        ∧ judged.value.toInt? = some (-1) ∧ judged.finding = .invalidDifference := by
  intro cx
  have hp : (cx.eval (.var "p")).run {} = (.ok (.pointer .int 4), {}) := rfl
  have hq : (cx.eval (.var "q")).run {} = (.ok (.pointer .int 10), {}) := rfl
  have htarget : cx.target = .ofArch .x86_64 := rfl
  obtain ⟨judged, hrun, hvalue, -, hfinding⟩ := difference_judged htarget hp hq (by decide)
    (by decide) (by decide) (by decide)
  refine ⟨judged, hrun, ?_, ?_⟩
  · rw [hvalue]
    decide +kernel
  · rw [hfinding (by decide) (by decide) (by decide)]
    decide +kernel

/-- A pointer in the upper half of memory lies `2 ^ 63 + 1` bytes past null. That distance is
positive and yet has a finding, and the opposite one is negative and uneven and has none. -/
theorem difference_wraps :
    let difference : Expr := .binary .minus (.var "p") (.var "q")
    let long (n : Int) : Value := .ofInt (.ofArch .x86_64) (.scalar .long) n
    ((holding 0x8000000000000001 0).evaluate difference).toOption =
        some ⟨long (2 ^ 61), .invalidDifference⟩
      ∧ ¬ Uneven 4 (byteDistance 0x8000000000000001 0)
      ∧ ((holding 0 0x8000000000000001).evaluate difference).toOption = some ⟨long (-2 ^ 61), .none⟩
      ∧ Uneven 4 (byteDistance 0 0x8000000000000001) := by
  intro difference long
  exact ⟨by decide +kernel, by decide +kernel, by decide +kernel, by decide +kernel⟩

end EvalContext

end Assay
