import Assay.Finding
import Assay.Proofs.Binary64.Dyadic
import Assay.Proofs.Value.Residue

/-!
# Casts of floating values to integral types

The bounds of a range, the upper one excluded, are zero or powers of two, and so they are doubles
(`rank?_bounds`). A cast has no finding exactly when the whole part of the value is in the range of
the type, and then it gives that integer (`floating_cast_judged`).
-/

namespace Assay

namespace Target

variable {target : Target} {c : ScalarType} {dest : Ty} {v : Value}

theorem scalarRange_powers (hw : target.FitsWord) (c : ScalarType) :
    ∃ k ≤ 64, (target.scalarRange c).max + 1 = Nat.pow 2 k
      ∧ ((target.scalarRange c).min = 0 ∨ (target.scalarRange c).min = -Nat.pow 2 k) := by
  have hwidth := hw c
  unfold scalarRange
  split_ifs
  · exact ⟨1, by decide, rfl, .inl rfl⟩
  · exact ⟨target.scalarWidth c - 1, by omega, by simp [IntRange.signed], .inr rfl⟩
  · exact ⟨target.scalarWidth c, by omega, by simp [IntRange.unsigned], .inl rfl⟩

theorem rank?_bounds (hw : target.FitsWord) (c : ScalarType) :
    (Binary64.ofInt (target.scalarRange c).min).rank? =
        some ((target.scalarRange c).min * Binary64.unitsPerOne)
      ∧ (Binary64.ofInt ((target.scalarRange c).max + 1)).rank? =
        some (((target.scalarRange c).max + 1) * Binary64.unitsPerOne) := by
  obtain ⟨k, hk, hmax, hmin⟩ := scalarRange_powers hw c
  constructor
  · rcases hmin with hmin | hmin <;> rw [hmin]
    · exact Binary64.rank?_ofInt (m := 0) (k := 0) (by decide) (by decide) rfl
    · exact Binary64.rank?_ofInt (m := 1) (k := k) (by decide) (by omega) (by simp)
  · rw [hmax]
    exact Binary64.rank?_ofInt (m := 1) (k := k) (by decide) (by omega) (by simp)

theorem checkCast_eq_none_iff (hw : target.FitsWord) (hv : v.type.isFloating)
    (ht : dest.isBool = false) (hrange : target.range? dest = some (target.scalarRange c)) :
    target.checkCast v dest = .none ↔
      ∃ q, v.toBinary64.toRat? = some q ∧ (target.scalarRange c).contains (towardZero q) := by
  obtain ⟨hlower, hupper⟩ := rank?_bounds hw c
  have hbetween := @Binary64.truncate_between_iff v.toBinary64 _ _ hlower hupper
  simp only [Int.lt_add_one_iff, ← IntRange.contains_iff] at hbetween
  rw [← hbetween]
  simp [checkCast, hv, ht, hrange, and_assoc]

theorem checkCast_eq_none_or (v : Value) (dest : Ty) :
    target.checkCast v dest = .none ∨ target.checkCast v dest = .invalidCast := by
  unfold checkCast
  split
  · exact .inl rfl
  · split
    · exact .inl rfl
    · simp only []
      split
      · exact .inl rfl
      · exact .inr rfl

end Target

theorem Value.toInt?_convert_floating {target : Target} {c : ScalarType} {dest : Ty} {v : Value}
    {x : Binary64} {q : ℚ} (hw : target.FitsWord) (hx : v.scalar = .floating x)
    (hf : dest.isFloating = false) (ht : dest.isBool = false) (hb : c ≠ .bool)
    (hwidth : target.width dest = target.scalarWidth c)
    (hsigned : target.isSigned dest = target.scalarSigned c) (hq : x.toRat? = some q)
    (hin : (target.scalarRange c).contains (towardZero q)) :
    (v.convert target dest).toInt? = some (towardZero q) := by
  -- what is in the range of a type is far from where integers are clamped
  have habs : (towardZero q).natAbs < 2 ^ 64 :=
    (Target.natAbs_lt_of_contains hw hin).trans_le (Nat.pow_le_pow_right (by decide) (hw c).2)
  have hmin : wideRange.min = -2 ^ 127 := rfl
  have hmax : wideRange.max = 2 ^ 127 - 1 := rfl
  have hvalue : v.toInt = towardZero q := by
    simp only [Value.toInt, hx]
    exact Binary64.truncateClamped_eq hq (by omega) (by omega)
  rw [convert, hf, ht, hvalue]
  simp only [Bool.false_eq_true, ↓reduceIte]
  rw [toInt?_ofInt_eq ht hb hwidth hsigned, toInt?_ofInt_of_contains hw hb hin]

namespace Target

/-- A cast of a floating value is judged by the number that the bits of the value denote. It has no
finding exactly when that number has a whole part in the range of the type, which is then the
integer that the cast gives. -/
theorem floating_cast_judged (arch : Arch) {v : Value} {bits : UInt64} (hv : v.type.isFloating)
    (hbits : v.scalar = .floating (.ofBits bits)) {dest : Ty} (hi : dest.isIntegral)
    (ht : dest.isBool = false) (ho : dest.enumsIn EnumType.isPlain) :
    ∃ range, (ofArch arch).range? dest = some range
      ∧ ((ofArch arch).checkCast v dest = .none ↔
          ∃ q, Binary64.denoted? bits = some q ∧ range.contains (towardZero q))
      ∧ ((ofArch arch).checkCast v dest = .invalidCast ↔
          ¬ ∃ q, Binary64.denoted? bits = some q ∧ range.contains (towardZero q))
      ∧ (Binary64.denoted? bits = none → (ofArch arch).checkCast v dest = .invalidCast)
      ∧ (∀ q, Binary64.denoted? bits = some q → |q| < 1 → (ofArch arch).checkCast v dest = .none)
      ∧ (v.convert (ofArch arch) dest).type = dest
      ∧ ((ofArch arch).checkCast v dest = .none → ∃ q, Binary64.denoted? bits = some q
          ∧ (v.convert (ofArch arch) dest).toInt? = some (towardZero q)) := by
  have hw := fitsWord_ofArch arch
  obtain ⟨c, hb, hwidth, hsigned, hrange⟩ := exists_carrier hi ht ho
  have hf : dest.isFloating = false := by
    rcases dest with s | e | _ | _
    · simpa [Ty.isFloating, Ty.isIntegral, ScalarType.isIntegral] using hi
    · rfl
    · rfl
    · rfl
  have hnone := checkCast_eq_none_iff hw hv ht hrange
  rw [Value.toBinary64, hbits] at hnone
  simp only [Binary64.toRat?_ofBits] at hnone
  have hinvalid : (ofArch arch).checkCast v dest = .invalidCast ↔
      ¬ (ofArch arch).checkCast v dest = .none := by
    rcases checkCast_eq_none_or v dest with h | h <;> rw [h] <;> decide
  refine ⟨_, hrange, hnone, hinvalid.trans (not_congr hnone), ?_, ?_, Value.convert_type _ _, ?_⟩
  · rintro hdenoted
    simp [hinvalid, hnone, hdenoted]
  · intro q hq hsmall
    obtain ⟨hmin, hmax, -⟩ := scalarRange_bounds hw c
    refine hnone.mpr ⟨q, hq, ?_⟩
    rw [towardZero_eq_zero hsmall]
    exact IntRange.contains_iff.mpr ⟨hmin, hmax⟩
  · intro h
    obtain ⟨q, hq, hin⟩ := hnone.mp h
    refine ⟨q, hq, ?_⟩
    rw [← Binary64.toRat?_ofBits] at hq
    exact Value.toInt?_convert_floating hw hbits hf ht hb hwidth hsigned hq hin

/-- The greatest double below `2 ^ 63`. -/
def belowWord : Value := ⟨.scalar .double, .floating (.ofBits 0x43dfffffffffffff)⟩

def wideEnum : Ty := .enumeration ⟨"Wide", .longLong, true⟩

/-- The greatest `long long` is not a double, yet the greatest double below `2 ^ 63` is cast to
it. -/
theorem floating_cast_judged_below :
    (ofArch .i686).checkCast belowWord wideEnum = .none
      ∧ (belowWord.convert (ofArch .i686) wideEnum).toInt? = some (2 ^ 63 - 2 ^ 10) := by
  have hbits : (0x43dfffffffffffff : UInt64).toNat = 0x43dfffffffffffff := rfl
  have hdenoted : Binary64.denoted? 0x43dfffffffffffff = some (2 ^ 63 - 2 ^ 10) := by
    rw [Binary64.denoted?, hbits]
    norm_num
  have hwhole : towardZero (2 ^ 63 - 2 ^ 10) = 2 ^ 63 - 2 ^ 10 := by
    norm_num [towardZero]
  have hintegral : wideEnum.isIntegral := rfl
  obtain ⟨range, hrange, hnone, -, -, -, -, hvalue⟩ :=
    floating_cast_judged .i686 (v := belowWord) rfl rfl hintegral rfl rfl
  have hwide : (ofArch .i686).range? wideEnum = some (.signed 64) := rfl
  obtain rfl : .signed 64 = range := Option.some.inj (hwide.symm.trans hrange)
  have hok : (ofArch .i686).checkCast belowWord wideEnum = .none := by
    refine hnone.mpr ⟨_, hdenoted, ?_⟩
    rw [hwhole]
    decide
  obtain ⟨q, hq, hconvert⟩ := hvalue hok
  obtain rfl : 2 ^ 63 - 2 ^ 10 = q := Option.some.inj (hdenoted.symm.trans hq)
  exact ⟨hok, hwhole ▸ hconvert⟩

end Target

end Assay
