import Assay.Proofs.Evaluation.FloatingCast

/-!
# Enumerations and the types they rest on

A conversion to an enumeration keeps the bits that one to its underlying type keeps, and a cast to
either is judged alike, unless the underlying type is `bool` (`enumeration_as_underlying`). To
become a `bool` a value is tested for zero, and no such cast has a finding. To become an enumeration
over `bool` it loses all but its low byte, and has a finding unless it is zero or one.
-/

namespace Assay

namespace Value

variable {target : Target} {e : EnumType}

theorem scalar_ofInt_enumeration (hb : e.underlying ≠ .bool) (n : Int) :
    (ofInt target (.enumeration e) n).scalar =
      (ofInt target (.scalar e.underlying) n).scalar := by
  have hbool : (Ty.scalar e.underlying).isBool = false := Ty.isBool_scalar hb
  have henum : (Ty.enumeration e).isBool = false := rfl
  have hwidth : target.width (.enumeration e) = target.width (.scalar e.underlying) := rfl
  have hsigned : target.isSigned (.enumeration e) = target.isSigned (.scalar e.underlying) := rfl
  simp only [ofInt, hbool, henum, hwidth, hsigned, Bool.false_eq_true, ↓reduceIte]
  split <;> rfl

theorem scalar_convert_enumeration (hi : e.underlying.isIntegral) (hb : e.underlying ≠ .bool)
    (v : Value) :
    (v.convert target (.enumeration e)).scalar =
      (v.convert target (.scalar e.underlying)).scalar := by
  have hfloating : (Ty.scalar e.underlying).isFloating = false := by
    simpa [Ty.isFloating, ScalarType.isIntegral] using hi
  have hbool : (Ty.scalar e.underlying).isBool = false := Ty.isBool_scalar hb
  rw [convert, convert, hfloating, hbool]
  exact scalar_ofInt_enumeration hb v.toInt

/-- An enumeration over `bool` keeps the low byte. -/
theorem scalar_convert_of_bool (hb : e.underlying = .bool) (v : Value) :
    (v.convert target (.enumeration e)).scalar =
      .unsigned (.ofNat (v.toInt.emod (Nat.pow 2 8)).toNat) := by
  simp [convert, ofInt, Ty.isFloating, Ty.isBool, Target.width, Target.isSigned, hb,
    Target.scalarWidth, Target.scalarSigned]

theorem scalar_convert_bool_iff (hb : e.underlying = .bool) (v : Value) :
    (v.convert target (.enumeration e)).scalar = (v.convert target .bool).scalar ↔
      v.toInt % 256 = if v.isTruthy then 1 else 0 := by
  have htruth : (v.convert target .bool).scalar = .unsigned (if v.isTruthy then 1 else 0) := rfl
  have hlow : ((UInt64.ofNat (v.toInt.emod (Nat.pow 2 8)).toNat).toNat : Int) =
      v.toInt.emod (Nat.pow 2 8) := toNat_ofNat_emod (by decide) _
  rw [scalar_convert_of_bool hb, htruth, Scalar.unsigned.injEq, ← UInt64.toNat_inj,
    ← Int.ofNat_inj, hlow]
  cases v.isTruthy <;> rfl

end Value

namespace Target

variable {target : Target} {e : EnumType}

theorem checkCast_enumeration (hi : e.underlying.isIntegral) (hb : e.underlying ≠ .bool)
    (v : Value) :
    target.checkCast v (.enumeration e) = target.checkCast v (.scalar e.underlying) := by
  have hbool : (Ty.scalar e.underlying).isBool = false := Ty.isBool_scalar hb
  have henum : (Ty.enumeration e).isBool = false := rfl
  simp only [checkCast, hbool, henum, range?, hi, ↓reduceIte]

theorem checkCast_bool (v : Value) : target.checkCast v .bool = .none := by
  simp [checkCast, Ty.isBool, Ty.bool]

theorem checkCast_bool_iff (hw : target.FitsWord) (hb : e.underlying = .bool) (v : Value) :
    target.checkCast v (.enumeration e) = target.checkCast v .bool ↔
      (v.type.isFloating → ∃ q, v.toBinary64.toRat? = some q
        ∧ 0 ≤ towardZero q ∧ towardZero q ≤ 1) := by
  rw [checkCast_bool]
  cases hv : v.type.isFloating with
  | false => simp [checkCast, hv]
  | true =>
    have hrange : target.range? (.enumeration e) = some (target.scalarRange .bool) := by
      rw [range?, hb]
    rw [checkCast_eq_none_iff hw hv rfl hrange]
    simp only [IntRange.contains_iff, scalarRange, ↓reduceIte, forall_const]

/-- A value is converted and cast to an enumeration as it is to the type it rests on. For `bool`
this takes a value whose low byte is its truth and, if it is floating, whose whole part is zero or
one. -/
theorem enumeration_as_underlying (arch : Arch) {e : EnumType} (hi : e.underlying.isIntegral)
    (v : Value) :
    (e.underlying ≠ .bool →
        (v.convert (ofArch arch) (.enumeration e)).scalar =
            (v.convert (ofArch arch) (.scalar e.underlying)).scalar
          ∧ (ofArch arch).checkCast v (.enumeration e) =
              (ofArch arch).checkCast v (.scalar e.underlying))
      ∧ (e.underlying = .bool →
        ((v.convert (ofArch arch) (.enumeration e)).scalar =
            (v.convert (ofArch arch) .bool).scalar ↔
              v.toInt % 256 = if v.isTruthy then 1 else 0)
          ∧ ((ofArch arch).checkCast v (.enumeration e) = (ofArch arch).checkCast v .bool ↔
              (v.type.isFloating → ∃ q, v.toBinary64.toRat? = some q
                ∧ 0 ≤ towardZero q ∧ towardZero q ≤ 1))) :=
  ⟨fun hb => ⟨Value.scalar_convert_enumeration hi hb v, checkCast_enumeration hi hb v⟩,
    fun hb => ⟨Value.scalar_convert_bool_iff hb v,
      checkCast_bool_iff (fitsWord_ofArch arch) hb v⟩⟩

/-- An `int` too long for the type -/
theorem enumeration_as_underlying_byte :
    let e : EnumType := ⟨"E", .unsignedChar, false⟩
    let v : Value := .ofInt (ofArch .aarch64) .int 300
    (v.convert (ofArch .aarch64) (.enumeration e)).scalar =
        (v.convert (ofArch .aarch64) (.scalar .unsignedChar)).scalar
      ∧ (ofArch .aarch64).checkCast v (.enumeration e) =
          (ofArch .aarch64).checkCast v (.scalar .unsignedChar) := by
  intro e v
  have hi : e.underlying.isIntegral := rfl
  exact (enumeration_as_underlying .aarch64 hi v).1 (by decide)

/-- An enumeration over `bool` keeps two, which is out of its range, and a double of two is found to
be out of range. -/
theorem two_kept_over_bool :
    let e : EnumType := ⟨"E", .bool, true⟩
    let two : Value := .ofInt (ofArch .x86_64) .int 2
    let real : Value := ⟨.scalar .double, .floating (.ofBits 0x4000000000000000)⟩
    e.underlying.isIntegral
      ∧ (two.convert (ofArch .x86_64) (.enumeration e)).scalar = .unsigned 2
      ∧ (two.convert (ofArch .x86_64) .bool).scalar = .unsigned 1
      ∧ (ofArch .x86_64).checkCast real (.enumeration e) = .invalidCast
      ∧ (ofArch .x86_64).checkCast real .bool = .none := by
  intro e two real
  exact ⟨by decide, by decide +kernel, by decide +kernel, by decide +kernel, by decide +kernel⟩

end Target

end Assay
