import Assay.Proofs.Ty.Enumerations
import Assay.Value.Basic
import Mathlib.Algebra.Group.Int.Defs

/-!
# Well-formed values

A value is well-formed when its content is of the kind its type asks for and, for an integer, in
the type's range. Conversions to every type but a record give well-formed values, whatever they
start from (`wellFormed_convert`).
-/

namespace Assay

/-- Whether values of a type may hold a content: an integer of the type's signedness and in its
range, which is 0 and 1 for `bool`; a double for a floating type; an address for a pointer or a
record. -/
def Scalar.fits (target : Target) (type : Ty) : Scalar → Bool
  | .signed n => target.isSigned type && (target.range? type).any (·.contains n.toInt)
  | .unsigned n => type.isPointer || !type.isTestable ||
      (!target.isSigned type && (target.range? type).any (·.contains n.toNat))
  | .floating _ => type.isFloating

/-- A value holds what values of its type may hold. -/
def Value.WellFormed (target : Target) (v : Value) : Prop := v.scalar.fits target v.type

instance (target : Target) (v : Value) : Decidable (v.WellFormed target) :=
  inferInstanceAs (Decidable (_ = true))

/-- Every integer of the target fits 64 bits. -/
def Target.FitsWord (target : Target) : Prop :=
  ∀ s, 1 ≤ target.scalarWidth s ∧ target.scalarWidth s ≤ 64

theorem Target.fitsWord_ofArch (arch : Arch) : (Target.ofArch arch).FitsWord := by
  intro s
  cases arch <;> cases s <;> decide

/-- Whether the enumeration rests on an integer type other than `bool`. -/
def EnumType.isPlain (e : EnumType) : Bool := e.underlying.isIntegral && e.underlying != .bool

theorem EnumType.isFloating_of_isPlain {e : EnumType} (h : e.isPlain) :
    e.underlying.isFloating = false := by
  have hi : e.underlying.isIntegral = true := (Bool.and_eq_true_iff.mp h).1
  simpa [ScalarType.isIntegral] using hi

theorem EnumType.oneFloating_isPlain : OneFloating isPlain := by
  refine .inl fun e he _ hu => ?_
  have hf := isFloating_of_isPlain he
  rw [hu] at hf
  cases hf

namespace IntRange

theorem contains_iff {range : IntRange} {n : Int} :
    range.contains n = true ↔ range.min ≤ n ∧ n ≤ range.max := by
  simp [contains]

theorem contains_between {range : IntRange} {m n : Int} (hmin : range.min ≤ 0)
    (hmax : 0 ≤ range.max) (hn : range.contains n) (h : 0 ≤ m ∧ m ≤ n ∨ n ≤ m ∧ m ≤ 0) :
    range.contains m := by
  rw [contains_iff] at hn ⊢
  omega

theorem signed_contains_bmod {width : Nat} (hw : 1 ≤ width) (n : Int) :
    (signed width).contains (n.bmod (Nat.pow 2 width)) := by
  obtain ⟨k, rfl⟩ := Nat.exists_eq_add_of_le' hw
  have hpow : Nat.pow 2 (k + 1) = Nat.pow 2 k * 2 := rfl
  have hpos : 0 < Nat.pow 2 (k + 1) := Nat.two_pow_pos _
  have hle := Int.le_bmod (x := n) hpos
  have hlt := Int.bmod_lt (x := n) hpos
  rw [contains_iff]
  simp only [signed, Nat.add_sub_cancel]
  omega

theorem unsigned_contains_emod (width : Nat) (n : Int) :
    (unsigned width).contains (n.emod (Nat.pow 2 width)) := by
  have hpos : (0 : Int) < Nat.pow 2 width := Int.natCast_pos.mpr (Nat.two_pow_pos _)
  rw [contains_iff]
  exact ⟨Int.emod_nonneg n (Int.ne_of_gt hpos), Int.le_sub_one_of_lt (Int.emod_lt_of_pos n hpos)⟩

end IntRange

theorem wideRange_contains_iff {n : Int} : wideRange.contains n ↔ -2 ^ 127 ≤ n ∧ n < 2 ^ 127 := by
  rw [IntRange.contains_iff]
  change -2 ^ 127 ≤ n ∧ n ≤ 2 ^ 127 - 1 ↔ _
  omega

theorem wrapWide_eq_self {n : Int} (hl : -2 ^ 127 ≤ n) (hu : n < 2 ^ 127) : wrapWide n = n :=
  Int.bmod_eq_of_le hl hu

theorem Ty.eq_bool {type : Ty} (h : type.isBool) : type = .bool := by
  unfold Ty.isBool at h
  split at h
  · rfl
  · simp at h

namespace Value

variable {target : Target}

@[simp] theorem ofInt_type (type : Ty) (raw : Int) : (ofInt target type raw).type = type := by
  unfold ofInt
  split
  · rfl
  · simp only []
    split <;> rfl

@[simp] theorem ofBinary64_type (type : Ty) (x : Binary64) : (ofBinary64 type x).type = type := rfl

@[simp] theorem boolean_type (b : Bool) : (boolean b).type = .bool := rfl

@[simp] theorem zero_type (type : Ty) : (zero target type).type = type := by
  unfold zero
  split
  · rfl
  · split
    · rfl
    · exact ofInt_type _ _

@[simp] theorem convert_type (v : Value) (type : Ty) : (v.convert target type).type = type := by
  unfold convert
  split
  · rfl
  · split
    · rename_i h
      rw [boolean_type, Ty.eq_bool h]
    · exact ofInt_type _ _

end Value

namespace Target

variable {target : Target}

theorem scalarRange_contains_bmod (hw : target.FitsWord) {s : ScalarType} (hb : s ≠ .bool)
    (hs : target.scalarSigned s) (n : Int) :
    (target.scalarRange s).contains (n.bmod (Nat.pow 2 (target.scalarWidth s))) := by
  rw [scalarRange, if_neg hb, if_pos hs]
  exact IntRange.signed_contains_bmod (hw s).1 n

theorem scalarRange_contains_emod {s : ScalarType} (hb : s ≠ .bool)
    (hs : target.scalarSigned s = false) (n : Int) :
    (target.scalarRange s).contains (n.emod (Nat.pow 2 (target.scalarWidth s))) := by
  rw [scalarRange, if_neg hb, if_neg (by simp [hs])]
  exact IntRange.unsigned_contains_emod _ n

/-- The scalar that the width and range of an integral type other than `bool` are those of. -/
theorem exists_carrier {type : Ty} (hi : type.isIntegral) (hb : type.isBool = false)
    (ho : type.enumsIn EnumType.isPlain) :
    ∃ s, s ≠ .bool ∧ target.width type = target.scalarWidth s
      ∧ target.isSigned type = target.scalarSigned s
      ∧ target.range? type = some (target.scalarRange s) := by
  cases type with
  | scalar s =>
    refine ⟨s, ?_, rfl, rfl, by simp [range?, show s.isIntegral = true from hi]⟩
    rintro rfl
    simp [Ty.isBool] at hb
  | enumeration e =>
    have h : e.isPlain = true := ho
    refine ⟨e.underlying, ?_, rfl, rfl, rfl⟩
    intro he
    simp [EnumType.isPlain, he] at h
  | pointer _ => simp [Ty.isIntegral] at hi
  | record _ => simp [Ty.isIntegral] at hi

end Target

namespace Value

variable {target : Target}

theorem toInt_ofInt_bmod {width : Nat} (h1 : 1 ≤ width) (h64 : width ≤ 64) (n : Int) :
    (Int64.ofInt (n.bmod (Nat.pow 2 width))).toInt = n.bmod (Nat.pow 2 width) := by
  have hr := IntRange.contains_iff.mp (IntRange.signed_contains_bmod h1 n)
  simp only [IntRange.signed] at hr
  have hp : Nat.pow 2 (width - 1) ≤ 2 ^ 63 := Nat.pow_le_pow_right (by decide) (by omega)
  exact Int64.toInt_ofInt_of_le (by omega) (by omega)

theorem toNat_ofNat_emod {width : Nat} (h64 : width ≤ 64) (n : Int) :
    ((UInt64.ofNat (n.emod (Nat.pow 2 width)).toNat).toNat : Int) = n.emod (Nat.pow 2 width) := by
  have hr := IntRange.contains_iff.mp (IntRange.unsigned_contains_emod width n)
  simp only [IntRange.unsigned] at hr
  have hp : Nat.pow 2 width ≤ UInt64.size := Nat.pow_le_pow_right (by decide) h64
  rw [UInt64.toNat_ofNat_of_lt' (by omega)]
  exact Int.toNat_of_nonneg hr.1

theorem wellFormed_boolean (b : Bool) : (boolean b).WellFormed target := by
  cases b <;> rfl

theorem wellFormed_ofBinary64 {type : Ty} (hf : type.isFloating) (x : Binary64) :
    (ofBinary64 type x).WellFormed target := hf

theorem wellFormed_address {type : Ty} {scalar : Scalar} {address : UInt64}
    (h : type.isPointer ∨ type.isTestable = false) (hs : scalar = .unsigned address) :
    (⟨type, scalar⟩ : Value).WellFormed target := by
  rcases h with h | h <;> simp [WellFormed, Scalar.fits, hs, h]

/-- The low bits of an integer make a well-formed value of an integral type. -/
theorem wellFormed_ofInt_of_isIntegral (hw : target.FitsWord) {type : Ty} (hi : type.isIntegral)
    (ho : type.enumsIn EnumType.isPlain) (raw : Int) :
    (ofInt target type raw).WellFormed target := by
  unfold ofInt
  by_cases hb : type.isBool = true
  · rw [if_pos hb, Ty.eq_bool hb]
    split <;> rfl
  · obtain ⟨s, hs, hwidth, hsigned, hrange⟩ :=
      target.exists_carrier hi (by simpa using hb) ho
    obtain ⟨h1, h64⟩ := hw s
    have hwidth : max 1 (min 64 (target.width type)) = target.scalarWidth s := by omega
    rw [if_neg hb]
    simp only [hwidth, hsigned]
    cases hsg : target.scalarSigned s
    · have := target.scalarRange_contains_emod hs hsg raw
      simp only [WellFormed, Scalar.fits, hsigned, hsg, hrange, Bool.false_eq_true, ↓reduceIte,
        toNat_ofNat_emod h64, Option.any_some, this, Bool.not_false, Bool.true_and, Bool.or_true]
    · have := target.scalarRange_contains_bmod hw hs hsg raw
      simp only [WellFormed, Scalar.fits, hsigned, hsg, hrange, ↓reduceIte,
        toInt_ofInt_bmod h1 h64, Option.any_some, this, Bool.true_and]

/-- The low bits of an integer make a well-formed value of every type that is neither floating
nor a record. -/
theorem wellFormed_ofInt (hw : target.FitsWord) {type : Ty} (ht : type.isTestable)
    (hf : type.isFloating = false) (ho : type.enumsIn EnumType.isPlain) (raw : Int) :
    (ofInt target type raw).WellFormed target := by
  cases type with
  | scalar s =>
    have hi : (Ty.scalar s).isIntegral := by
      simpa [Ty.isIntegral, ScalarType.isIntegral, Ty.isFloating] using hf
    exact wellFormed_ofInt_of_isIntegral hw hi ho raw
  | enumeration e => exact wellFormed_ofInt_of_isIntegral hw rfl ho raw
  | pointer _ => exact wellFormed_address (.inl rfl) rfl
  | record _ => simp [Ty.isTestable] at ht

/-- Every conversion to a type other than a record gives a well-formed value. -/
theorem wellFormed_convert (hw : target.FitsWord) {type : Ty} (ht : type.isTestable)
    (ho : type.enumsIn EnumType.isPlain) (v : Value) :
    (v.convert target type).WellFormed target := by
  unfold convert
  by_cases hf : type.isFloating = true
  · rw [if_pos hf]
    exact wellFormed_ofBinary64 hf _
  rw [if_neg hf]
  by_cases hb : type.isBool = true
  · rw [if_pos hb]
    exact wellFormed_boolean _
  · rw [if_neg hb]
    exact wellFormed_ofInt hw ht (by simpa using hf) ho _

theorem wellFormed_zero (hw : target.FitsWord) {type : Ty}
    (ho : type.enumsIn EnumType.isPlain) : (zero target type).WellFormed target := by
  unfold zero
  split
  · exact wellFormed_address (.inr rfl) rfl
  · rename_i hr
    by_cases hf : type.isFloating = true
    · rw [if_pos hf]
      exact wellFormed_ofBinary64 hf _
    · rw [if_neg hf]
      have ht : type.isTestable := by
        cases type <;> first | rfl | exact absurd rfl (hr _)
      exact wellFormed_ofInt hw ht (by simpa using hf) ho 0

end Value

end Assay
