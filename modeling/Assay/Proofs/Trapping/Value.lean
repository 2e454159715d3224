import Assay.Evaluation.Literal
import Assay.Proofs.Trapping.Arithmetic
import Assay.Proofs.Value.Address

/-!
# Values made by a machine

Sizes, ranges and values as a machine computes them, with its shifts and its arithmetic of 32, 64
and 128 bits. On the known targets nothing stops it (`ofInt_eq`), as widths lie between 1 and 64
there. Only the width of a record may be too large for the machine, and no value needs it.
-/

namespace Assay

open IntFormat (i128 i64 u64 u32)

theorem Target.width_bounds (arch : Arch) {type : Ty} (ht : type.isTestable) :
    1 ≤ (ofArch arch).width type ∧ (ofArch arch).width type ≤ 64 := by
  cases type with
  | scalar s => exact fitsWord_ofArch arch s
  | enumeration e => exact fitsWord_ofArch arch e.underlying
  | pointer _ => exact pointerBits_bounds arch
  | record _ => cases ht

/-- Every value is read as an integer of 128 bits. -/
theorem Value.contains_toInt (v : Value) : i128.range.contains v.toInt := by
  rw [IntFormat.contains_i128]
  obtain ⟨type, scalar⟩ := v
  cases scalar with
  | signed n =>
    have := n.le_toInt
    have := n.toInt_lt
    exact ⟨by simp only [toInt]; omega, by simp only [toInt]; omega⟩
  | unsigned n =>
    have := n.toNat_lt
    exact ⟨by simp only [toInt]; omega, by simp only [toInt]; omega⟩
  | floating x =>
    have hmin : wideRange.min = -2 ^ 127 := rfl
    have hmax : wideRange.max = 2 ^ 127 - 1 := rfl
    simp only [toInt, hmin, hmax]
    cases x with
    | nan => simp [Binary64.truncateClamped]
    | infinite negative => cases negative <;> simp [Binary64.truncateClamped]
    | finite negative units fits =>
      simp only [Binary64.truncateClamped]
      omega

namespace Trapping

variable (target : Target)

/-- Width of a type in bits. -/
def width : Ty → Trapping Int
  | .record r => return u32.wrap (← u64.mul r.size 8)
  | type => return target.width type

/-- Size of a type in bytes. -/
def sizeOf : Ty → Trapping Int
  | .record r => return r.size
  | type => do u32.div (← width target type) 8

/-- The range of an integral scalar. -/
def scalarRange (s : ScalarType) : Trapping IntRange := do
  if s = .bool then return ⟨0, 1⟩
  let bits := target.scalarWidth s
  if target.scalarSigned s then
    let least ← i128.neg (← i128.shl 1 (← u32.sub bits 1))
    let greatest ← i128.sub (← i128.shl 1 (← u32.sub bits 1)) 1
    return ⟨least, greatest⟩
  else
    let greatest ← i128.sub (← i128.shl 1 bits) 1
    return ⟨0, greatest⟩

/-- The range of an integral type. -/
def range? : Ty → Trapping (Option IntRange)
  | .scalar s => do
    if s.isIntegral then return some (← scalarRange target s)
    return none
  | .enumeration e => return some (← scalarRange target e.underlying)
  | .pointer _ | .record _ => return none

/-- The integer that the low bits stand for, which are moved to the top and back. -/
def signExtend (raw bits : Int) : Trapping Int := do
  let high ← u32.sub 128 bits
  i128.shr (← i128.shl raw high) high

/-- So many ones. -/
def mask (bits : Int) : Trapping Int := do
  if bits = 64 then return u64.range.max
  u64.sub (← u64.shl 1 bits) 1

/-- The value of a type with the low bits of an integer. -/
def ofInt (type : Ty) (raw : Int) : Trapping Value := do
  if type.isBool then return ⟨type, .unsigned (if raw = 0 then 0 else 1)⟩
  let bits := max 1 (min 64 (← width target type))
  if target.isSigned type then
    return ⟨type, .signed (.ofInt (← signExtend raw bits))⟩
  else
    return ⟨type, .unsigned (.ofInt raw &&& .ofInt (← mask bits))⟩

/-- The zero of a type. -/
def zero (type : Ty) : Trapping Value :=
  match type with
  | .record r => return .record r 0
  | type =>
    if type.isFloating then return .ofBinary64 type (.zero false) else ofInt target type 0

/-- A value converted to a type. -/
def convert (v : Value) (type : Ty) : Trapping Value :=
  if type.isFloating then return .ofBinary64 type v.toBinary64
  else if type.isBool then return .boolean v.isTruthy
  else ofInt target type v.toInt

/-- The first type of a list that holds a number. -/
def firstHolding (n : Int) : List ScalarType → Trapping ScalarType
  | [] => return .unsignedLongLong
  | s :: rest => do
    if (← scalarRange target s).contains n then return s
    firstHolding n rest

/-- The value of an integer literal. -/
def literal (literal : IntegerLiteral) : Trapping Value := do
  let n := literal.value.toNat
  ofInt target (.scalar (← firstHolding target n literal.candidates)) n

variable {target} {arch : Arch} {type : Ty}

theorem width_eq (ht : type.isTestable) : width target type = pure (target.width type : Int) := by
  cases type <;> first | rfl | cases ht

theorem sizeOf_eq (arch : Arch) (type : Ty) :
    sizeOf (.ofArch arch) type = pure ((Target.ofArch arch).sizeOf type : Int) := by
  by_cases ht : type.isTestable
  · have hbounds := Target.width_bounds arch ht
    have hword : u32.range.contains ((Target.ofArch arch).width type) := by
      rw [IntFormat.contains_u32]
      omega
    have hdiv := IntFormat.div_of_pos (b := 8) (by decide) hword
    cases type with
    | record _ => cases ht
    | scalar _ | enumeration _ | pointer _ => exact hdiv
  · cases type <;> first | rfl | exact absurd rfl ht

theorem scalarRange_eq (hw : target.FitsWord) (s : ScalarType) :
    scalarRange target s = pure (target.scalarRange s) := by
  obtain ⟨h1, h64⟩ := hw s
  have hle {k : Nat} (hk : k ≤ 64) : Nat.pow 2 k ≤ 2 ^ 64 := Nat.pow_le_pow_right (by decide) hk
  have hpos (k : Nat) : 0 < Nat.pow 2 k := Nat.two_pow_pos k
  -- each bound is computed from a power of two that 128 bits hold
  have hpow {k : Nat} (hk : k ≤ 64) : i128.shl 1 k = pure (Nat.pow 2 k : Int) :=
    IntFormat.shl_one (Nat.lt_of_le_of_lt hk (by decide))
      (IntFormat.contains_of_natAbs_le (by simpa using hle hk))
  have hneg {k : Nat} (hk : k ≤ 64) : i128.neg (Nat.pow 2 k : Int) = pure (-Nat.pow 2 k : Int) :=
    IntFormat.neg_eq (IntFormat.contains_of_natAbs_le (by simpa using hle hk))
  have hpred {k : Nat} (hk : k ≤ 64) :
      i128.sub (Nat.pow 2 k : Int) 1 = pure (Nat.pow 2 k - 1 : Int) := by
    have hpow := hle hk
    exact IntFormat.sub_eq (IntFormat.contains_of_natAbs_le (by have := hpos k; omega))
  have hlast :
      u32.sub (target.scalarWidth s) 1 = pure ((target.scalarWidth s - 1 : Nat) : Int) := by
    rw [Int.natCast_sub h1]
    refine IntFormat.sub_eq ?_
    rw [IntFormat.contains_u32]
    omega
  have h63 : target.scalarWidth s - 1 ≤ 64 := by omega
  unfold scalarRange Target.scalarRange
  by_cases hb : s = .bool
  · simp [hb]
  cases hs : target.scalarSigned s
  · simp only [hb, hpow h64, hpred h64, pure_bind, Bool.false_eq_true, ↓reduceIte,
      IntRange.unsigned]
  · simp only [hb, hlast, hpow h63, hneg h63, hpred h63, pure_bind, ↓reduceIte, IntRange.signed]

theorem range?_eq (hw : target.FitsWord) (type : Ty) :
    range? target type = pure (target.range? type) := by
  cases type with
  | scalar s =>
    simp only [range?, scalarRange_eq hw, pure_bind, Target.range?]
    split <;> rfl
  | enumeration e => simp only [range?, scalarRange_eq hw, pure_bind, Target.range?]
  | pointer _ | record _ => rfl

theorem firstHolding_eq (hw : target.FitsWord) (n : Int) (candidates : List ScalarType) :
    firstHolding target n candidates =
      pure ((candidates.find? fun s => (target.scalarRange s).contains n).getD
        .unsignedLongLong) := by
  induction candidates with
  | nil => rfl
  | cons s rest ih =>
    simp only [firstHolding, scalarRange_eq hw, pure_bind, List.find?_cons, ih]
    split <;> simp_all

theorem signExtend_eq {bits : Nat} (h1 : 1 ≤ bits) (h64 : bits ≤ 64) (raw : Int) :
    signExtend raw bits = pure (raw.bmod (Nat.pow 2 bits)) := by
  have hhigh : u32.sub 128 bits = pure ((128 - bits : Nat) : Int) := by
    rw [Int.natCast_sub (by omega)]
    refine IntFormat.sub_eq ?_
    rw [IntFormat.contains_u32]
    omega
  have hlt : 128 - bits < i128.width := by
    change 128 - bits < 128
    omega
  have hwidth : bits + (128 - bits) = i128.width := by
    change bits + (128 - bits) = 128
    omega
  rw [signExtend, hhigh, pure_bind, IntFormat.shl_of_lt hlt, pure_bind, IntFormat.shr_of_lt hlt,
    wrap_mul_div_two_pow rfl h1 hwidth]

theorem mask_eq {bits : Nat} (h64 : bits ≤ 64) : mask bits = pure (Nat.pow 2 bits - 1 : Int) := by
  unfold mask
  split_ifs with hfull
  · obtain rfl : bits = 64 := by omega
    rfl
  · have hpos : 0 < Nat.pow 2 bits := Nat.two_pow_pos bits
    have hle : Nat.pow 2 bits ≤ 2 ^ 63 := Nat.pow_le_pow_right (by decide) (by omega)
    have hlt : bits < u64.width := by
      change bits < 64
      omega
    have hone : u64.range.contains (Nat.pow 2 bits) := by
      rw [IntFormat.contains_u64]
      omega
    have hpred : u64.range.contains (Nat.pow 2 bits - 1) := by
      rw [IntFormat.contains_u64]
      omega
    rw [IntFormat.shl_one hlt hone, pure_bind, IntFormat.sub_eq hpred]

theorem ofInt_eq (ht : type.isTestable) (raw : Int) :
    ofInt (.ofArch arch) type raw = pure (.ofInt (.ofArch arch) type raw) := by
  obtain ⟨h1, h64⟩ := Target.width_bounds arch ht
  simp only [ofInt, Value.ofInt, width_eq ht, pure_bind]
  generalize (Target.ofArch arch).width type = bits at h1 h64
  have hbits : max 1 (min 64 bits) = bits := by omega
  have hcast : max 1 (min 64 (bits : Int)) = bits := by omega
  rw [hbits, hcast, signExtend_eq h1 h64, mask_eq h64, pure_bind, pure_bind, and_mask h64]
  split_ifs <;> rfl

theorem zero_eq (ht : type.isTestable) :
    zero (.ofArch arch) type = pure (.zero (.ofArch arch) type) := by
  cases type with
  | record _ => cases ht
  | scalar _ | enumeration _ | pointer _ =>
    simp only [zero, Value.zero, ofInt_eq ht]
    split <;> rfl

theorem convert_eq (ht : type.isTestable) (v : Value) :
    convert (.ofArch arch) v type = pure (v.convert (.ofArch arch) type) := by
  unfold convert Value.convert
  rw [ofInt_eq ht]
  split_ifs <;> rfl

theorem ofInt_scalar (arch : Arch) (s : ScalarType) (raw : Int) :
    ofInt (.ofArch arch) (.scalar s) raw = pure (.ofInt (.ofArch arch) (.scalar s) raw) :=
  ofInt_eq rfl raw

theorem convert_scalar (arch : Arch) (v : Value) (s : ScalarType) :
    convert (.ofArch arch) v (.scalar s) = pure (v.convert (.ofArch arch) (.scalar s)) :=
  convert_eq rfl v

theorem literal_eq (arch : Arch) (l : IntegerLiteral) :
    literal (.ofArch arch) l = pure (l.toValue (.ofArch arch)) := by
  rw [literal, firstHolding_eq (Target.fitsWord_ofArch arch), pure_bind, ofInt_scalar]
  rfl

end Trapping

end Assay
