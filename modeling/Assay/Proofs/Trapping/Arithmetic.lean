import Assay.Proofs.Value.WellFormed
import Mathlib.Algebra.Group.Nat.Defs

/-!
# Integer arithmetic of a machine

A machine's integers have a format. An operation whose result the format cannot hold, a zero divisor
and a shift by the width or more stop the machine; operators that wrap reduce their result to the
format instead, and are stopped by a zero divisor only. Each operation has one law, which says that
inside its domain it gives the result of the integers.
-/

namespace Assay

/-- Why an operation stops the machine. -/
inductive Trap
  | overflow
  | zeroDivisor
  | shiftAmount
  /-- The overflow of a distance of two pointers, told apart from that of any other operation. -/
  | distance
deriving DecidableEq

/-- A computation that the machine may stop. -/
abbrev Trapping := Except Trap

/-- The format of machine integers. -/
structure IntFormat where
  isSigned : Bool
  width : Nat
  width_pos : 0 < width := by decide

namespace IntFormat

def i128 : IntFormat := { isSigned := true, width := 128 }
def i64 : IntFormat := { isSigned := true, width := 64 }
def u64 : IntFormat := { isSigned := false, width := 64 }
def u32 : IntFormat := { isSigned := false, width := 32 }

/-- The integers that the format holds. -/
def range (format : IntFormat) : IntRange :=
  if format.isSigned then .signed format.width else .unsigned format.width

/-- The integer of the format with the same low bits. -/
def wrap (format : IntFormat) (n : Int) : Int :=
  if format.isSigned then n.bmod (Nat.pow 2 format.width) else n.emod (Nat.pow 2 format.width)

variable (format : IntFormat)

/-- A result, which the format has to hold. -/
def exact (n : Int) : Trapping Int := if format.range.contains n then pure n else .error .overflow

def add (a b : Int) : Trapping Int := format.exact (a + b)

def sub (a b : Int) : Trapping Int := format.exact (a - b)

def mul (a b : Int) : Trapping Int := format.exact (a * b)

def neg (a : Int) : Trapping Int := format.exact (-a)

/-- The quotient, rounded toward zero. -/
def div (a b : Int) : Trapping Int :=
  if b = 0 then .error .zeroDivisor else format.exact (a.tdiv b)

/-- The remainder with the sign of the dividend. It overflows where the quotient does. -/
def rem (a b : Int) : Trapping Int := do
  let _ ← format.div a b
  return a.tmod b

/-- The remainder that is not negative. It overflows where the quotient does. -/
def remEuclid (a b : Int) : Trapping Int := do
  let _ ← format.div a b
  return a % b

def wrappingDiv (a b : Int) : Trapping Int :=
  if b = 0 then .error .zeroDivisor else pure (format.wrap (a.tdiv b))

def wrappingRem (a b : Int) : Trapping Int :=
  if b = 0 then .error .zeroDivisor else pure (format.wrap (a.tmod b))

/-- The bits moved to the left; those moved out are lost. -/
def shl (a amount : Int) : Trapping Int :=
  if 0 ≤ amount ∧ amount < format.width then pure (format.wrap (a * Nat.pow 2 amount.toNat))
  else .error .shiftAmount

/-- The bits moved to the right, with copies of the sign. -/
def shr (a amount : Int) : Trapping Int :=
  if 0 ≤ amount ∧ amount < format.width then pure (a / Nat.pow 2 amount.toNat)
  else .error .shiftAmount

variable {format} {a b n : Int} {k : Nat}

@[simp] theorem wrap_i64 (n : Int) : i64.wrap n = n.bmod UInt64.size := rfl

theorem contains_i128 : i128.range.contains n ↔ -2 ^ 127 ≤ n ∧ n < 2 ^ 127 :=
  wideRange_contains_iff

theorem contains_u64 : u64.range.contains n ↔ 0 ≤ n ∧ n < 2 ^ 64 := by
  rw [IntRange.contains_iff]
  change 0 ≤ n ∧ n ≤ 2 ^ 64 - 1 ↔ _
  omega

theorem contains_u32 : u32.range.contains n ↔ 0 ≤ n ∧ n < 2 ^ 32 := by
  rw [IntRange.contains_iff]
  change 0 ≤ n ∧ n ≤ 2 ^ 32 - 1 ↔ _
  omega

/-- The integers of a word and their negatives are few among those of 128 bits. -/
theorem contains_of_natAbs_le (h : n.natAbs ≤ 2 ^ 64) : i128.range.contains n := by
  rw [contains_i128]
  omega

theorem wrap_eq_self (h : format.range.contains n) : format.wrap n = n := by
  obtain ⟨k, hk⟩ := Nat.exists_eq_add_of_le' format.width_pos
  have hpow : Nat.pow 2 (k + 1) = Nat.pow 2 k * 2 := rfl
  unfold range at h
  unfold wrap
  rw [hk] at h ⊢
  rw [hpow]
  split_ifs at h ⊢ with hsigned <;> rw [IntRange.contains_iff] at h
  · simp only [IntRange.signed, Nat.add_sub_cancel] at h
    exact Int.bmod_eq_of_le (by omega) (by omega)
  · simp only [IntRange.unsigned, hpow] at h
    exact Int.emod_eq_of_lt h.1 (by omega)

theorem contains_wrap (format : IntFormat) (n : Int) : format.range.contains (format.wrap n) := by
  unfold range wrap
  split
  · exact IntRange.signed_contains_bmod format.width_pos n
  · exact IntRange.unsigned_contains_emod _ n

/-- The range holds zero, and so what lies between zero and what it holds. -/
theorem contains_between (hn : format.range.contains n) (h : 0 ≤ a ∧ a ≤ n ∨ n ≤ a ∧ a ≤ 0) :
    format.range.contains a := by
  have hpos : 0 < Nat.pow 2 format.width := Nat.two_pow_pos _
  have hhalf : 0 < Nat.pow 2 (format.width - 1) := Nat.two_pow_pos _
  refine IntRange.contains_between ?_ ?_ hn h <;> unfold range <;> split <;>
    simp only [IntRange.signed, IntRange.unsigned] <;> omega

theorem exact_eq (h : format.range.contains n) : format.exact n = pure n := if_pos h

theorem add_eq (h : format.range.contains (a + b)) : format.add a b = pure (a + b) := exact_eq h

theorem sub_eq (h : format.range.contains (a - b)) : format.sub a b = pure (a - b) := exact_eq h

theorem sub_of_not_contains (h : ¬ format.range.contains (a - b)) :
    format.sub a b = .error .overflow :=
  if_neg h

theorem neg_eq (h : format.range.contains (-a)) : format.neg a = pure (-a) := exact_eq h

theorem div_of_pos (hb : 0 < b) (ha : format.range.contains a) :
    format.div a b = pure (a.tdiv b) := by
  have hb' := Int.le_of_lt hb
  have hquotient : format.range.contains (a.tdiv b) := by
    refine contains_between ha ?_
    rcases Int.le_total 0 a with h | h
    · exact .inl ⟨Int.tdiv_nonneg h hb', Int.tdiv_le_self b h⟩
    · have hneg : 0 ≤ -a := by omega
      have hnonneg := Int.tdiv_nonneg hneg hb'
      have hle := Int.tdiv_le_self b hneg
      rw [Int.neg_tdiv] at hnonneg hle
      exact .inr ⟨by omega, by omega⟩
  rw [div, if_neg (Int.ne_of_gt hb), exact_eq hquotient]

theorem rem_of_pos (hb : 0 < b) (ha : format.range.contains a) :
    format.rem a b = pure (a.tmod b) := by
  rw [rem, div_of_pos hb ha, pure_bind]

theorem remEuclid_of_pos (hb : 0 < b) (ha : format.range.contains a) :
    format.remEuclid a b = pure (a % b) := by
  rw [remEuclid, div_of_pos hb ha, pure_bind]

theorem wrappingDiv_of_ne (hb : b ≠ 0) : format.wrappingDiv a b = pure (format.wrap (a.tdiv b)) :=
  if_neg hb

theorem wrappingRem_of_ne (hb : b ≠ 0) (ha : format.range.contains a) :
    format.wrappingRem a b = pure (a.tmod b) := by
  have hrest : format.range.contains (a.tmod b) := by
    have hle := Int.natAbs_tmod a b ▸ Nat.mod_le a.natAbs b.natAbs
    refine contains_between ha ?_
    rcases Int.le_total 0 a with h | h
    · have := Int.tmod_nonneg b h
      omega
    · have := Int.tmod_nonneg b (show 0 ≤ -a by omega)
      rw [Int.neg_tmod] at this
      omega
  rw [wrappingRem, if_neg hb, wrap_eq_self hrest]

theorem shl_of_lt (hk : k < format.width) :
    format.shl a k = pure (format.wrap (a * Nat.pow 2 k)) :=
  if_pos ⟨Int.natCast_nonneg k, Int.ofNat_lt.mpr hk⟩

theorem shr_of_lt (hk : k < format.width) : format.shr a k = pure (a / Nat.pow 2 k) :=
  if_pos ⟨Int.natCast_nonneg k, Int.ofNat_lt.mpr hk⟩

/-- A bit moved within the format gives a power of two. -/
theorem shl_one (hk : k < format.width) (h : format.range.contains (Nat.pow 2 k)) :
    format.shl 1 k = pure (Nat.pow 2 k : Int) := by
  rw [shl_of_lt hk, Int.one_mul, wrap_eq_self h]

end IntFormat

/-- Scaling an integer and an even modulus scales the balanced residue. -/
theorem bmod_mul_two_mul {c : Nat} (hc : 0 < c) (n : Int) (half : Nat) :
    (n * c).bmod (2 * half * c) = n.bmod (2 * half) * c := by
  have hpos : (0 : Int) < c := Int.natCast_pos.mpr hc
  have hmod : n * c % ((2 * half * c : Nat) : Int) = n % (2 * half : Nat) * c := by
    rw [Int.natCast_mul, Int.mul_comm n, Int.mul_comm _ (c : Int),
      Int.mul_emod_mul_of_pos _ _ hpos, Int.mul_comm]
  have hmid : (((2 * half * c : Nat) : Int) + 1) / 2 = half * c := by
    rw [Nat.mul_assoc]
    push_cast
    omega
  have hmid' : (((2 * half : Nat) : Int) + 1) / 2 = half := by omega
  rw [Int.bmod_def, Int.bmod_def, hmod, hmid, hmid']
  by_cases h : n % (2 * half : Nat) < half
  · rw [if_pos h, if_pos (Int.mul_lt_mul_of_pos_right h hpos)]
  · have hle := Int.mul_le_mul_of_nonneg_right (Int.not_lt.mp h) (Int.le_of_lt hpos)
    rw [if_neg h, if_neg (Int.not_lt.mpr hle), Int.sub_mul, Int.natCast_mul (2 * half)]

/-- Moved to the left until only so many low bits are left, and back again, an integer is the one
that its low bits stand for. -/
theorem wrap_mul_div_two_pow {format : IntFormat} (hsigned : format.isSigned) {low high : Nat}
    (hlow : 1 ≤ low) (hwidth : low + high = format.width) (n : Int) :
    format.wrap (n * Nat.pow 2 high) / Nat.pow 2 high = n.bmod (Nat.pow 2 low) := by
  have hpos : 0 < Nat.pow 2 high := Nat.two_pow_pos high
  obtain ⟨k, rfl⟩ := Nat.exists_eq_add_of_le' hlow
  have hpow : Nat.pow 2 (k + 1) = 2 * Nat.pow 2 k := Nat.pow_succ'
  have hfull : Nat.pow 2 format.width = Nat.pow 2 (k + 1) * Nat.pow 2 high := by
    rw [← hwidth]
    exact Nat.pow_add 2 (k + 1) high
  rw [IntFormat.wrap, if_pos hsigned, hfull, hpow, bmod_mul_two_mul hpos]
  exact Int.mul_ediv_cancel _ (by omega)

/-- The mask with so many ones keeps that many low bits of a word. -/
theorem and_mask {bits : Nat} (hbits : bits ≤ 64) (n : Int) :
    UInt64.ofInt n &&& UInt64.ofInt (Nat.pow 2 bits - 1) =
      UInt64.ofNat (n.emod (Nat.pow 2 bits)).toNat := by
  have hpos : 0 < Nat.pow 2 bits := Nat.two_pow_pos bits
  have hle : Nat.pow 2 bits ≤ 2 ^ 64 := Nat.pow_le_pow_right (by decide) hbits
  have hmask : ((Nat.pow 2 bits - 1 : Int) % (2 ^ 64 : Nat)).toNat = Nat.pow 2 bits - 1 := by
    rw [Int.emod_eq_of_lt (by omega) (by omega)]
    omega
  have hlow : (n % (2 ^ 64 : Nat)).toNat % Nat.pow 2 bits = (n % Nat.pow 2 bits).toNat := by
    have hdvd : (Nat.pow 2 bits : Int) ∣ (2 ^ 64 : Nat) :=
      Int.natCast_dvd_natCast.mpr (Nat.pow_dvd_pow 2 hbits)
    rw [← Int.emod_emod_of_dvd n hdvd, Int.toNat_emod (Int.emod_nonneg n (by decide)) (by omega)]
    rfl
  have hword (m : Int) : (m % (2 ^ 64 : Nat)).toNat < 2 ^ 64 := by omega
  have hrest : (n % Nat.pow 2 bits).toNat < 2 ^ 64 := by
    have := Int.emod_lt_of_pos n (Int.natCast_pos.mpr hpos)
    omega
  apply UInt64.toNat_inj.mp
  rw [UInt64.toNat_and]
  change (UInt64.ofNat (n % (2 ^ 64 : Nat)).toNat).toNat
    &&& (UInt64.ofNat ((Nat.pow 2 bits - 1 : Int) % (2 ^ 64 : Nat)).toNat).toNat
    = (UInt64.ofNat (n % Nat.pow 2 bits).toNat).toNat
  rw [UInt64.toNat_ofNat_of_lt' (hword n), UInt64.toNat_ofNat_of_lt' (hword _), hmask,
    UInt64.toNat_ofNat_of_lt' hrest]
  exact (Nat.and_two_pow_sub_one_eq_mod _ bits).trans hlow

end Assay
