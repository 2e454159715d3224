import Assay.Evaluation.Operation
import Mathlib.Data.Int.Bitwise

/-!
# Low bits of integers

Two integers, in two's complement, have the same low bits exactly when they are congruent modulo the
power of two (`dvd_sub_iff_testBit`). So a bitwise operator on words gives the low bits of what it
gives on integers (`dvd_bitwise_sub`), as sums and products do modulo any power up to the width of
a word.
-/

namespace Assay

theorem ofInt_eq_iff_dvd {w : ℕ} {a b : ℤ} :
    BitVec.ofInt w a = BitVec.ofInt w b ↔ (Nat.pow 2 w : ℤ) ∣ a - b := by
  rw [← BitVec.toInt_inj, BitVec.toInt_ofInt, BitVec.toInt_ofInt]
  constructor
  · intro h
    have ha : ((2 ^ w : ℕ) : ℤ) ∣ a.bmod (2 ^ w) - a := Int.dvd_bmod_sub_self
    have hb : ((2 ^ w : ℕ) : ℤ) ∣ b.bmod (2 ^ w) - b := Int.dvd_bmod_sub_self
    have hsub := Int.dvd_sub hb ha
    rw [h, sub_sub_sub_cancel_left] at hsub
    exact hsub
  · rintro ⟨k, hk⟩
    obtain rfl : a = b + (2 ^ w : ℕ) * k := eq_add_of_sub_eq' hk
    exact Int.add_mul_bmod_self_left b (2 ^ w) k

theorem getLsbD_ofInt (w : ℕ) (n : ℤ) (i : ℕ) :
    (BitVec.ofInt w n).getLsbD i = (decide (i < w) && n.testBit i) := by
  cases n with
  | ofNat m => rw [Int.ofNat_eq_natCast, BitVec.ofInt_natCast, BitVec.getLsbD_ofNat]; rfl
  | negSucc m =>
    rw [BitVec.ofInt_negSucc_eq_not_ofNat, BitVec.getLsbD_not, BitVec.getLsbD_ofNat, Int.testBit]
    cases decide (i < w) <;> simp

theorem dvd_sub_iff_testBit {w : ℕ} {a b : ℤ} :
    (Nat.pow 2 w : ℤ) ∣ a - b ↔ ∀ i < w, a.testBit i = b.testBit i := by
  rw [← ofInt_eq_iff_dvd]
  constructor
  · intro h i hi
    have hbit := congrArg (·.getLsbD i) h
    simpa only [getLsbD_ofInt, hi, decide_true, Bool.true_and] using hbit
  · intro h
    refine BitVec.eq_of_getLsbD_eq fun i hi => ?_
    rw [getLsbD_ofInt, getLsbD_ofInt, h i hi]

theorem testBit_toInt {w i : ℕ} (hi : i < w) (x : BitVec w) : x.toInt.testBit i = x.getLsbD i := by
  have h := getLsbD_ofInt w x.toInt i
  rwa [BitVec.ofInt_toInt, decide_eq_true hi, Bool.true_and, eq_comm] at h

/-- An operator that works bit by bit gives the low bits of its operands' low bits. -/
theorem dvd_bitwise_sub {f : BitVec 128 → BitVec 128 → BitVec 128} {g : Bool → Bool → Bool}
    (hf : ∀ x y i, i < 128 → (f x y).getLsbD i = g (x.getLsbD i) (y.getLsbD i)) {w : ℕ}
    (hw : w ≤ 128) {a b m n : ℤ} (ha : (Nat.pow 2 w : ℤ) ∣ a - m) (hb : (Nat.pow 2 w : ℤ) ∣ b - n) :
    (Nat.pow 2 w : ℤ) ∣ Target.bitwise f a b - Int.bitwise g m n := by
  rw [dvd_sub_iff_testBit] at ha hb ⊢
  intro i hi
  have hword : i < 128 := by omega
  rw [Target.bitwise, testBit_toInt hword, hf _ _ i hword, getLsbD_ofInt, getLsbD_ofInt,
    Int.testBit_bitwise, ha i hi, hb i hi]
  simp [hword]

theorem dvd_wrapWide_sub {w : ℕ} (hw : w ≤ 128) (n : ℤ) :
    (Nat.pow 2 w : ℤ) ∣ wrapWide n - n := by
  have hpow : (Nat.pow 2 w : ℤ) ∣ (Nat.pow 2 128 : ℕ) :=
    Int.natCast_dvd_natCast.mpr (pow_dvd_pow 2 hw)
  exact hpow.trans Int.dvd_bmod_sub_self

theorem lnot_eq (n : ℤ) : n.lnot = -n - 1 := by
  cases n <;> simp only [Int.lnot, Int.ofNat_eq_natCast, Int.negSucc_eq] <;> omega

end Assay
