import Assay.Binary64.Arithmetic
import Assay.Proofs.Binary64.Order
import Assay.Proofs.Decimal.ReadBack

/-!
# Products of doubles

What a double can hold exactly is not rounded (`ofUnits_mul_right`). So one is neutral, its powers
are one, and a product with a zero is not positive.
-/

namespace Assay.Binary64

/-- The exponents stay variables, so that no power is computed. -/
theorem exists_unitsPerOne_eq :
    ∃ k w, k < w ∧ unitsPerOne = Nat.pow 2 k ∧ unitsLimit = Nat.pow 2 w := by
  unfold unitsPerOne unitsLimit
  exact ⟨_, _, by decide, rfl, rfl⟩

theorem unitsPerOne_pos : 0 < unitsPerOne := by
  obtain ⟨k, -, -, hone, -⟩ := exists_unitsPerOne_eq
  rw [hone]
  exact Nat.two_pow_pos k

theorem unitsLimit_pos : 0 < unitsLimit := by
  obtain ⟨-, w, -, -, hlimit⟩ := exists_unitsPerOne_eq
  rw [hlimit]
  exact Nat.two_pow_pos w

theorem representable_unitsPerOne : Representable unitsPerOne := by
  obtain ⟨k, w, hkw, hone, hlimit⟩ := exists_unitsPerOne_eq
  refine ⟨?_, 1, k, by decide, ?_⟩
  · rw [hone, hlimit]
    exact Nat.pow_lt_pow_right (by decide) hkw
  · rw [hone, Nat.one_mul]

theorem ofUnits_mul_right {units : Nat} (fits : Representable units) {c : Nat} (hc : 0 < c)
    (negative : Bool) : ofUnits negative (units * c) c = finite negative units fits := by
  have hr : Rounding.roundBits 53 0 (units * c) c = units := by
    have hcongr : Rounding.roundBits 53 0 (units * c) c = Rounding.roundBits 53 0 units 1 :=
      Rounding.roundBits_congr hc Nat.one_pos (Nat.mul_one _)
    rw [hcongr, fits.roundBits]
  unfold ofUnits
  simp only [hr, fits.1, ↓reduceDIte]

theorem ofUnits_one {units : Nat} (fits : Representable units) (negative : Bool) :
    ofUnits negative units 1 = finite negative units fits := by
  have h := ofUnits_mul_right fits Nat.one_pos negative
  rwa [Nat.mul_one] at h

theorem ofUnits_zero (negative : Bool) (den : Nat) : ofUnits negative 0 den = zero negative := by
  unfold ofUnits
  simp only [Rounding.roundBits_zero, unitsLimit_pos, ↓reduceDIte]
  rfl

theorem one_eq : (1 : Binary64) = finite false unitsPerOne representable_unitsPerOne := by
  rw [show (1 : Binary64) = ofRatio false 1 1 from rfl, ofRatio, Nat.one_mul,
    ofUnits_one representable_unitsPerOne]

theorem zero_eq : (0 : Binary64) = zero false := by
  rw [show (0 : Binary64) = ofRatio false 0 1 from rfl, ofRatio, Nat.zero_mul, ofUnits_zero]

theorem rank?_zero : (0 : Binary64).rank? = some 0 := by
  rw [zero_eq]
  rfl

theorem mul_finite {s t : Bool} {a b : Nat} (ha : Representable a) (hb : Representable b) :
    finite s a ha * finite t b hb = ofUnits (s != t) (a * b) unitsPerOne := by
  change mul (finite s a ha) (finite t b hb) = _
  rw [mul]

theorem mul_one {x : Binary64} (h : x.isFinite) : x * 1 = x := by
  cases x with
  | nan => cases h
  | infinite negative => cases h
  | finite negative units fits =>
    rw [one_eq, mul_finite, Bool.bne_false, ofUnits_mul_right fits unitsPerOne_pos]

theorem one_mul_one : (1 : Binary64) * 1 = 1 := mul_one (by rw [one_eq]; rfl)

/-- The squares and the products on the way are all one. -/
theorem power_go_one (n : Nat) : power.go 1 1 n = 1 := by
  induction n using Nat.strongRecOn with
  | ind n ih =>
    rw [power.go]
    simp only [one_mul_one, ite_self]
    split
    · rfl
    · exact ih (n / 2) (by omega)

theorem one_power (n : Nat) : (1 : Binary64).power n = 1 := power_go_one n

theorem power_zero (x : Binary64) : x.power 0 = 1 := by
  rw [power, power.go]
  rfl

theorem eq_zero_of_beq {x : Binary64} (h : (x == 0) = true) : ∃ negative, x = zero negative := by
  cases x with
  | nan => cases h
  | infinite negative =>
    have hrank := (beq_iff (x := infinite negative) rfl rank?_zero).mp h
    have hlt := unitsLimit_pos
    cases negative <;> simp only [signed, Bool.false_eq_true, ↓reduceIte] at hrank <;> omega
  | finite negative units fits =>
    have hrank := (beq_iff (x := finite negative units fits) rfl rank?_zero).mp h
    have hu : units = 0 := by
      cases negative <;> simp only [signed, Bool.false_eq_true, ↓reduceIte] at hrank <;> omega
    subst hu
    exact ⟨negative, rfl⟩

theorem add_finite {s t : Bool} {a b : Nat} (ha : Representable a) (hb : Representable b) :
    finite s a ha + finite t b hb =
      if signed s a + signed t b = 0 then zero (s && t)
      else ofUnits (signed s a + signed t b < 0) (signed s a + signed t b).natAbs 1 :=
  rfl

theorem sub_eq_add_neg (x y : Binary64) : x - y = x + -y := rfl

theorem neg_finite {s : Bool} {a : Nat} (ha : Representable a) :
    -finite s a ha = finite (!s) a ha :=
  rfl

theorem sub_zero {units : Nat} (fits : Representable units) (hpos : 0 < units) (negative : Bool) :
    finite false units fits - zero negative = finite false units fits := by
  have hsum : signed false units + signed (!negative) 0 = (units : Int) := by
    cases negative <;> simp [signed]
  have hne : (units : Int) ≠ 0 := by omega
  have hnn : ¬ (units : Int) < 0 := by omega
  rw [sub_eq_add_neg, zero, neg_finite, add_finite, hsum, if_neg hne, decide_eq_false hnn,
    Int.natAbs_natCast, ofUnits_one fits]

theorem one_sub_zero (negative : Bool) : 1 - zero negative = 1 := by
  rw [one_eq, sub_zero _ unitsPerOne_pos]

theorem not_zero_lt_zero (negative : Bool) : lt 0 (zero negative) = false := by
  rw [Bool.eq_false_iff]
  intro h
  have hrank := (lt_iff rank?_zero (y := zero negative) rfl).mp h
  cases negative <;> simp only [signed, Bool.false_eq_true, ↓reduceIte] at hrank <;> omega

theorem not_zero_lt_self : lt 0 0 = false := by
  have h := not_zero_lt_zero false
  rwa [← zero_eq] at h

theorem not_zero_lt_zero_mul (negative : Bool) (x : Binary64) :
    lt 0 (zero negative * x) = false := by
  cases x with
  | nan => rw [zero_eq]; rfl
  | infinite s => rw [zero_eq]; rfl
  | finite s units fits =>
    rw [zero, mul_finite, Nat.zero_mul, ofUnits_zero, not_zero_lt_zero]

end Assay.Binary64
