import Assay.Decimal.Shortest
import Mathlib.Algebra.Order.Field.Rat
import Mathlib.Tactic.FieldSimp
import Mathlib.Tactic.Ring

/-!
# Shortest decimals read back

A decimal reads as a double by its value alone (`units_eq_of_value_eq`), and the shortest decimal of
a double reads as that double (`shortest_units`).
-/

namespace Assay

namespace Rounding

variable {precision least num den num' den' : Nat}

theorem roundDiv_mul {c : Nat} (hc : 0 < c) (num den : Nat) :
    roundDiv (c * num) (c * den) = roundDiv num den := by
  have h2 : 2 * (c * (num % den)) = c * (2 * (num % den)) := by ring
  simp only [roundDiv, Nat.mul_div_mul_left _ _ hc, Nat.mul_mod_mul_left, h2,
    Nat.mul_lt_mul_left hc]

theorem roundBits_mul {c : Nat} (hc : 0 < c) (precision least num den : Nat) :
    roundBits precision least (c * num) (c * den) = roundBits precision least num den := by
  have hg : gridExponent precision least (c * num) (c * den) =
      gridExponent precision least num den := by
    unfold gridExponent
    rw [Nat.mul_div_mul_left _ _ hc]
  simp only [roundBits, hg]
  rw [Nat.mul_assoc, roundDiv_mul hc]

/-- Rounding depends on the quotient alone. -/
theorem roundBits_congr (hd : 0 < den) (hd' : 0 < den') (h : num * den' = num' * den) :
    roundBits precision least num den = roundBits precision least num' den' := by
  rw [← roundBits_mul hd', ← roundBits_mul hd precision least num', Nat.mul_comm den' num, h,
    Nat.mul_comm num' den, Nat.mul_comm den' den]

theorem roundBits_zero : roundBits precision least 0 den = 0 := by
  simp [roundBits, roundDiv]

/-- A number that lies on its grid is its own rounding. -/
theorem roundBits_one_of_dvd (h : Nat.pow 2 (gridExponent precision least num 1) ∣ num) :
    roundBits precision least num 1 = num := by
  have hpos : 0 < Nat.pow 2 (gridExponent precision least num 1) := Nat.two_pow_pos _
  simp only [roundBits, roundDiv, Nat.one_mul, Nat.mod_eq_zero_of_dvd h, Nat.mul_zero, hpos,
    ↓reduceIte]
  exact Nat.div_mul_cancel h

end Rounding

theorem Representable.roundBits {units : Nat} (h : Representable units) :
    Rounding.roundBits 53 0 units 1 = units := by
  obtain ⟨-, m, k, hm, rfl⟩ := h
  apply Rounding.roundBits_one_of_dvd
  rcases Nat.eq_zero_or_pos m with rfl | hpos
  · simp
  have hne : m * Nat.pow 2 k ≠ 0 := Nat.mul_ne_zero hpos.ne' (Nat.two_pow_pos k).ne'
  have hlog : (m * Nat.pow 2 k).log2 < 53 + k := by
    rw [Nat.log2_lt hne, Nat.pow_add]
    exact Nat.mul_lt_mul_of_pos_right hm (Nat.two_pow_pos k)
  refine Dvd.dvd.mul_left (pow_dvd_pow 2 ?_) m
  simp only [Rounding.gridExponent, Nat.div_one]
  omega

namespace Decimal

/-- The number that the decimal denotes. -/
def value (d : Decimal) : ℚ := d.digits * 10 ^ d.exponent

theorem denominator_pos (d : Decimal) : 0 < d.denominator := Nat.pow_pos (by decide)

theorem value_eq_div (d : Decimal) : d.value = d.numerator / d.denominator := by
  obtain ⟨n, hn | hn⟩ := d.exponent.eq_nat_or_neg <;>
    simp [value, numerator, denominator, hn, div_eq_mul_inv]

theorem units_eq_of_value_eq {d d' : Decimal} (h : d.value = d'.value) : d.units = d'.units := by
  rw [value_eq_div, value_eq_div, div_eq_div_iff (by exact_mod_cast d.denominator_pos.ne')
    (by exact_mod_cast d'.denominator_pos.ne')] at h
  have hn : d.numerator * d'.denominator = d'.numerator * d.denominator := by exact_mod_cast h
  refine Rounding.roundBits_congr d.denominator_pos d'.denominator_pos ?_
  rw [Nat.mul_right_comm, hn, Nat.mul_right_comm]

theorem units_of_digits_eq_zero {d : Decimal} (h : d.digits = 0) : d.units = 0 := by
  rw [units, numerator, h, Nat.zero_mul, Nat.zero_mul, Rounding.roundBits_zero]

theorem value_trimmed_go (digits : Nat) (exponent : Int) :
    (trimmed.go digits exponent).value = (⟨digits, exponent⟩ : Decimal).value := by
  induction digits, exponent using trimmed.go.induct with
  | case1 digits exponent h ih =>
    rw [trimmed.go, dif_pos h, ih]
    obtain ⟨k, hk⟩ := Nat.dvd_of_mod_eq_zero h.2
    have hdiv : digits / 10 = k := by omega
    simp only [value, hdiv]
    rw [hk, zpow_add_one₀ (by norm_num)]
    push_cast
    ring
  | case2 digits exponent h => rw [trimmed.go, dif_neg h]

theorem value_trimmed (d : Decimal) : d.trimmed.value = d.value := value_trimmed_go _ _

theorem exact_units {units : Nat} (h : Representable units) : (exact units).units = units := by
  have hten (k : Nat) : units * Nat.pow 5 k * Nat.pow 10 0 * Nat.pow 2 k * 1 =
      units * Nat.pow 10 k := by
    have h10 : Nat.pow 10 k = Nat.pow 5 k * Nat.pow 2 k := Nat.mul_pow 5 2 k
    rw [h10]
    change units * Nat.pow 5 k * 1 * Nat.pow 2 k * 1 = _
    ring
  have hr : (exact units).units = Rounding.roundBits 53 0 units 1 := by
    refine Rounding.roundBits_congr (denominator_pos _) Nat.one_pos ?_
    -- the exponent stays a variable, so that no power is computed
    unfold exact numerator denominator Binary64.unitsPerOne
    generalize hk : (1074 : Nat) = k
    rw [show (1074 : Int) = (k : Int) by rw [← hk]; rfl]
    simpa using hten k
  exact hr.trans h.roundBits

/-- The shortest decimal of a double reads as that double. -/
theorem shortest_units {units : Nat} (h : Representable units) :
    (shortest units).units = units := by
  simp only [shortest]
  rw [units_eq_of_value_eq (value_trimmed _)]
  rcases hf : List.findSome? _ _ with _ | d
  · exact exact_units h
  · obtain ⟨grid, -, hd⟩ := List.exists_of_findSome?_eq_some hf
    simpa using List.find?_some hd

end Decimal

end Assay
