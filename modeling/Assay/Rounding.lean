/-!
# Rounding to nearest

A quotient of naturals is rounded to a whole number, and to a number of significant bits; a tie
goes to the even neighbour. Rounding to `p` bits gives a number `m * 2 ^ k` with `m < 2 ^ p`
(`exists_roundBits_eq`).
-/

namespace Assay.Rounding

/-- The whole number nearest to `num / den`; a tie goes to the even one. -/
def roundDiv (num den : Nat) : Nat :=
  let quotient := num / den
  let rest := 2 * (num % den)
  if rest < den then quotient
  else if den < rest then quotient + 1
  else quotient + quotient % 2

/-- The exponent of the grid on which `num / den` keeps at most `precision` significant bits, no
finer than `2 ^ least`. -/
def gridExponent (precision least num den : Nat) : Nat :=
  max least ((num / den).log2 + 1 - precision)

/-- `num / den` rounded to `precision` significant bits, and to a multiple of `2 ^ least`. -/
def roundBits (precision least num den : Nat) : Nat :=
  let step := Nat.pow 2 (gridExponent precision least num den)
  roundDiv num (den * step) * step

theorem roundDiv_le (num den : Nat) : roundDiv num den ≤ num / den + 1 := by
  simp only [roundDiv]
  split
  · omega
  · split <;> omega

theorem le_roundDiv (num den : Nat) : num / den ≤ roundDiv num den := by
  simp only [roundDiv]
  split
  · omega
  · split <;> omega

/-- A whole number is its own nearest one. -/
theorem roundDiv_one (n : Nat) : roundDiv n 1 = n := by
  simp [roundDiv, Nat.mod_one]

/-- The quotient has at most `precision` bits above its grid. -/
theorem div_lt_two_pow_add_gridExponent (precision least num den : Nat) :
    num / den < Nat.pow 2 (precision + gridExponent precision least num den) :=
  Nat.lt_of_lt_of_le Nat.lt_log2_self
    (Nat.pow_le_pow_right (by decide) (by unfold gridExponent; omega))

/-- What rounding to `precision` bits returns has at most that many significant bits. -/
theorem exists_roundBits_eq {precision : Nat} (positive : 0 < precision) (least num den : Nat) :
    ∃ m k, m < Nat.pow 2 precision ∧ roundBits precision least num den = m * Nat.pow 2 k := by
  generalize hk : gridExponent precision least num den = k
  have split : Nat.pow 2 (precision + k) = Nat.pow 2 precision * Nat.pow 2 k :=
    Nat.pow_add 2 precision k
  have step_pos : 0 < Nat.pow 2 k := Nat.two_pow_pos k
  have bound : num / (den * Nat.pow 2 k) < Nat.pow 2 precision := by
    rw [← Nat.div_div_eq_div_mul, Nat.div_lt_iff_lt_mul step_pos, ← split, ← hk]
    exact div_lt_two_pow_add_gridExponent precision least num den
  have upper := roundDiv_le num (den * Nat.pow 2 k)
  have value :
      roundBits precision least num den = roundDiv num (den * Nat.pow 2 k) * Nat.pow 2 k := by
    rw [roundBits, hk]
  rcases Nat.lt_or_ge (roundDiv num (den * Nat.pow 2 k)) (Nat.pow 2 precision) with small | carried
  · exact ⟨_, k, small, value⟩
  · refine ⟨1, precision + k, Nat.one_lt_two_pow (by omega), ?_⟩
    have full : roundDiv num (den * Nat.pow 2 k) = Nat.pow 2 precision := by omega
    rw [value, full, Nat.one_mul, split]

end Assay.Rounding
