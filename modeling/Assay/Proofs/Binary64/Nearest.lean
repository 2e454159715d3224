import Assay.Proofs.Decimal.ReadBack
import Mathlib.Algebra.Order.Ring.Abs
import Mathlib.Tactic.Linarith

/-!
# The nearest number

Rounding a natural to so many significant bits gives the nearest number of so many bits, and of two
that are equally near the one whose last bit is zero (`isNearest_roundBits`). It does not pass a
number of so many bits (`roundBits_le`), which lies on the grid of everything below it
(`grid_dvd`).
-/

namespace Assay.Rounding

variable {precision num den m k : ℕ}

/-- The number has at most so many significant bits. -/
def Precise (precision : ℕ) (q : ℚ) : Prop := ∃ a k : ℤ, |a| < 2 ^ precision ∧ q = a * 2 ^ k

/-- `s` is the nearest number to `x` among those of so many significant bits. Where another one is
as near, the last bit of `s` is zero, so that one bit fewer is enough for `s`. -/
structure IsNearest (precision : ℕ) (x s : ℚ) : Prop where
  precise : Precise precision s
  nearer : ∀ t, Precise precision t → t ≠ s →
    |s - x| < |t - x| ∨ |s - x| = |t - x| ∧ Precise (precision - 1) s

theorem Precise.neg {q : ℚ} (h : Precise precision q) : Precise precision (-q) := by
  obtain ⟨a, k, ha, rfl⟩ := h
  exact ⟨-a, k, by rwa [abs_neg], by push_cast; ring⟩

/-- Carrying into the next bit takes no further bit. -/
theorem precise_of_le (hp : 0 < precision) {a : ℕ} (h : a ≤ 2 ^ precision) (k : ℕ) :
    Precise precision ((a * 2 ^ k : ℕ) : ℚ) := by
  rcases Nat.lt_or_eq_of_le h with hlt | rfl
  · exact ⟨a, k, by rw [Nat.abs_cast]; exact_mod_cast hlt, by push_cast; rfl⟩
  · refine ⟨1, (precision + k : ℕ), ?_, by push_cast; rw [zpow_add₀ two_ne_zero]; simp⟩
    rw [abs_one]
    exact one_lt_pow₀ one_lt_two hp.ne'

/-- The numbers on the other side of zero are as near to each other. -/
theorem isNearest_neg {x s : ℚ} : IsNearest precision (-x) (-s) ↔ IsNearest precision x s := by
  suffices h : ∀ {x s : ℚ}, IsNearest precision x s → IsNearest precision (-x) (-s) from
    ⟨fun h' => by simpa using h h', h⟩
  intro x s h
  refine ⟨h.precise.neg, fun t ht hne => ?_⟩
  have hsx : |-s - -x| = |s - x| := by rw [neg_sub_neg, abs_sub_comm]
  have htx : |t - -x| = |-t - x| := by rw [← abs_neg]; ring_nf
  rw [hsx, htx]
  exact (h.nearer (-t) ht.neg fun heq => hne (by rw [← heq, neg_neg])).imp_right
    (And.imp_right Precise.neg)

/-! ## Grids -/

/-- A number is a multiple of the last of so many bits of every power of two that it reaches. -/
theorem Precise.exists_multiple {t : ℚ} (ht : Precise precision t) {k : ℕ}
    (h : 2 ^ (precision + k) ≤ 2 * t) : ∃ b : ℤ, t = b * 2 ^ k := by
  obtain ⟨a, j, ha, rfl⟩ := ht
  have hupper : (a : ℚ) * 2 ^ j < 2 ^ (precision : ℤ) * 2 ^ j := by
    have hlt : (a : ℚ) < 2 ^ precision := by exact_mod_cast (le_abs_self a).trans_lt ha
    rw [zpow_natCast]
    exact mul_lt_mul_of_pos_right hlt (zpow_pos two_pos j)
  rw [← zpow_add₀ (two_ne_zero : (2 : ℚ) ≠ 0)] at hupper
  have hpow : (2 : ℚ) ^ ((precision + k : ℕ) : ℤ) < 2 ^ ((precision : ℤ) + j + 1) := by
    rw [zpow_natCast, zpow_add_one₀ (two_ne_zero : (2 : ℚ) ≠ 0)]
    linarith
  have hexponents := (zpow_lt_zpow_iff_right₀ (one_lt_two : (1 : ℚ) < 2)).mp hpow
  obtain ⟨i, hi⟩ := Int.eq_ofNat_of_zero_le (by omega : 0 ≤ j - k)
  obtain rfl : j = i + k := by omega
  refine ⟨a * 2 ^ i, ?_⟩
  rw [zpow_add₀ (two_ne_zero : (2 : ℚ) ≠ 0), zpow_natCast, zpow_natCast]
  push_cast
  ring

/-- Past its first bits a number lies in the upper half of what its bits and its grid reach. -/
theorem two_pow_le_of_gridExponent (hp : 0 < precision)
    (h : gridExponent precision 0 num den = k + 1) :
    2 ^ (precision + (k + 1)) ≤ 2 * (num / den) := by
  have hlog : (num / den).log2 + 1 = precision + (k + 1) := by
    unfold gridExponent at h
    generalize (num / den).log2 = l at h ⊢
    omega
  have hne : num / den ≠ 0 := by
    intro hzero
    rw [hzero, Nat.log2_zero] at hlog
    omega
  rw [← hlog, Nat.pow_succ, Nat.mul_comm]
  exact Nat.mul_le_mul_left 2 (Nat.log2_self_le hne)

/-- A number of so many bits lies on the grid of every quotient that it reaches. -/
theorem grid_dvd (hp : 0 < precision) {u : ℕ} (hu : Precise precision u) (h : num / den ≤ u) :
    2 ^ gridExponent precision 0 num den ∣ u := by
  rcases hk : gridExponent precision 0 num den with _ | k
  · simp
  have hle : 2 ^ (precision + (k + 1)) ≤ 2 * u :=
    (two_pow_le_of_gridExponent hp hk).trans (Nat.mul_le_mul_left 2 h)
  obtain ⟨b, hb⟩ := hu.exists_multiple (by exact_mod_cast hle)
  have hdvd : ((2 ^ (k + 1) : ℕ) : ℤ) ∣ u := ⟨b, by exact_mod_cast hb.trans (mul_comm _ _)⟩
  exact Int.natCast_dvd_natCast.mp hdvd

/-! ## Quotients -/

theorem roundBits_eq (precision least num den : ℕ) :
    roundBits precision least num den =
      roundDiv num (den * 2 ^ gridExponent precision least num den) *
        2 ^ gridExponent precision least num den :=
  rfl

theorem roundDiv_le_of_le {b : ℕ} (hd : 0 < den) (h : num ≤ b * den) : roundDiv num den ≤ b := by
  have hdiv : num / den ≤ b := Nat.div_le_of_le_mul (by rwa [Nat.mul_comm])
  rcases Nat.lt_or_eq_of_le hdiv with hlt | rfl
  · exact (roundDiv_le num den).trans hlt
  · have hnum : num = num / den * den := Nat.le_antisymm h (Nat.div_mul_le_self num den)
    have hrest : num % den = 0 := Nat.mod_eq_zero_of_dvd ⟨_, hnum.trans (Nat.mul_comm _ _)⟩
    simp [roundDiv, hrest, hd]

/-- Rounding does not pass a number of so many bits. -/
theorem roundBits_le (hp : 0 < precision) {u : ℕ} (hu : Precise precision u) (hd : 0 < den)
    (h : num ≤ u * den) : roundBits precision 0 num den ≤ u := by
  have hdiv : num / den ≤ u := Nat.div_le_of_le_mul (by rwa [Nat.mul_comm])
  obtain ⟨b, hb⟩ := grid_dvd hp hu hdiv
  rw [roundBits_eq]
  generalize 2 ^ gridExponent precision 0 num den = step at hb ⊢
  subst hb
  rcases Nat.eq_zero_or_pos step with rfl | hstep
  · simp
  rw [Nat.mul_comm step b] at h ⊢
  refine Nat.mul_le_mul_right step (roundDiv_le_of_le (Nat.mul_pos hd hstep) ?_)
  rwa [Nat.mul_comm den step, ← Nat.mul_assoc]

/-- The rounded quotient is off by half a step at most, and then it is even. -/
theorem roundDiv_close (hd : 0 < den) (num : ℕ) :
    2 * |(roundDiv num den * den - num : ℤ)| ≤ den
      ∧ (2 * |(roundDiv num den * den - num : ℤ)| = den → roundDiv num den % 2 = 0) := by
  have hnum : (num : ℤ) = (num / den : ℕ) * den + (num % den : ℕ) := by
    exact_mod_cast (Nat.div_add_mod' num den).symm
  have hrest : num % den < den := Nat.mod_lt num hd
  have hup : ((num / den + 1 : ℕ) : ℤ) * den = (num / den : ℕ) * den + den := by
    push_cast
    ring
  unfold roundDiv
  simp only [Int.abs_eq_natAbs]
  generalize num / den = q at *
  generalize num % den = r at *
  split_ifs
  · omega
  · rw [hup]
    omega
  · rcases Nat.mod_two_eq_zero_or_one q with hq | hq <;> rw [hq]
    · rw [Nat.add_zero]
      omega
    · rw [hup]
      omega

/-- The rounded quotient is the nearest whole number, and an even one where another is as near. -/
theorem roundDiv_nearest (hd : 0 < den) (num : ℕ) {b : ℤ} (hb : b ≠ roundDiv num den) :
    |(roundDiv num den * den - num : ℤ)| < |b * den - num|
      ∨ |(roundDiv num den * den - num : ℤ)| = |b * den - num| ∧ roundDiv num den % 2 = 0 := by
  obtain ⟨hclose, heven⟩ := roundDiv_close hd num
  have hapart : (den : ℤ) ≤ |b - roundDiv num den| * den := by
    have hone : 1 ≤ |b - roundDiv num den| := Int.one_le_abs (sub_ne_zero.mpr hb)
    nlinarith
  have htriangle : |b - roundDiv num den| * den ≤
      |b * den - num| + |(roundDiv num den * den - num : ℤ)| := by
    calc |b - roundDiv num den| * den = |(b * den - num) - (roundDiv num den * den - num)| := by
          rw [sub_sub_sub_cancel_right, ← sub_mul, abs_mul, Nat.abs_cast]
      _ ≤ _ := abs_sub _ _
  rcases lt_or_eq_of_le (by omega : |(roundDiv num den * den - num : ℤ)| ≤ |b * den - num|)
    with h | h
  · exact .inl h
  · exact .inr ⟨h, heven (by omega)⟩

theorem roundDiv_le_dist (hd : 0 < den) (num : ℕ) (b : ℤ) :
    |(roundDiv num den * den - num : ℤ)| ≤ |b * den - num| := by
  by_cases hb : b = roundDiv num den
  · rw [hb]
  · rcases roundDiv_nearest hd num hb with h | h
    · exact h.le
    · exact h.1.le

/-- The rounded multiple is nearer than what lies below a multiple that has been passed. -/
theorem roundDiv_nearer_of_lt {step m c : ℕ} (hstep : 0 < step) (hm : c * step ≤ m) {t : ℚ}
    (ht : t < (c * step : ℕ)) : |((roundDiv m step * step : ℕ) : ℚ) - m| < |t - m| := by
  have hclose : |((roundDiv m step * step : ℕ) : ℚ) - m| ≤ |((c * step : ℕ) : ℚ) - m| := by
    exact_mod_cast roundDiv_le_dist hstep m c
  have hpassed : ((c * step : ℕ) : ℚ) ≤ m := by exact_mod_cast hm
  rw [abs_of_nonpos (sub_nonpos.mpr hpassed)] at hclose
  rw [abs_of_neg (sub_neg.mpr (ht.trans_le hpassed))]
  linarith

/-! ## Naturals -/

/-- The rounded quotient has so many bits, and one bit fewer is enough when it is even. -/
theorem precise_roundBits (hp : 1 < precision) (m : ℕ) :
    Precise precision (roundBits precision 0 m 1 : ℕ)
      ∧ (roundDiv m (2 ^ gridExponent precision 0 m 1) % 2 = 0 →
          Precise (precision - 1) (roundBits precision 0 m 1 : ℕ)) := by
  have hlt : m / 2 ^ gridExponent precision 0 m 1 < 2 ^ precision := by
    have h := div_lt_two_pow_add_gridExponent precision 0 m 1
    rw [Nat.div_one] at h
    exact Nat.div_lt_of_lt_mul (h.trans_eq (by rw [Nat.add_comm]; exact Nat.pow_add 2 _ _))
  have hle := (roundDiv_le m (2 ^ gridExponent precision 0 m 1)).trans hlt
  rw [roundBits_eq, Nat.one_mul]
  generalize gridExponent precision 0 m 1 = g at hle ⊢
  refine ⟨precise_of_le (by omega) hle g, fun heven => ?_⟩
  obtain ⟨c, hc⟩ := Nat.dvd_of_mod_eq_zero heven
  obtain ⟨p, rfl⟩ : ∃ p, precision = p + 1 := ⟨precision - 1, by omega⟩
  rw [hc, Nat.pow_succ] at hle
  have hshift : 2 * c * 2 ^ g = c * 2 ^ (g + 1) := by rw [Nat.pow_succ]; ring
  rw [hc, hshift]
  exact precise_of_le (by omega) (by rw [Nat.add_sub_cancel]; omega) _

/-- Rounding a natural gives the nearest number of so many bits. -/
theorem isNearest_roundBits (hp : 1 < precision) (m : ℕ) :
    IsNearest precision m (roundBits precision 0 m 1 : ℕ) := by
  obtain ⟨hprecise, heven⟩ := precise_roundBits hp m
  refine ⟨hprecise, fun t ht hne => ?_⟩
  rw [roundBits_eq, Nat.one_mul] at hne heven ⊢
  generalize hk : gridExponent precision 0 m 1 = g at hne heven ⊢
  rcases g with _ | k
  · -- the number itself has so many bits
    rw [Nat.pow_zero, roundDiv_one, Nat.mul_one] at hne ⊢
    rw [sub_self, abs_zero]
    exact .inl (abs_pos.mpr (sub_ne_zero.mpr hne))
  have hm := two_pow_le_of_gridExponent (by omega) hk
  rw [Nat.div_one] at hm
  have hstep : 0 < 2 ^ (k + 1) := Nat.two_pow_pos _
  by_cases hreach : 2 ^ (precision + (k + 1)) ≤ 2 * t
  · obtain ⟨b, rfl⟩ := ht.exists_multiple hreach
    have hb : b ≠ roundDiv m (2 ^ (k + 1)) := by
      rintro rfl
      exact hne (by push_cast; rfl)
    rcases roundDiv_nearest hstep m hb with h | ⟨h, he⟩
    · exact .inl (by exact_mod_cast h)
    · exact .inr ⟨by exact_mod_cast h, heven he⟩
  · -- the power of two that `m` has passed is on the grid, and is nearer to `m` than `t` is
    obtain ⟨p, rfl⟩ : ∃ p, precision = p + 1 := ⟨precision - 1, by omega⟩
    have hpower : 2 ^ (p + 1 + (k + 1)) = 2 * (2 ^ p * 2 ^ (k + 1)) := by ring
    rw [hpower] at hm
    have hshort : 2 * t < 2 * (2 ^ p * 2 ^ (k + 1) : ℕ) := by
      refine (not_le.mp hreach).trans_eq ?_
      exact_mod_cast hpower
    exact .inl (roundDiv_nearer_of_lt hstep (Nat.le_of_mul_le_mul_left hm two_pos) (by linarith))

end Assay.Rounding
