import Assay.Binary64.Bits
import Assay.Proofs.Binary64.Product
import Mathlib.Data.Rat.Floor

/-!
# Doubles as dyadic rationals

The 64 bits of a finite double denote a fraction whose denominator is a power of two
(`toRat?_ofBits`). Its whole part, toward zero, is taken without rounding, and the powers of two are
doubles far beyond the bounds of all integer types (`rank?_ofInt`), so comparing the one with the
other compares integers (`truncate_between_iff`).
-/

namespace Assay

/-- The whole part of a fraction: the fraction rounded toward zero. -/
def towardZero (q : ℚ) : ℤ := if 0 ≤ q then ⌊q⌋ else ⌈q⌉

theorem towardZero_eq_zero {q : ℚ} (h : |q| < 1) : towardZero q = 0 := by
  rw [abs_lt] at h
  unfold towardZero
  split_ifs with hq
  · exact Int.floor_eq_zero_iff.mpr ⟨hq, h.2⟩
  · exact Int.ceil_eq_zero_iff.mpr ⟨h.1, by linarith⟩

namespace Binary64

/-- The exact value of a finite number. -/
def toRat? : Binary64 → Option ℚ
  | finite negative units _ => some (signed negative units / unitsPerOne)
  | _ => none

/-- The number that 64 bits denote by their sign, exponent and fraction; infinities and NaN denote
none. -/
def denoted? (bits : UInt64) : Option ℚ :=
  let sign : ℚ := if 2 ^ 63 ≤ bits.toNat then -1 else 1
  let exponent : ℕ := bits.toNat / 2 ^ 52 % 2 ^ 11
  let fraction : ℕ := bits.toNat % 2 ^ 52
  if exponent = 2047 then none
  else if exponent = 0 then some (sign * fraction * 2 ^ (-1074 : ℤ))
  else some (sign * (2 ^ 52 + fraction) * 2 ^ (exponent - 1075 : ℤ))

theorem cast_signed (negative : Bool) (units : ℕ) :
    ((signed negative units : ℤ) : ℚ) = (if negative then -1 else 1) * units := by
  cases negative <;> simp [signed]

theorem cast_two_pow (n : ℕ) : ((Nat.pow 2 n : ℕ) : ℚ) = 2 ^ (n : ℤ) := by
  rw [zpow_natCast]
  exact Nat.cast_pow 2 n

theorem signed_mul (negative : Bool) (m n : ℕ) :
    signed negative (m * n) = signed negative m * n := by
  cases negative <;> simp [signed]

/-- The exponent stays a variable, so that no power is computed. -/
theorem exists_unitsPerOne : ∃ k, k = 1074 ∧ unitsPerOne = Nat.pow 2 k := by
  unfold unitsPerOne
  exact ⟨_, rfl, rfl⟩

/-- A number is what its bits denote. -/
theorem toRat?_ofBits (bits : UInt64) : (ofBits bits).toRat? = denoted? bits := by
  obtain ⟨k, hk, hone⟩ := exists_unitsPerOne
  have hk : (k : ℤ) = 1074 := by omega
  have hlt : bits.toNat / Nat.pow 2 52 % 2048 < 2048 := Nat.mod_lt _ (by decide)
  -- powers written as `ofBits` has them, so that both sides test the same terms
  change _ = (let sign : ℚ := if Nat.pow 2 63 ≤ bits.toNat then -1 else 1
    let exponent : ℕ := bits.toNat / Nat.pow 2 52 % 2048
    let fraction : ℕ := bits.toNat % Nat.pow 2 52
    if exponent = 2047 then none
    else if exponent = 0 then some (sign * fraction * 2 ^ (-1074 : ℤ))
    else some (sign * (2 ^ 52 + fraction) * 2 ^ (exponent - 1075 : ℤ)))
  unfold ofBits
  simp only []
  by_cases hzero : bits.toNat / Nat.pow 2 52 % 2048 = 0
  · simp only [hzero, ↓reduceIte, toRat?, cast_signed, hone, cast_two_pow, decide_eq_true_eq,
      OfNat.zero_ne_ofNat, zpow_neg, ← hk, div_eq_mul_inv]
  by_cases hfinite : bits.toNat / Nat.pow 2 52 % 2048 < 2047
  · have hexp : ((bits.toNat / Nat.pow 2 52 % 2048 - 1 : ℕ) : ℤ) - k =
        (bits.toNat / Nat.pow 2 52 % 2048 : ℕ) - 1075 := by
      omega
    simp only [hzero, hfinite, hfinite.ne, ↓reduceIte, ↓reduceDIte, toRat?, cast_signed, hone,
      decide_eq_true_eq, Nat.cast_mul, Nat.cast_add, cast_two_pow, ← hexp, Option.some.injEq,
      zpow_sub₀ (two_ne_zero : (2 : ℚ) ≠ 0)]
    push_cast
    ring
  · have h : bits.toNat / Nat.pow 2 52 % 2048 = 2047 := by omega
    simp only [h, ↓reduceIte, ↓reduceDIte, Nat.lt_irrefl, OfNat.ofNat_ne_zero]
    split_ifs <;> rfl

theorem towardZero_signed (negative : Bool) (units : ℕ) {one : ℕ} (h : 0 < one) :
    towardZero (signed negative units / one) = signed negative (units / one) := by
  have hone : (0 : ℚ) < one := Nat.cast_pos.mpr h
  have hq : (0 : ℚ) ≤ units / one := by positivity
  have hfloor : ⌊(units / one : ℚ)⌋ = (units / one : ℕ) :=
    Rat.floor_intCast_div_natCast units one
  rcases negative with _ | _
  · simp only [signed, Bool.false_eq_true, ↓reduceIte, Int.cast_natCast, towardZero, hq, hfloor]
  · simp only [signed, ↓reduceIte, Int.cast_neg, Int.cast_natCast, towardZero, neg_div]
    split_ifs with hneg
    · have hzero : (units / one : ℚ) = 0 := by linarith
      rw [hzero, Int.floor_zero] at hfloor
      rw [hzero, neg_zero, Int.floor_zero]
      omega
    · rw [Int.ceil_neg, hfloor]

theorem isSome_toRat? (x : Binary64) : x.toRat?.isSome = x.isFinite := by
  cases x <;> rfl

theorem rank?_truncate {x : Binary64} {q : ℚ} (h : x.toRat? = some q) :
    x.truncate.rank? = some (towardZero q * unitsPerOne) := by
  cases x with
  | nan | infinite _ => cases h
  | finite negative units fits =>
    obtain rfl := Option.some.inj h
    rw [towardZero_signed _ _ unitsPerOne_pos, truncate, rank?, signed_mul]

/-- An integer of few significant bits is a double. -/
theorem rank?_ofInt {n : ℤ} {m k : ℕ} (hm : m < Nat.pow 2 53) (hk : k ≤ 971)
    (hn : n.natAbs = m * Nat.pow 2 k) : (ofInt n).rank? = some (n * unitsPerOne) := by
  obtain ⟨e, he, hone⟩ := exists_unitsPerOne
  have hpow : Nat.pow 2 k * Nat.pow 2 e = Nat.pow 2 (k + e) := (Nat.pow_add 2 k e).symm
  have fits : Representable (n.natAbs * unitsPerOne) := by
    rw [hn, hone, Nat.mul_assoc, hpow]
    exact representable_shifted hm (by omega)
  rw [ofInt, ofRatio, ofUnits_one fits, rank?]
  by_cases h : n < 0
  · simp only [h, signed, decide_true, ↓reduceIte]
    push_cast
    rw [abs_of_neg h]
    ring_nf
  · simp only [h, signed, decide_false, Bool.false_eq_true, ↓reduceIte]
    push_cast
    rw [abs_of_nonneg (by omega)]

/-- Comparing the whole part of a double with the bounds of a range, of which the upper one is
excluded, compares integers. -/
theorem truncate_between_iff {x : Binary64} {lower upper : ℤ}
    (hl : (ofInt lower).rank? = some (lower * unitsPerOne))
    (hu : (ofInt upper).rank? = some (upper * unitsPerOne)) :
    (x.isFinite && (ofInt lower).le x.truncate && x.truncate.lt (ofInt upper)) = true ↔
      ∃ q, x.toRat? = some q ∧ lower ≤ towardZero q ∧ towardZero q < upper := by
  have hone : (0 : ℤ) < unitsPerOne := Nat.cast_pos.mpr unitsPerOne_pos
  rw [← isSome_toRat?]
  rcases hx : x.toRat? with _ | q
  · simp
  · have ht := rank?_truncate hx
    simp only [Option.isSome_some, Bool.true_and, Bool.and_eq_true, le_iff hl ht, lt_iff ht hu,
      mul_le_mul_iff_left₀ hone, mul_lt_mul_iff_left₀ hone, Option.some.injEq, exists_eq_left']

theorem truncateClamped_eq {x : Binary64} {q : ℚ} (h : x.toRat? = some q) {least greatest : ℤ}
    (hl : least ≤ towardZero q) (hg : towardZero q ≤ greatest) :
    x.truncateClamped least greatest = towardZero q := by
  cases x with
  | nan | infinite _ => cases h
  | finite negative units fits =>
    obtain rfl := Option.some.inj h
    rw [towardZero_signed _ _ unitsPerOne_pos] at hl hg ⊢
    rw [truncateClamped, min_eq_right hg, max_eq_right hl]

end Binary64

end Assay
