import Assay.Proofs.Binary64.Dyadic
import Assay.Proofs.Binary64.Nearest
import Assay.Proofs.Value.Residue

/-!
# Integers as single-precision numbers

An integer becomes a single by way of the nearest double, so it is rounded twice. The two roundings
are one unless the double lies midway between two singles, of which the even one is on its far side
(`isNearest_twice_iff`). So all integers of at most 53 bits are rounded to the nearest single, and
some longer ones are not (`single_conversion_judged`, `single_conversion_misses`).
-/

namespace Assay

namespace Rounding

variable {coarse fine precision least num den q m d e : ℕ}

/-! ## Quotients by their position between whole numbers -/

theorem div_mod_of_between (hl : q * den ≤ num) (hu : num < (q + 1) * den) :
    num / den = q ∧ num % den = num - q * den := by
  rw [Nat.add_mul, Nat.one_mul] at hu
  refine (Nat.div_mod_unique (by omega)).mpr ⟨?_, by omega⟩
  rw [Nat.mul_comm den q]
  omega

theorem roundDiv_of_lt (hl : q * den ≤ num) (h : 2 * num < 2 * (q * den) + den) :
    roundDiv num den = q := by
  obtain ⟨hdiv, hmod⟩ := div_mod_of_between hl (by rw [Nat.add_mul]; omega)
  simp only [roundDiv, hdiv, hmod]
  rw [if_pos (by omega)]

theorem roundDiv_of_gt (hu : num ≤ (q + 1) * den) (h : 2 * (q * den) + den < 2 * num) :
    roundDiv num den = q + 1 := by
  rcases Nat.lt_or_eq_of_le hu with hlt | heq
  · obtain ⟨hdiv, hmod⟩ := div_mod_of_between (by omega) hlt
    simp only [roundDiv, hdiv, hmod]
    rw [if_neg (by omega), if_pos (by omega)]
  · rw [Nat.add_mul] at heq
    exact roundDiv_of_lt (by rw [Nat.add_mul]; omega) (by rw [Nat.add_mul]; omega)

theorem roundDiv_of_tie (hd : 0 < den) (h : 2 * num = 2 * (q * den) + den) :
    roundDiv num den = q + q % 2 := by
  have hl : q * den ≤ num := by omega
  obtain ⟨hdiv, hmod⟩ := div_mod_of_between hl (by rw [Nat.add_mul]; omega)
  simp only [roundDiv, hdiv, hmod]
  rw [if_neg (by omega), if_neg (by omega)]

theorem le_roundDiv_of_le {b : ℕ} (hd : 0 < den) (h : b * den ≤ num) : b ≤ roundDiv num den :=
  ((Nat.le_div_iff_mul_le hd).mpr h).trans (le_roundDiv num den)

/-! ## Rounding twice -/

/-- Rounding to `fine` bits puts the number midway between two numbers of `coarse` bits, and the
even one of these lies past the middle. -/
def CrossesMiddle (coarse fine m : ℕ) : Prop :=
  let step := 2 ^ gridExponent coarse 0 m 1
  let d := roundBits fine 0 m 1
  2 * (d % step) = step ∧ (m < d ∧ d / step % 2 = 1 ∨ d < m ∧ d / step % 2 = 0)

instance (coarse fine m : ℕ) : Decidable (CrossesMiddle coarse fine m) :=
  inferInstanceAs (Decidable (_ ∧ _))

/-- A rounded number does not pass a number on its grid, from either side. -/
theorem roundBits_between (hd : 2 ^ gridExponent precision 0 m 1 ∣ e) :
    (m ≤ e → roundBits precision 0 m 1 ≤ e) ∧ (e ≤ m → e ≤ roundBits precision 0 m 1) := by
  obtain ⟨b, rfl⟩ := hd
  have hstep : 0 < 2 ^ gridExponent precision 0 m 1 := Nat.two_pow_pos _
  rw [roundBits_eq, Nat.one_mul]
  generalize 2 ^ gridExponent precision 0 m 1 = step at hstep ⊢
  rw [Nat.mul_comm step b]
  exact ⟨fun h => Nat.mul_le_mul_right step (roundDiv_le_of_le hstep h),
    fun h => Nat.mul_le_mul_right step (le_roundDiv_of_le hstep h)⟩

theorem gridExponent_one (precision m : ℕ) :
    gridExponent precision 0 m 1 = m.log2 + 1 - precision := by
  rw [gridExponent, Nat.div_one, Nat.zero_max]

/-- A rounded number is rounded again on the coarse grid of the number that it comes from, even
where it is a power of two with a coarser grid of its own. -/
theorem roundBits_twice (hc : 0 < coarse) (hf : 0 < fine) (m : ℕ) :
    roundBits coarse 0 (roundBits fine 0 m 1) 1 =
      roundDiv (roundBits fine 0 m 1) (2 ^ gridExponent coarse 0 m 1) *
        2 ^ gridExponent coarse 0 m 1 := by
  rcases Nat.eq_zero_or_pos m with rfl | hm
  · simp [roundBits_zero, roundDiv]
  have hgrid : ∀ {precision : ℕ}, 0 < precision →
      2 ^ gridExponent precision 0 m 1 ∣ 2 ^ m.log2 := fun {precision} hp => by
    rw [gridExponent_one]
    exact pow_dvd_pow 2 (by omega)
  have hnext : 2 ^ m.log2 ∣ 2 ^ (m.log2 + 1) := pow_dvd_pow 2 (Nat.le_succ _)
  have hlower := (roundBits_between (hgrid hf)).2 (Nat.log2_self_le hm.ne')
  have hupper := (roundBits_between ((hgrid hf).trans hnext)).1 Nat.lt_log2_self.le
  rcases Nat.lt_or_eq_of_le hupper with hlt | heq
  · have hlog : (roundBits fine 0 m 1).log2 = m.log2 :=
      (Nat.log2_eq_iff (by have := Nat.two_pow_pos m.log2; omega)).mpr ⟨hlower, hlt⟩
    rw [roundBits_eq coarse 0 (roundBits fine 0 m 1), Nat.one_mul, gridExponent_one, hlog,
      gridExponent_one]
  · rw [heq, roundBits_one_of_dvd]
    · obtain ⟨b, hb⟩ := (hgrid hc).trans hnext
      have hstep : 0 < 2 ^ gridExponent coarse 0 m 1 := Nat.two_pow_pos _
      rw [hb]
      generalize 2 ^ gridExponent coarse 0 m 1 = step at hstep ⊢
      rw [Nat.mul_comm step b, roundDiv_of_lt le_rfl (by omega)]
    · rw [gridExponent_one, Nat.log2_two_pow]
      exact pow_dvd_pow 2 (by omega)

/-- A number and another one on its side of the middle between two steps have the same nearest step.
At the middle it depends on which step is even. -/
theorem roundDiv_eq_iff {half : ℕ} (hh : 0 < half) (hm : q * (2 * half) ≤ m)
    (hm' : m < (q + 1) * (2 * half)) (hd : q * (2 * half) ≤ d) (hd' : d ≤ (q + 1) * (2 * half))
    (hbelow : m ≤ q * (2 * half) + half → d ≤ q * (2 * half) + half)
    (habove : q * (2 * half) + half ≤ m → q * (2 * half) + half ≤ d) :
    roundDiv d (2 * half) = roundDiv m (2 * half) ↔
      ¬ (2 * (d % (2 * half)) = 2 * half ∧
        (m < d ∧ d / (2 * half) % 2 = 1 ∨ d < m ∧ d / (2 * half) % 2 = 0)) := by
  have hnext : (q + 1) * (2 * half) = q * (2 * half) + 2 * half := Nat.succ_mul q _
  rcases Nat.lt_trichotomy d (q * (2 * half) + half) with hlt | hmiddle | hgt
  · obtain ⟨-, hrest⟩ := div_mod_of_between hd (by omega)
    rw [roundDiv_of_lt hd (by omega), roundDiv_of_lt hm (by omega), hrest]
    omega
  · obtain ⟨hdiv, hrest⟩ := div_mod_of_between hd (by omega)
    rw [roundDiv_of_tie (by omega) (by omega : 2 * d = 2 * (q * (2 * half)) + 2 * half), hdiv,
      hrest]
    rcases Nat.lt_trichotomy m d with hmd | rfl | hmd
    · rw [roundDiv_of_lt hm (by omega)]
      omega
    · rw [roundDiv_of_tie (by omega) (by omega : 2 * m = 2 * (q * (2 * half)) + 2 * half)]
      omega
    · rw [roundDiv_of_gt hm'.le (by omega)]
      omega
  · have hrest : d % (2 * half) ≠ half := by
      rcases Nat.lt_or_eq_of_le hd' with hlt | rfl
      · rw [(div_mod_of_between hd hlt).2]
        omega
      · rw [Nat.mul_mod_left]
        omega
    rw [roundDiv_of_gt hd' (by omega), roundDiv_of_gt hm'.le (by omega)]
    omega

/-- Two roundings are one unless the first one reaches the middle between two coarse numbers. -/
theorem roundDiv_twice_iff (hf : coarse < fine) (m : ℕ) :
    roundDiv (roundBits fine 0 m 1) (2 ^ gridExponent coarse 0 m 1) =
        roundDiv m (2 ^ gridExponent coarse 0 m 1) ↔
      ¬ CrossesMiddle coarse fine m := by
  unfold CrossesMiddle
  rcases hk : gridExponent coarse 0 m 1 with _ | k
  · have hsame : roundBits fine 0 m 1 = m := by
      have hgrid : gridExponent fine 0 m 1 = 0 := by
        rw [gridExponent_one] at hk ⊢
        omega
      rw [roundBits_eq, hgrid, Nat.pow_zero, Nat.one_mul, roundDiv_one, Nat.mul_one]
    simp [hsame]
  have hhalf : 2 ^ gridExponent fine 0 m 1 ∣ 2 ^ k := by
    rw [gridExponent_one] at hk ⊢
    exact pow_dvd_pow 2 (by omega)
  have hstep : 2 ^ gridExponent fine 0 m 1 ∣ 2 * 2 ^ k := hhalf.mul_left 2
  have hpos : 0 < 2 ^ k := Nat.two_pow_pos k
  rw [Nat.pow_succ, Nat.mul_comm (2 ^ k) 2]
  have hq := Nat.div_mul_le_self m (2 * 2 ^ k)
  have hq' := (Nat.div_lt_iff_lt_mul (by omega)).mp (Nat.lt_succ_self (m / (2 * 2 ^ k)))
  have hmiddle := roundBits_between ((hstep.mul_left (m / (2 * 2 ^ k))).add hhalf)
  exact roundDiv_eq_iff hpos hq hq' ((roundBits_between (hstep.mul_left _)).2 hq)
    ((roundBits_between (hstep.mul_left _)).1 hq'.le) hmiddle.1 hmiddle.2

/-- Past the middle, the second rounding goes by more than half a step. -/
theorem roundDiv_far (h : CrossesMiddle coarse fine m) :
    ((2 ^ gridExponent coarse 0 m 1 : ℕ) : ℤ) <
      2 * |(roundDiv (roundBits fine 0 m 1) (2 ^ gridExponent coarse 0 m 1) *
        (2 ^ gridExponent coarse 0 m 1 : ℕ) - m : ℤ)| := by
  obtain ⟨hmiddle, hside⟩ := h
  have hstep : 0 < 2 ^ gridExponent coarse 0 m 1 := Nat.two_pow_pos _
  generalize 2 ^ gridExponent coarse 0 m 1 = step at *
  generalize roundBits fine 0 m 1 = d at *
  have hd := Nat.div_add_mod' d step
  rw [roundDiv_of_tie hstep (by omega : 2 * d = 2 * (d / step * step) + step)]
  generalize d % step = r at *
  generalize d / step = q at *
  simp only [Int.abs_eq_natAbs]
  rcases hside with ⟨hlt, hodd⟩ | ⟨hlt, heven⟩
  · have hnext : ((q + 1 : ℕ) : ℤ) * step = q * step + step := by push_cast; ring
    rw [hodd, hnext]
    omega
  · rw [heven, Nat.add_zero]
    omega

/-- A number rounded twice is the nearest one exactly where it is the same as rounded once. -/
theorem isNearest_twice_iff (hc : 1 < coarse) (hf : coarse < fine) (m : ℕ) :
    IsNearest coarse m (roundBits coarse 0 (roundBits fine 0 m 1) 1 : ℕ) ↔
      ¬ CrossesMiddle coarse fine m := by
  have hstep : 0 < 2 ^ gridExponent coarse 0 m 1 := Nat.two_pow_pos _
  have honce := isNearest_roundBits hc m
  rw [roundBits_twice (by omega) (by omega)]
  rw [roundBits_eq, Nat.one_mul] at honce
  refine ⟨fun htwice hcross => ?_, fun hcross => ?_⟩
  · obtain ⟨hclose, -⟩ := roundDiv_close hstep m
    have hfar := roundDiv_far hcross
    have hne := mt (roundDiv_twice_iff hf m).mp (not_not.mpr hcross)
    have hle := htwice.nearer _ honce.precise fun heq =>
      hne (Nat.eq_of_mul_eq_mul_right hstep (by exact_mod_cast heq.symm))
    have hle' := hle.elim le_of_lt fun h => h.1.le
    have hdist : |(roundDiv (roundBits fine 0 m 1) (2 ^ gridExponent coarse 0 m 1) *
        (2 ^ gridExponent coarse 0 m 1 : ℕ) - m : ℤ)| ≤
          |(roundDiv m (2 ^ gridExponent coarse 0 m 1) *
            (2 ^ gridExponent coarse 0 m 1 : ℕ) - m : ℤ)| := by
      exact_mod_cast hle'
    omega
  · rwa [(roundDiv_twice_iff hf m).mpr hcross]

/-- What has so many bits is not rounded. -/
theorem roundBits_of_precise (hp : 0 < precision) (h : Precise precision m) :
    roundBits precision 0 m 1 = m :=
  roundBits_one_of_dvd (grid_dvd hp h (Nat.div_one m).le)

theorem not_crossesMiddle_of_le (hf : 0 < fine) (h : m ≤ 2 ^ fine) :
    ¬ CrossesMiddle coarse fine m := by
  have hprecise : Precise fine m := by simpa using precise_of_le hf h 0
  rintro ⟨-, hside⟩
  rw [roundBits_of_precise hf hprecise] at hside
  omega

/-- Far enough above the least unit, it does not matter in which unit a number is rounded. -/
theorem roundBits_mul_two_pow (h : least + precision ≤ e + 1) (m : ℕ) :
    roundBits precision least (m * 2 ^ e) 1 = roundBits precision 0 m 1 * 2 ^ e := by
  rcases Nat.eq_zero_or_pos m with rfl | hm
  · simp [roundBits_zero]
  have hlog : (m * 2 ^ e).log2 = m.log2 + e := by
    rw [Nat.log2_eq_iff (Nat.mul_pos hm (Nat.two_pow_pos e)).ne', Nat.pow_add,
      Nat.add_right_comm, Nat.pow_add]
    exact ⟨Nat.mul_le_mul_right _ (Nat.log2_self_le hm.ne'),
      Nat.mul_lt_mul_of_pos_right Nat.lt_log2_self (Nat.two_pow_pos e)⟩
  have hgrid : gridExponent precision least (m * 2 ^ e) 1 = m.log2 + e + 1 - precision := by
    rw [gridExponent, Nat.div_one, hlog]
    omega
  rcases Nat.le_total precision (m.log2 + 1) with hlong | hshort
  · have hsum : m.log2 + e + 1 - precision = e + (m.log2 + 1 - precision) := by omega
    rw [roundBits_eq, roundBits_eq, hgrid, gridExponent_one, hsum, Nat.pow_add, Nat.one_mul,
      Nat.one_mul, Nat.mul_comm m, roundDiv_mul (Nat.two_pow_pos e)]
    ring
  · rw [roundBits_one_of_dvd, roundBits_one_of_dvd]
    · rw [gridExponent_one, Nat.sub_eq_zero_of_le hshort]
      exact Nat.one_dvd m
    · rw [hgrid]
      exact Dvd.dvd.mul_left (pow_dvd_pow 2 (by omega)) m

/-- A nearest number on one side of zero is one on the other. -/
theorem isNearest_signed {negative : Bool} {s : ℕ} :
    IsNearest precision (Binary64.signed negative m : ℤ) (Binary64.signed negative s : ℤ) ↔
      IsNearest precision m s := by
  cases negative
  · simp [Binary64.signed]
  · simp only [Binary64.signed, ↓reduceIte, Int.cast_neg, Int.cast_natCast]
    exact isNearest_neg

end Rounding

namespace Binary64

open Rounding

/-- Every 64-bit integer is no more than a number of one bit. -/
theorem roundBits_word_le {precision m : ℕ} (hp : 0 < precision) (h : m ≤ Nat.pow 2 64) :
    roundBits precision 0 m 1 ≤ Nat.pow 2 64 := by
  refine roundBits_le hp ⟨1, 64, ?_, by norm_num⟩ Nat.one_pos (by rwa [Nat.mul_one])
  rw [abs_one]
  exact one_lt_pow₀ one_lt_two hp.ne'

/-- The exponents stay variables, so that no power is computed. -/
theorem word_units_lt {m : ℕ} (h : m ≤ Nat.pow 2 64) :
    m * unitsPerOne < singleLimit ∧ m * unitsPerOne < unitsLimit := by
  have hlt : m * unitsPerOne < singleLimit := by
    obtain ⟨e, he, hone⟩ := exists_unitsPerOne
    have hwidth : 64 + e < singleWidth := by
      rw [he]
      decide
    unfold singleLimit
    generalize singleWidth = w at hwidth ⊢
    calc m * unitsPerOne ≤ Nat.pow 2 64 * Nat.pow 2 e := hone ▸ Nat.mul_le_mul_right _ h
      _ = Nat.pow 2 (64 + e) := (Nat.pow_add 2 64 e).symm
      _ < Nat.pow 2 w := Nat.pow_lt_pow_right (by decide) hwidth
  exact ⟨hlt, hlt.trans_le singleLimit_le_unitsLimit⟩

theorem toRat?_units (negative : Bool) {m : ℕ} (fits : Representable (m * unitsPerOne)) :
    (finite negative (m * unitsPerOne) fits).toRat? = some ((signed negative m : ℤ) : ℚ) := by
  have hone : (unitsPerOne : ℚ) ≠ 0 := Nat.cast_ne_zero.mpr unitsPerOne_pos.ne'
  rw [toRat?, signed_mul, Int.cast_mul, Int.cast_natCast, mul_div_cancel_right₀ _ hone]

/-- An integer of a word is rounded to the bits of a double, and no word is past the doubles. -/
theorem exists_ofInt {n : ℤ} (h : n.natAbs ≤ Nat.pow 2 64) :
    ∃ fits, ofInt n = finite (n < 0) (roundBits 53 0 n.natAbs 1 * unitsPerOne) fits := by
  obtain ⟨e, he, hone⟩ := exists_unitsPerOne
  have hround : roundBits 53 0 (n.natAbs * unitsPerOne) 1 =
      roundBits 53 0 n.natAbs 1 * unitsPerOne := by
    rw [hone]
    exact roundBits_mul_two_pow (by rw [he]; decide) n.natAbs
  have hlt := (word_units_lt (roundBits_word_le (by decide : 0 < 53) h)).2
  have fits : Representable (roundBits 53 0 (n.natAbs * unitsPerOne) 1) :=
    representable_roundBits (by decide) (le_refl 53) (by rwa [hround])
  refine ⟨by rwa [hround] at fits, ?_⟩
  simp only [ofInt, ofRatio, ofUnits, hround, hlt, ↓reduceDIte]

theorem exists_toSingle (negative : Bool) {m : ℕ} (fits : Representable (m * unitsPerOne))
    (h : m ≤ Nat.pow 2 64) :
    ∃ fits', (finite negative (m * unitsPerOne) fits).toSingle =
      finite negative (roundBits 24 0 m 1 * unitsPerOne) fits' := by
  obtain ⟨e, he, hone⟩ := exists_unitsPerOne
  have hround : roundBits 24 925 (m * unitsPerOne) 1 = roundBits 24 0 m 1 * unitsPerOne := by
    rw [hone]
    exact roundBits_mul_two_pow (by rw [he]; decide) m
  have hlt := word_units_lt (roundBits_word_le (by decide : 0 < 24) h)
  have fits' : Representable (roundBits 24 925 (m * unitsPerOne) 1) :=
    representable_roundBits (by decide) (by decide) (by rw [hround]; exact hlt.2)
  refine ⟨by rwa [hround] at fits', ?_⟩
  simp only [toSingle, hround, hlt.1, ↓reduceDIte]

/-- An integer of a word is rounded twice on the way to a single. -/
theorem toRat?_toSingle_ofInt {n : ℤ} (h : n.natAbs ≤ Nat.pow 2 64) :
    (ofInt n).toSingle.toRat? =
      some ((signed (n < 0) (roundBits 24 0 (roundBits 53 0 n.natAbs 1) 1) : ℤ) : ℚ) := by
  obtain ⟨fits, hdouble⟩ := exists_ofInt h
  obtain ⟨fits', hsingle⟩ := exists_toSingle (n < 0) fits (roundBits_word_le (by decide) h)
  rw [hdouble, hsingle, toRat?_units]

theorem signed_natAbs (n : ℤ) : signed (n < 0) n.natAbs = n := by
  simp only [signed, decide_eq_true_eq]
  split <;> omega

end Binary64

namespace Value

open Rounding

variable {target : Target} {v : Value} {n : ℤ}

theorem natAbs_le_of_toInt? (h : v.toInt? = some n) : n.natAbs ≤ Nat.pow 2 64 := by
  obtain ⟨type, scalar⟩ := v
  cases scalar with
  | signed i =>
    obtain rfl : i.toInt = n := Option.some.inj h
    have hmin := i.le_toInt
    have hmax := i.toInt_lt
    have hword : (2 : ℤ) ^ 63 ≤ Nat.pow 2 64 := by decide
    omega
  | unsigned i =>
    obtain rfl : (i.toNat : ℤ) = n := Option.some.inj h
    exact i.toNat_lt.le
  | floating x => cases h

theorem toBinary64_of_toInt? (h : v.toInt? = some n) : v.toBinary64 = .ofInt n := by
  obtain ⟨type, scalar⟩ := v
  cases scalar with
  | signed i | unsigned i =>
    obtain rfl := Option.some.inj h
    rfl
  | floating x => cases h

theorem convert_single (target : Target) (h : v.toInt? = some n) :
    v.convert target (.scalar .float) =
      ⟨.scalar .float, .floating (Binary64.ofInt n).toSingle⟩ := by
  rw [← toBinary64_of_toInt? h]
  rfl

theorem WellFormed.exists_toInt?_of_isIntegral (h : v.WellFormed target)
    (hi : v.type.isIntegral) : ∃ n, v.toInt? = some n := by
  obtain ⟨type, scalar⟩ := v
  cases scalar with
  | signed i | unsigned i => exact ⟨_, rfl⟩
  | floating x =>
    have hf : type.isFloating = true := h
    cases type with
    | scalar c =>
      have hc : (!c.isFloating) = true := hi
      rw [show c.isFloating = true from hf] at hc
      cases hc
    | enumeration _ | pointer _ | record _ => cases hf

/-- A well-formed integral value becomes the single nearest to the double nearest to its integer.
This is the single nearest to the integer, unless the double lies midway between two singles with
the integer and the even one on different sides; so it is for every integer of at most 53 bits. -/
theorem single_conversion_judged (hv : v.WellFormed target) (hi : v.type.isIntegral) :
    ∃ (n : ℤ) (x : Binary64) (d q : ℚ), v.toInt? = some n
      ∧ v.convert target (.scalar .float) = ⟨.scalar .float, .floating x⟩
      ∧ x.toRat? = some q ∧ IsNearest 53 n d ∧ IsNearest 24 d q
      ∧ (IsNearest 24 n q ↔ ¬ CrossesMiddle 24 53 n.natAbs)
      ∧ (n.natAbs ≤ 2 ^ 53 → IsNearest 24 n q) := by
  obtain ⟨n, hn⟩ := hv.exists_toInt?_of_isIntegral hi
  have hword := natAbs_le_of_toInt? hn
  have hnatural {precision s : ℕ} : IsNearest precision n (Binary64.signed (n < 0) s : ℤ) ↔
      IsNearest precision n.natAbs s := by
    rw [← isNearest_signed, Binary64.signed_natAbs]
  have hjudged := hnatural.trans
    (isNearest_twice_iff (by decide : 1 < 24) (by decide : 24 < 53) n.natAbs)
  refine ⟨n, (Binary64.ofInt n).toSingle, (Binary64.signed (n < 0) (roundBits 53 0 n.natAbs 1) : ℤ),
    _, hn, convert_single target hn, Binary64.toRat?_toSingle_ofInt hword, ?_, ?_, hjudged,
    fun hle => hjudged.mpr (not_crossesMiddle_of_le (by decide) hle)⟩
  · exact hnatural.mpr (isNearest_roundBits (by decide) _)
  · exact isNearest_signed.mpr (isNearest_roundBits (by decide) _)

/-- The double nearest to an integer of 61 bits may lie above the middle. -/
theorem single_conversion_judged_long :
    let n : ℤ := -(2 ^ 60 + 2 ^ 36 + 2 ^ 8)
    let v : Value := ⟨.scalar .long, .signed (Int64.ofInt n)⟩
    ∃ x q, v.convert (.ofArch .x86_64) (.scalar .float) = ⟨.scalar .float, .floating x⟩
      ∧ x.toRat? = some q ∧ IsNearest 24 n q := by
  intro n v
  obtain ⟨m, x, -, q, hm, hconvert, hq, -, -, hjudged, -⟩ :=
    single_conversion_judged (by decide : v.WellFormed (.ofArch .x86_64)) rfl
  obtain rfl : n = m := Option.some.inj hm
  exact ⟨x, q, hconvert, hq, hjudged.mpr (by decide +kernel)⟩

/-- A `long` of 61 bits is rounded down to a double in the middle, and from there to the even single
below, although the one above is nearer. -/
theorem single_conversion_misses :
    let n : ℤ := 2 ^ 60 + 2 ^ 36 + 1
    let v : Value := ⟨.scalar .long, .signed (Int64.ofInt n)⟩
    v.WellFormed (.ofArch .x86_64) ∧ v.type.isIntegral ∧ v.toInt? = some n
      ∧ (∃ x, v.convert (.ofArch .x86_64) (.scalar .float) = ⟨.scalar .float, .floating x⟩
        ∧ x.toRat? = some (2 ^ 60))
      ∧ ¬ IsNearest 24 n (2 ^ 60) ∧ IsNearest 24 n (2 ^ 60 + 2 ^ 37) := by
  intro n v
  have hn : v.toInt? = some n := rfl
  refine ⟨by decide, rfl, hn, ⟨_, convert_single _ hn, ?_⟩, fun h => ?_, ?_⟩
  · rw [Binary64.toRat?_toSingle_ofInt (natAbs_le_of_toInt? hn)]
    have hround :
        Binary64.signed (n < 0) (roundBits 24 0 (roundBits 53 0 n.natAbs 1) 1) = 2 ^ 60 := by
      decide +kernel
    rw [hround]
    norm_num
  · have habove : Precise 24 (2 ^ 60 + 2 ^ 37) := ⟨2 ^ 23 + 1, 37, by norm_num, by norm_num⟩
    have hcloser := h.nearer _ habove (by norm_num)
    norm_num [n] at hcloser
  · have hround : roundBits 24 0 (2 ^ 60 + 2 ^ 36 + 1) 1 = 2 ^ 60 + 2 ^ 37 := by decide +kernel
    have h := isNearest_roundBits (by decide : 1 < 24) (2 ^ 60 + 2 ^ 36 + 1)
    rw [hround] at h
    exact_mod_cast h

end Value

end Assay
