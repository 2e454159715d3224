import Assay.Proofs.Binary64.Dyadic
import Assay.Proofs.Binary64.Nearest
import Assay.Proofs.Generation.Contract
import Mathlib.Algebra.Order.BigOperators.Group.List
import Mathlib.Order.Bounds.Basic

/-!
# Totals of weights

What a weight is multiplied by lies between zero and one, roundings included, so in a valid
configuration no weight is greater at a depth than at the root (`WeightTable.atDepth_le_root`). So
the totals at all depths are doubles exactly where those at the root are
(`Config.totals_usable_iff`), and these need not be (`Config.total_exceeds`).
-/

namespace Assay

namespace Binary64

open Rounding

/-- The greatest finite double. -/
def greatest : ℚ := (2 ^ 53 - 1) * 2 ^ 971

theorem precise_of_representable {units : ℕ} (h : Representable units) : Precise 53 units := by
  obtain ⟨-, m, k, hm, rfl⟩ := h
  exact precise_of_le (by decide) hm.le k

/-- The number is finite, not below zero, and of no more units than the bound. -/
def UpTo (bound : ℕ) (x : Binary64) : Prop :=
  ∃ negative units fits, x = finite negative units fits ∧ units ≤ bound ∧ (negative → units = 0)

variable {x y : Binary64} {bound num den : ℕ} {negative : Bool}

/-- A bound that is a double itself is kept by rounding. -/
theorem upTo_ofUnits (hb : Representable bound) (hd : 0 < den) (h : num ≤ bound * den)
    (hn : negative → num = 0) : UpTo bound (ofUnits negative num den) := by
  have hround : roundBits 53 0 num den ≤ bound :=
    roundBits_le (by decide) (precise_of_representable hb) hd h
  have hlt : roundBits 53 0 num den < unitsLimit := hround.trans_lt hb.1
  unfold ofUnits
  rw [dif_pos hlt]
  refine ⟨negative, _, _, rfl, hround, fun hnegative => ?_⟩
  rw [hn hnegative, roundBits_zero]

theorem signed_of_nonneg {units : ℕ} (h : negative → units = 0) :
    (signed negative units : ℚ) = units := by
  cases negative
  · simp [signed]
  · simp [signed, h rfl]

theorem toRat?_zero : (0 : Binary64).toRat? = some 0 := by
  rw [zero_eq, zero, toRat?, signed_of_nonneg (fun _ => rfl), Nat.cast_zero, zero_div]

theorem upTo_zero (bound : ℕ) (negative : Bool) : UpTo bound (zero negative) :=
  ⟨negative, 0, _, rfl, Nat.zero_le bound, fun _ => rfl⟩

theorem upTo_one : UpTo unitsPerOne 1 := ⟨false, _, _, one_eq, le_rfl, Bool.noConfusion⟩

namespace UpTo

/-- A factor of at most one does not lead past a bound. -/
theorem mul (hb : Representable bound) (hx : UpTo bound x) (hy : UpTo unitsPerOne y) :
    UpTo bound (x * y) := by
  obtain ⟨s, a, ha, rfl, hale, hs⟩ := hx
  obtain ⟨t, b, hbits, rfl, hble, ht⟩ := hy
  rw [mul_finite]
  refine upTo_ofUnits hb unitsPerOne_pos (Nat.mul_le_mul hale hble) fun hsign => ?_
  cases s
  · cases t
    · cases hsign
    · rw [ht rfl, Nat.mul_zero]
  · rw [hs rfl, Nat.zero_mul]

/-- What is left of one. -/
theorem one_sub (hx : UpTo unitsPerOne x) : UpTo unitsPerOne (1 - x) := by
  obtain ⟨s, a, ha, rfl, hle, hs⟩ := hx
  have hrest : signed false unitsPerOne + signed (!s) a = (unitsPerOne - a : ℕ) := by
    cases s
    · simp only [signed, Bool.not_false, Bool.false_eq_true, ↓reduceIte]
      omega
    · simp only [signed, hs rfl, Bool.not_true, Bool.false_eq_true, ↓reduceIte, Nat.cast_zero,
        Int.add_zero, Nat.sub_zero]
  rw [one_eq, sub_eq_add_neg, neg_finite, add_finite, hrest]
  split_ifs
  · exact upTo_zero _ _
  · refine upTo_ofUnits representable_unitsPerOne Nat.one_pos ?_ ?_
    · rw [Int.natAbs_natCast, Nat.mul_one]
      exact Nat.sub_le _ _
    · simp

/-- The squares and the products on the way are at most one. -/
theorem power_go (n : ℕ) (hx : UpTo unitsPerOne x) (hy : UpTo unitsPerOne y) :
    UpTo unitsPerOne (power.go x y n) := by
  induction n using Nat.strongRecOn generalizing x y with
  | ind n ih =>
    have hstep : UpTo unitsPerOne (if n % 2 = 1 then y * x else y) := by
      split_ifs
      · exact hy.mul representable_unitsPerOne hx
      · exact hy
    rw [power.go]
    generalize (if n % 2 = 1 then y * x else y) = r at hstep ⊢
    split
    · exact hstep
    · exact ih (n / 2) (by omega) (hx.mul representable_unitsPerOne hx) hstep

theorem power (n : ℕ) (hx : UpTo unitsPerOne x) : UpTo unitsPerOne (x.power n) :=
  power_go n hx upTo_one

theorem exists_toRat? (hx : UpTo bound x) :
    ∃ q, x.toRat? = some q ∧ 0 ≤ q ∧ q ≤ bound / unitsPerOne := by
  obtain ⟨s, a, ha, rfl, hle, hs⟩ := hx
  refine ⟨_, rfl, ?_⟩
  rw [signed_of_nonneg hs]
  have hone := unitsPerOne_pos
  generalize unitsPerOne = one at hone
  exact ⟨by positivity, by gcongr⟩

end UpTo

/-- A finite number that is not below zero reaches no further than itself. -/
theorem units_eq_zero_of_not_lt {units : ℕ} {fits : Representable units}
    (h : (finite negative units fits).lt 0 = false) : negative → units = 0 := by
  rintro rfl
  rw [Bool.eq_false_iff, ne_eq, lt_iff rfl rank?_zero] at h
  simp only [signed, ↓reduceIte] at h
  omega

theorem upTo_of_isProbability (h : x.isProbability) : UpTo unitsPerOne x := by
  obtain ⟨hlower, hupper⟩ := Bool.and_eq_true_iff.mp h
  have hone : (1 : Binary64).rank? = some (unitsPerOne : ℤ) := by
    rw [one_eq]
    rfl
  obtain ⟨n, hn⟩ := exists_rank?_of_le hlower
  rw [le_iff rank?_zero hn] at hlower
  rw [le_iff hn hone] at hupper
  have hlimit : (unitsPerOne : ℤ) < unitsLimit := by exact_mod_cast representable_unitsPerOne.1
  cases x with
  | nan => cases hn
  | infinite s =>
    obtain rfl := Option.some.inj hn
    cases s <;> simp only [signed, Bool.false_eq_true, ↓reduceIte] at hlower hupper <;> omega
  | finite s units fits =>
    obtain rfl := Option.some.inj hn
    cases s <;> simp only [signed, Bool.false_eq_true, ↓reduceIte] at hlower hupper
    · exact ⟨false, units, fits, rfl, by omega, Bool.noConfusion⟩
    · exact ⟨true, units, fits, rfl, by omega, fun _ => by omega⟩

/-- No finite double has more units than 53 bits at the top of the range. -/
theorem units_le_of_representable {units k : ℕ} (h : Representable units)
    (hk : unitsWidth = 53 + k) : (units : ℚ) ≤ (2 ^ 53 - 1) * 2 ^ k := by
  have hlt : units < 2 ^ 53 * 2 ^ k := by
    have hpow : unitsLimit = 2 ^ 53 * 2 ^ k := by
      unfold unitsLimit
      rw [hk]
      exact Nat.pow_add 2 53 k
    exact hpow ▸ h.1
  by_cases hreach : 2 ^ (53 + k) ≤ 2 * (units : ℚ)
  · obtain ⟨b, hb⟩ := (precise_of_representable h).exists_multiple hreach
    have hint : (units : ℤ) = b * 2 ^ k := by exact_mod_cast hb
    have hbound : b < 2 ^ 53 := by
      have hstep : (0 : ℤ) < 2 ^ k := pow_pos two_pos k
      refine lt_of_mul_lt_mul_right ?_ hstep.le
      rw [← hint]
      exact_mod_cast hlt
    have hle : (b : ℚ) ≤ 2 ^ 53 - 1 := by exact_mod_cast Int.le_sub_one_of_lt hbound
    rw [hb]
    gcongr
  · rw [pow_add] at hreach
    have hstep : (0 : ℚ) < 2 ^ k := pow_pos two_pos k
    generalize (2 : ℚ) ^ k = step at hreach hstep ⊢
    linarith

theorem toRat?_le_greatest {q : ℚ} (h : x.toRat? = some q) : q ≤ greatest := by
  cases x with
  | nan | infinite _ => cases h
  | finite s units fits =>
    obtain rfl := Option.some.inj h
    obtain ⟨e, he, hone⟩ := exists_unitsPerOne
    have hle := units_le_of_representable fits (k := 971 + e) (by rw [he]; rfl)
    have hpos : (0 : ℚ) < 2 ^ e := pow_pos two_pos e
    have hsigned : (signed s units : ℚ) ≤ units := by
      cases s <;> simp [signed]
    rw [hone, cast_two_pow, zpow_natCast, div_le_iff₀ hpos]
    rw [pow_add, ← mul_assoc] at hle
    exact hsigned.trans hle

theorem toRat?_greatest : (ofBits 0x7fefffffffffffff).toRat? = some greatest := by
  have hsign : ¬ 2 ^ 63 ≤ (0x7fefffffffffffff : UInt64).toNat := by decide
  have hexponent : (0x7fefffffffffffff : UInt64).toNat / 2 ^ 52 % 2 ^ 11 = 2046 := by decide
  have hfraction : (0x7fefffffffffffff : UInt64).toNat % 2 ^ 52 = 2 ^ 52 - 1 := by decide
  rw [toRat?_ofBits]
  unfold denoted?
  have hpower : ((2046 : ℕ) : ℤ) - 1075 = (971 : ℕ) := rfl
  simp only [hsign, hexponent, hfraction, ↓reduceIte]
  rw [if_neg (by decide), if_neg (by decide), hpower, zpow_natCast, greatest]
  generalize (2 : ℚ) ^ 971 = step
  norm_num

/-- The bound is itself a double. -/
theorem isGreatest_greatest : IsGreatest {q | ∃ x : Binary64, x.toRat? = some q} greatest :=
  ⟨⟨_, toRat?_greatest⟩, fun _ ⟨_, h⟩ => toRat?_le_greatest h⟩

theorem two_le_greatest : 2 ≤ greatest := by
  have hpower : (1 : ℚ) ≤ 2 ^ 971 := one_le_pow₀ one_le_two
  unfold greatest
  generalize (2 : ℚ) ^ 971 = step at hpower ⊢
  linarith

/-- The exact value of a finite number, and zero for the others. -/
def exact (x : Binary64) : ℚ := x.toRat?.getD 0

end Binary64

/-- The exact total of some weights. -/
def Kind.total {κ : Type} [Kind κ] (weights : κ → Binary64) : ℚ :=
  ((Enumerated.all : List κ).map fun kind => (weights kind).exact).sum

namespace WeightTable

variable {κ : Type} [Kind κ] {table : WeightTable κ} {maxDepth : Option ℕ}

theorem dampening_of_problem? (h : table.problem? = none) (kind : κ) :
    (table.weight kind).dampening.isProbability := by
  have hmem : (kind, table.weight kind) ∈ table.entries :=
    List.mem_map.mpr ⟨kind, Enumerated.mem_all kind, rfl⟩
  have hk := List.findSome?_eq_none_iff.mp h _ hmem
  simp only [] at hk
  split_ifs at hk with hinitial hdampening
  simpa using hdampening

/-- What a weight is multiplied by at a depth does not lead past its initial value. -/
theorem exists_upTo (h : table.problem? = none) (kind : κ) :
    ∃ bound : ℕ, (table.weight kind).initial.toRat? = some (bound / Binary64.unitsPerOne : ℚ)
      ∧ ∀ depth, ((table.weight kind).atDepth depth).UpTo bound := by
  obtain ⟨hfinite, hnonneg⟩ := initial_of_problem? h kind
  have hfactor := (Binary64.upTo_of_isProbability (dampening_of_problem? h kind)).one_sub
  unfold Weight.atDepth
  generalize (table.weight kind).initial = x at *
  cases x with
  | nan | infinite _ => cases hfinite
  | finite s units fits =>
    have hs := Binary64.units_eq_zero_of_not_lt hnonneg
    refine ⟨units, ?_, fun depth => ?_⟩
    · rw [Binary64.toRat?, Binary64.signed_of_nonneg hs]
    · exact Binary64.UpTo.mul fits ⟨s, units, fits, rfl, le_rfl, hs⟩ (hfactor.power _)

/-- A kind that is capped at the root is so everywhere. -/
theorem capped_of_root {depth : ℕ} {kind : κ}
    (h : (maxDepth.any (· ≤ 0) && Kind.isRecursive kind) = true) :
    (maxDepth.any (· ≤ depth) && Kind.isRecursive kind) = true := by
  cases maxDepth with
  | none => cases h
  | some cap =>
    simp only [Option.any_some, Bool.and_eq_true, decide_eq_true_eq] at h ⊢
    exact ⟨by omega, h.2⟩

/-- Every weight is a finite number at every depth, from zero to what it is at the root. -/
theorem atDepth_le_root (h : table.problem? = none) (depth : ℕ) (kind : κ) :
    ∃ q r, (table.atDepth maxDepth depth kind).toRat? = some q
      ∧ (table.atDepth maxDepth 0 kind).toRat? = some r ∧ 0 ≤ q ∧ q ≤ r := by
  obtain ⟨bound, hroot, hdepths⟩ := exists_upTo h kind
  obtain ⟨q, hq, hnonneg, hle⟩ := (hdepths depth).exists_toRat?
  have hzero := Binary64.toRat?_zero
  unfold atDepth
  rw [Weight.atDepth_zero (initial_of_problem? h kind).1]
  split_ifs with hdeep hcap hcap
  · exact ⟨0, 0, hzero, hzero, le_rfl, le_rfl⟩
  · exact ⟨0, _, hzero, hroot, le_rfl, hnonneg.trans hle⟩
  · exact absurd (capped_of_root hcap) hdeep
  · exact ⟨q, _, hq, hroot, hnonneg, hle⟩

/-- The total is at no depth greater than at the root. -/
theorem total_le_root (h : table.problem? = none) (depth : ℕ) :
    Kind.total (table.atDepth maxDepth depth) ≤ Kind.total (table.atDepth maxDepth 0) := by
  refine List.sum_le_sum fun kind _ => ?_
  obtain ⟨q, r, hq, hr, -, hle⟩ := atDepth_le_root h depth kind
  rwa [Binary64.exact, Binary64.exact, hq, hr]

end WeightTable

namespace Config

/-- In a valid configuration every weight is at every depth a finite number that is not below zero,
and the totals are nowhere greater than at the root. So no total exceeds the greatest double exactly
if those at the root do not. -/
theorem totals_usable_iff {config : Config} (valid : config.problem? = none) :
    (∀ depth, (∀ kind, ∃ q, (config.exprWeightsAt depth kind).toRat? = some q ∧ 0 ≤ q)
        ∧ (∀ kind, ∃ q, (config.typeWeightsAt depth kind).toRat? = some q ∧ 0 ≤ q)
        ∧ Kind.total (config.exprWeightsAt depth) ≤ Kind.total (config.exprWeightsAt 0)
        ∧ Kind.total (config.typeWeightsAt depth) ≤ Kind.total (config.typeWeightsAt 0))
      ∧ ((∀ depth, Kind.total (config.exprWeightsAt depth) ≤ Binary64.greatest
          ∧ Kind.total (config.typeWeightsAt depth) ≤ Binary64.greatest) ↔
        Kind.total (config.exprWeightsAt 0) ≤ Binary64.greatest
          ∧ Kind.total (config.typeWeightsAt 0) ≤ Binary64.greatest) := by
  obtain ⟨-, -, -, hexprs, htypes, -⟩ := problem?_eq_none_iff.mp valid
  have hexprTotal (depth : ℕ) :
      Kind.total (config.exprWeightsAt depth) ≤ Kind.total (config.exprWeightsAt 0) :=
    WeightTable.total_le_root hexprs depth
  have htypeTotal (depth : ℕ) :
      Kind.total (config.typeWeightsAt depth) ≤ Kind.total (config.typeWeightsAt 0) :=
    WeightTable.total_le_root htypes depth
  refine ⟨fun depth => ⟨fun kind => ?_, fun kind => ?_, hexprTotal depth, htypeTotal depth⟩,
    fun h => h 0, fun h depth => ⟨(hexprTotal depth).trans h.1, (htypeTotal depth).trans h.2⟩⟩
  · obtain ⟨q, -, hq, -, hnonneg, -⟩ := WeightTable.atDepth_le_root hexprs depth kind
    exact ⟨q, hq, hnonneg⟩
  · obtain ⟨q, -, hq, -, hnonneg, -⟩ := WeightTable.atDepth_le_root htypes depth kind
    exact ⟨q, hq, hnonneg⟩

/-- Two kinds of constants with the same weight, and no other expressions. -/
def constants (initial : Binary64) : Config :=
  { exprWeights := (WeightTable.zeroed.set .integer ⟨initial, 0⟩).set .boolean ⟨initial, 0⟩
    typeWeights := .zeroed }

theorem total_constants {initial : Binary64} (valid : (constants initial).problem? = none) :
    Kind.total ((constants initial).exprWeightsAt 0) = 2 * initial.exact
      ∧ Kind.total ((constants initial).typeWeightsAt 0) = 0 := by
  obtain ⟨-, -, -, hexprs, htypes, -⟩ := problem?_eq_none_iff.mp valid
  have hzero : Binary64.exact 0 = 0 := by
    rw [Binary64.exact, Binary64.toRat?_zero, Option.getD_some]
  have hexpr (kind : ExprKind) : (constants initial).exprWeightsAt 0 kind =
      if kind = .integer ∨ kind = .boolean then initial else 0 := by
    have hroot : (constants initial).exprWeightsAt 0 kind =
        ((constants initial).exprWeights.weight kind).initial :=
      Weight.atDepth_zero (WeightTable.initial_of_problem? hexprs kind).1
    rw [hroot]
    cases kind <;> rfl
  have htype (kind : TypeKind) : (constants initial).typeWeightsAt 0 kind = 0 :=
    Weight.atDepth_zero (WeightTable.initial_of_problem? htypes kind).1
  constructor
  · simp [Kind.total, Enumerated.all, hexpr, hzero, two_mul]
  · simp [Kind.total, Enumerated.all, htype, hzero]

/-- Weights of one each. -/
theorem totals_usable_constants :
    (constants 1).problem? = none
      ∧ ∀ depth, Kind.total ((constants 1).exprWeightsAt depth) ≤ Binary64.greatest
        ∧ Kind.total ((constants 1).typeWeightsAt depth) ≤ Binary64.greatest := by
  have valid : (constants 1).problem? = none := by decide +kernel
  have hone : Binary64.exact 1 = 1 := by
    have hne : (Binary64.unitsPerOne : ℚ) ≠ 0 := by exact_mod_cast Binary64.unitsPerOne_pos.ne'
    rw [Binary64.one_eq, Binary64.exact, Binary64.toRat?, Option.getD_some]
    exact div_self hne
  obtain ⟨hexprs, htypes⟩ := total_constants valid
  have hgreatest := Binary64.two_le_greatest
  refine ⟨valid, (totals_usable_iff valid).2.mpr ⟨?_, ?_⟩⟩
  · rwa [hexprs, hone, mul_one]
  · rw [htypes]
    linarith

/-- Two weights, each the greatest double, are valid, and their total is no double. -/
theorem total_exceeds :
    let config := constants (.ofBits 0x7fefffffffffffff)
    config.problem? = none ∧ Binary64.greatest < Kind.total (config.exprWeightsAt 0) := by
  intro config
  have valid : config.problem? = none := by decide +kernel
  refine ⟨valid, ?_⟩
  have hgreatest := Binary64.two_le_greatest
  rw [(total_constants valid).1, Binary64.exact, Binary64.toRat?_greatest, Option.getD_some]
  linarith

end Config

end Assay
