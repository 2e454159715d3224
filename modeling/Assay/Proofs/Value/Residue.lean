import Assay.Proofs.Ty.Integer
import Assay.Proofs.Value.WellFormed

/-!
# Integers as residues

An integral scalar other than `bool` has one integer in its range for every residue modulo its width
(`Target.eq_of_residues`), and a value converted to it holds that of the value (`toInt?_convert`).
So what is in range is kept (`toInt?_ofInt_of_contains`).
-/

namespace Assay

/-- A range shorter than the modulus has no two integers that are congruent. -/
theorem IntRange.eq_of_dvd {range : IntRange} {modulus : Nat}
    (hlength : range.max - range.min < modulus) {m n : Int} (hm : range.contains m)
    (hn : range.contains n) (h : (modulus : Int) ∣ m - n) : m = n := by
  rw [contains_iff] at hm hn
  have hzero := Int.eq_zero_of_dvd_of_natAbs_lt_natAbs h (by omega)
  omega

namespace Target

variable {target : Target}

/-- A range holds zero, and is no longer than the width allows. -/
theorem scalarRange_bounds (hw : target.FitsWord) (c : ScalarType) :
    (target.scalarRange c).min ≤ 0 ∧ 0 ≤ (target.scalarRange c).max
      ∧ (target.scalarRange c).max - (target.scalarRange c).min
          < Nat.pow 2 (target.scalarWidth c) := by
  by_cases hb : c = .bool
  · subst hb
    exact ⟨Int.le_refl 0, Int.zero_le_ofNat 1, by simp [scalarRange, scalarWidth]⟩
  obtain ⟨k, hk⟩ := Nat.exists_eq_add_of_le' (hw c).1
  have hpow : Nat.pow 2 (k + 1) = Nat.pow 2 k * 2 := rfl
  have hpos : 0 < Nat.pow 2 k := Nat.two_pow_pos k
  rw [scalarRange, if_neg hb, hk]
  split <;> simp only [IntRange.signed, IntRange.unsigned, Nat.add_sub_cancel] <;> omega

theorem FitsWord.scalarWidth_le (hw : target.FitsWord) (c : ScalarType) :
    target.scalarWidth c ≤ 128 :=
  (hw c).2.trans (by decide)

theorem natAbs_lt_of_contains (hw : target.FitsWord) {c : ScalarType} {n : Int}
    (hn : (target.scalarRange c).contains n) : n.natAbs < Nat.pow 2 (target.scalarWidth c) := by
  have hbounds := scalarRange_bounds hw c
  have hn := IntRange.contains_iff.mp hn
  omega

theorem eq_of_congruent (hw : target.FitsWord) {c : ScalarType} {m n : Int}
    (hm : (target.scalarRange c).contains m) (hn : (target.scalarRange c).contains n)
    (h : (Nat.pow 2 (target.scalarWidth c) : Int) ∣ m - n) : m = n :=
  IntRange.eq_of_dvd (scalarRange_bounds hw c).2.2 hm hn h

/-- A range has one integer for a residue. -/
theorem eq_of_residues (hw : target.FitsWord) {c : ScalarType} {k m n : Int}
    (hk : (target.scalarRange c).contains k) (hm : (target.scalarRange c).contains m)
    (hkn : (Nat.pow 2 (target.scalarWidth c) : Int) ∣ k - n)
    (hmn : (Nat.pow 2 (target.scalarWidth c) : Int) ∣ m - n) : k = m := by
  have hsub := Int.dvd_sub hkn hmn
  rw [show k - n - (m - n) = k - m by omega] at hsub
  exact eq_of_congruent hw hk hm hsub

end Target

theorem Ty.isBool_scalar {c : ScalarType} (h : c ≠ .bool) : (scalar c).isBool = false := by
  cases c <;> first | rfl | exact absurd rfl h

theorem Ty.isFloating_of_isPromoted {c : ScalarType} (h : c.IsPromoted) :
    (scalar c).isFloating = false :=
  (facts_of_carrier (carrier?_of_isPromoted h)).2.2.1

namespace Value

variable {target : Target} {v : Value} {c s : ScalarType} {n : Int}

theorem toInt_eq_of_toInt? (h : v.toInt? = some n) : v.toInt = n := by
  obtain ⟨type, scalar⟩ := v
  cases scalar <;> simp_all [toInt?, toInt]

theorem WellFormed.exists_toInt? (h : v.WellFormed target) (hc : v.type.carrier? = some s) :
    ∃ n, v.toInt? = some n ∧ (target.scalarRange s).contains n := by
  obtain ⟨-, -, hrange, -⟩ := Ty.layout_of_carrier target hc
  obtain ⟨-, ha, hf, hp⟩ := Ty.facts_of_carrier hc
  obtain ⟨type, scalar⟩ := v
  have ht : type.isTestable := by cases type <;> first | rfl | cases ha
  cases scalar with
  | signed n =>
    simp only [WellFormed, Scalar.fits, hrange, Option.any_some, Bool.and_eq_true] at h
    exact ⟨n.toInt, rfl, h.2⟩
  | unsigned n =>
    simp only [WellFormed, Scalar.fits, hrange, hp, ht, Option.any_some, Bool.not_true,
      Bool.or_self, Bool.false_or, Bool.and_eq_true] at h
    exact ⟨n.toNat, rfl, h.2⟩
  | floating x => exact absurd h (by simp [WellFormed, Scalar.fits, hf])

theorem WellFormed.contains_of_toInt? (h : v.WellFormed target) (hc : v.type.carrier? = some s)
    (hn : v.toInt? = some n) : (target.scalarRange s).contains n := by
  obtain ⟨m, hm, hrange⟩ := h.exists_toInt? hc
  obtain rfl : n = m := Option.some.inj (hn.symm.trans hm)
  exact hrange

/-- The integer of the type that is congruent to `n` modulo the width. -/
theorem toInt?_ofInt (hw : target.FitsWord) (hb : c ≠ .bool) (n : Int) :
    ∃ m, (ofInt target (.scalar c) n).toInt? = some m ∧ (target.scalarRange c).contains m
      ∧ (Nat.pow 2 (target.scalarWidth c) : Int) ∣ m - n := by
  have hwidth : max 1 (min 64 (target.width (.scalar c))) = target.scalarWidth c := by
    have hfits := hw c
    have hc : target.width (.scalar c) = target.scalarWidth c := rfl
    omega
  have hbool := Ty.isBool_scalar hb
  have hsigned : target.isSigned (.scalar c) = target.scalarSigned c := rfl
  simp only [ofInt, hbool, hwidth, hsigned, Bool.false_eq_true, ↓reduceIte]
  cases hs : target.scalarSigned c with
  | true =>
    refine ⟨n.bmod (Nat.pow 2 (target.scalarWidth c)), ?_,
      Target.scalarRange_contains_bmod hw hb hs n, Int.dvd_bmod_sub_self⟩
    exact congrArg some (toInt_ofInt_bmod (hw c).1 (hw c).2 n)
  | false =>
    refine ⟨n.emod (Nat.pow 2 (target.scalarWidth c)), ?_,
      Target.scalarRange_contains_emod hb hs n, Int.dvd_sub_self_of_emod_eq rfl⟩
    exact congrArg some (toNat_ofNat_emod (hw c).2 n)

/-- The integer does not depend on whether the type is the scalar or an enumeration over it. -/
theorem toInt?_ofInt_eq {type : Ty} (ht : type.isBool = false) (hb : c ≠ .bool)
    (hwidth : target.width type = target.scalarWidth c)
    (hsigned : target.isSigned type = target.scalarSigned c) (n : Int) :
    (ofInt target type n).toInt? = (ofInt target (.scalar c) n).toInt? := by
  have hc := Ty.isBool_scalar hb
  have hcwidth : target.width (.scalar c) = target.scalarWidth c := rfl
  have hcsigned : target.isSigned (.scalar c) = target.scalarSigned c := rfl
  simp only [ofInt, ht, hc, hwidth, hsigned, hcwidth, hcsigned, Bool.false_eq_true, ↓reduceIte]
  split_ifs <;> rfl

theorem toInt?_ofInt_of_contains (hw : target.FitsWord) (hb : c ≠ .bool)
    (hn : (target.scalarRange c).contains n) :
    (ofInt target (.scalar c) n).toInt? = some n := by
  obtain ⟨m, hm, hrange, hcongruent⟩ := toInt?_ofInt hw hb n
  rw [hm, Target.eq_of_congruent hw hrange hn hcongruent]

theorem toInt?_convert (hw : target.FitsWord) (hc : c.IsPromoted) (hv : v.toInt? = some n) :
    ∃ m, (v.convert target (.scalar c)).toInt? = some m ∧ (target.scalarRange c).contains m
      ∧ (Nat.pow 2 (target.scalarWidth c) : Int) ∣ m - n := by
  rw [convert, Ty.isFloating_of_isPromoted hc, Ty.isBool_scalar hc.ne_bool, toInt_eq_of_toInt? hv]
  exact toInt?_ofInt hw hc.ne_bool n

theorem toInt?_convert_eq (hw : target.FitsWord) (hc : c.IsPromoted) (hv : v.toInt? = some n)
    {m : Int} (hm : (target.scalarRange c).contains m)
    (h : (Nat.pow 2 (target.scalarWidth c) : Int) ∣ m - n) :
    (v.convert target (.scalar c)).toInt? = some m := by
  obtain ⟨k, hk, hrange, hcongruent⟩ := toInt?_convert hw hc hv
  rw [hk, Target.eq_of_residues hw hrange hm hcongruent h]

/-- A conversion to a type that is no narrower makes zero of zero only. -/
theorem eq_zero_of_convert (hw : target.FitsWord) {s : ScalarType} {m : Int}
    (hn : (target.scalarRange s).contains n) (hle : target.scalarWidth s ≤ target.scalarWidth c)
    (hm : (target.scalarRange c).contains m)
    (h : (Nat.pow 2 (target.scalarWidth c) : Int) ∣ m - n) : m = 0 ↔ n = 0 := by
  obtain ⟨hmin, hmax, -⟩ := Target.scalarRange_bounds hw c
  have hzero : (target.scalarRange c).contains 0 := IntRange.contains_iff.mpr ⟨hmin, hmax⟩
  constructor
  · rintro rfl
    have hlt := Target.natAbs_lt_of_contains hw hn
    have hpow : Nat.pow 2 (target.scalarWidth s) ≤ Nat.pow 2 (target.scalarWidth c) :=
      Nat.pow_le_pow_right (by decide) hle
    have hself : n.natAbs < Nat.pow 2 (target.scalarWidth c) := by omega
    rw [Int.zero_sub, Int.dvd_neg] at h
    exact Int.eq_zero_of_dvd_of_natAbs_lt_natAbs h (by simpa using hself)
  · rintro rfl
    exact Target.eq_of_congruent hw hm hzero h

/-- The value of a scalar type that is congruent to an integer modulo the width of the type. -/
structure IsResidue (target : Target) (c : ScalarType) (n : Int) (v : Value) : Prop where
  type : v.type = .scalar c
  wellFormed : v.WellFormed target
  congruent : ∃ m, v.toInt? = some m ∧ (Nat.pow 2 (target.scalarWidth c) : Int) ∣ m - n

theorem WellFormed.eq_of_toInt? {w : Value} (hv : v.WellFormed target) (hw : w.WellFormed target)
    (ht : v.type = w.type) (hc : v.type.carrier? = some s) (hn : v.toInt? = some n)
    (hm : w.toInt? = some n) : v = w := by
  obtain ⟨-, ha, -, hp⟩ := Ty.facts_of_carrier hc
  obtain ⟨type, scalar⟩ := v
  obtain ⟨type', scalar'⟩ := w
  obtain rfl : type = type' := ht
  have htest : type.isTestable := by cases type <;> first | rfl | cases ha
  -- the sign of the type says which kind of content both have
  cases scalar <;> cases scalar' <;>
    simp_all [WellFormed, Scalar.fits, toInt?]
  · exact Int64.toInt_inj.mp (hn.trans hm.symm)
  · exact UInt64.toNat_inj.mp (by omega)

theorem isResidue_ofInt (hw : target.FitsWord) (hc : c.IsPromoted) (n : Int) :
    (ofInt target (.scalar c) n).IsResidue target c n := by
  have hi : (Ty.scalar c).isIntegral := hc.integral
  obtain ⟨m, hm, -, hcongruent⟩ := toInt?_ofInt hw hc.ne_bool n
  exact ⟨ofInt_type _ _, wellFormed_ofInt_of_isIntegral hw hi rfl n, m, hm, hcongruent⟩

namespace IsResidue

theorem congr {m : Int} (h : v.IsResidue target c m)
    (hdvd : (Nat.pow 2 (target.scalarWidth c) : Int) ∣ m - n) : v.IsResidue target c n := by
  obtain ⟨htype, hwellFormed, k, hk, hcongruent⟩ := h
  have hadd := Int.dvd_add hcongruent hdvd
  rw [show k - m + (m - n) = k - n by omega] at hadd
  exact ⟨htype, hwellFormed, k, hk, hadd⟩

theorem toInt?_eq (h : v.IsResidue target c n) (hw : target.FitsWord) (hc : c.IsPromoted)
    (hn : (target.scalarRange c).contains n) : v.toInt? = some n := by
  obtain ⟨htype, hwellFormed, m, hm, hcongruent⟩ := h
  have hcarrier : v.type.carrier? = some c := htype ▸ Ty.carrier?_of_isPromoted hc
  have hrange := hwellFormed.contains_of_toInt? hcarrier hm
  rw [hm, Target.eq_of_congruent hw hrange hn hcongruent]

/-- There is one residue only. -/
theorem unique {w : Value} (hv : v.IsResidue target c n) (hw' : w.IsResidue target c n)
    (hw : target.FitsWord) (hc : c.IsPromoted) : w = v := by
  have hcarrier {u : Value} (h : u.IsResidue target c n) : u.type.carrier? = some c :=
    h.type ▸ Ty.carrier?_of_isPromoted hc
  obtain ⟨m, hm, hcongruent⟩ := hv.congruent
  obtain ⟨k, hk, hcongruent'⟩ := hw'.congruent
  have hrange := hv.wellFormed.contains_of_toInt? (hcarrier hv) hm
  have hrange' := hw'.wellFormed.contains_of_toInt? (hcarrier hw') hk
  obtain rfl := Target.eq_of_residues hw hrange' hrange hcongruent' hcongruent
  exact hw'.wellFormed.eq_of_toInt? hv.wellFormed (hw'.type.trans hv.type.symm) (hcarrier hw') hk hm

end IsResidue

end Value

end Assay
