import Assay.Proofs.Value.Residue

/-!
# Conversions to wider types

The type to which an integer operand is promoted holds every integer of the operand's type
(`contains_promoteScalar`). The common type of two operands does so too when it is signed, since it
is wider than an unsigned operand then; when it is unsigned it holds those that are not negative,
and the others moved up by the number of its values (`contains_shifted`).
-/

namespace Assay

namespace Target

variable {target : Target} {c s t : ScalarType} {n : Int}

/-- A signed type holds the integers of a signed type that is no wider and of an unsigned type that
is narrower. -/
theorem contains_of_signed (hc : target.scalarSigned c)
    (hle : target.scalarWidth s ≤ target.scalarWidth c)
    (hlt : target.scalarSigned s = false → target.scalarWidth s < target.scalarWidth c)
    (hn : (target.scalarRange s).contains n) : (target.scalarRange c).contains n := by
  have hcb : c ≠ .bool := by
    rintro rfl
    cases hc
  have hpow {k : Nat} (hk : k ≤ target.scalarWidth c - 1) :
      Nat.pow 2 k ≤ Nat.pow 2 (target.scalarWidth c - 1) := Nat.pow_le_pow_right (by decide) hk
  unfold scalarRange at hn ⊢
  rw [if_neg hcb, if_pos hc]
  rw [IntRange.contains_iff] at hn ⊢
  simp only [IntRange.signed]
  -- `bool` counts as unsigned here, with fewer values than its width allows
  split_ifs at hn with hb hs
  · have hwidth : target.scalarWidth s = 8 := hb ▸ rfl
    have hlt := hlt (hb ▸ rfl)
    have htwo : 2 ≤ Nat.pow 2 (target.scalarWidth c - 1) := hpow (k := 1) (by omega)
    simp only [] at hn
    omega
  · have hpow := hpow (k := target.scalarWidth s - 1) (by omega)
    simp only [IntRange.signed] at hn
    omega
  · have hlt := hlt (by simpa using hs)
    have hpow := hpow (k := target.scalarWidth s) (by omega)
    simp only [IntRange.unsigned] at hn
    omega

/-- What an integer becomes in a scalar type: a negative one is moved up by the number of values of
an unsigned type. -/
def shifted (target : Target) (c : ScalarType) (n : Int) : Int :=
  if n < 0 ∧ target.scalarSigned c = false then n + Nat.pow 2 (target.scalarWidth c) else n

theorem shifted_of_signed (hc : target.scalarSigned c) (n : Int) : target.shifted c n = n := by
  simp [shifted, hc]

theorem shifted_of_nonneg (hn : 0 ≤ n) : target.shifted c n = n := by
  rw [shifted, if_neg (by omega)]

theorem dvd_shifted_sub (target : Target) (c : ScalarType) (n : Int) :
    (Nat.pow 2 (target.scalarWidth c) : Int) ∣ target.shifted c n - n := by
  unfold shifted
  split_ifs
  · exact ⟨1, by omega⟩
  · simp

theorem contains_shifted_of_unsigned (hw : target.FitsWord) (hb : c ≠ .bool)
    (hc : target.scalarSigned c = false) (hle : target.scalarWidth s ≤ target.scalarWidth c)
    (hn : (target.scalarRange s).contains n) :
    (target.scalarRange c).contains (target.shifted c n) := by
  have hlt := natAbs_lt_of_contains hw hn
  have hpow : Nat.pow 2 (target.scalarWidth s) ≤ Nat.pow 2 (target.scalarWidth c) :=
    Nat.pow_le_pow_right (by decide) hle
  rw [scalarRange, if_neg hb, if_neg (by simp [hc]), IntRange.contains_iff, shifted]
  simp only [hc, and_true, IntRange.unsigned]
  split_ifs <;> omega

section Promotion

theorem promoteScalar_eq_int (h : s.rank < ScalarType.int.rank) :
    target.promoteScalar s = .int := by
  cases s <;> first | rfl | exact absurd h (by decide)

/-- Promotion makes no difference to a type, or makes an `int` of a narrower one. -/
theorem promoteScalar_cases (target : Target) (s : ScalarType) :
    target.promoteScalar s = s
      ∨ target.promoteScalar s = .int ∧ target.scalarWidth s < target.scalarWidth .int := by
  rcases Nat.lt_or_ge s.rank ScalarType.int.rank with h | h
  · refine .inr ⟨promoteScalar_eq_int h, ?_⟩
    cases s <;> simp_all [scalarWidth, ScalarType.rank]
  · exact .inl (by rw [promoteScalar, if_pos h])

theorem contains_promoteScalar (hn : (target.scalarRange s).contains n) :
    (target.scalarRange (target.promoteScalar s)).contains n := by
  rcases target.promoteScalar_cases s with h | ⟨h, hlt⟩ <;> rw [h]
  · exact hn
  · exact contains_of_signed rfl hlt.le (fun _ => hlt) hn

end Promotion

theorem scalarSigned_unsignedCounterpart (h : s.IsPromoted) :
    target.scalarSigned s.unsignedCounterpart = false := by
  obtain ⟨hrank, hint⟩ := h
  cases s <;> first | rfl | exact absurd hrank (by decide) | cases hint

/-- A signed common type of promoted scalars is wider than an unsigned one of them. -/
theorem scalarWidth_lt_commonScalar (hs : s.IsPromoted) (ht : t.IsPromoted)
    (hc : target.scalarSigned (target.commonScalar s t)) :
    (target.scalarSigned s = false →
        target.scalarWidth s < target.scalarWidth (target.commonScalar s t))
      ∧ (target.scalarSigned t = false →
          target.scalarWidth t < target.scalarWidth (target.commonScalar s t)) := by
  have hsu : target.scalarSigned s.unsignedCounterpart = false :=
    scalarSigned_unsignedCounterpart hs
  have htu : target.scalarSigned t.unsignedCounterpart = false :=
    scalarSigned_unsignedCounterpart ht
  unfold commonScalar at hc ⊢
  grind

theorem scalarWidth_lt_of_promoteScalar {w : Nat} (hs : target.scalarSigned s = false)
    (hle : target.scalarWidth (target.promoteScalar s) ≤ w)
    (hlt : target.scalarSigned (target.promoteScalar s) = false →
      target.scalarWidth (target.promoteScalar s) < w) : target.scalarWidth s < w := by
  rcases target.promoteScalar_cases s with h | ⟨h, hint⟩ <;> rw [h] at hle hlt
  · exact hlt hs
  · omega

/-- A signed common type is wider than an unsigned operand. -/
theorem scalarWidth_lt_commonCarrier (arch : Arch) (hs : s.isIntegral) (ht : t.isIntegral)
    (hc : (ofArch arch).scalarSigned ((ofArch arch).commonCarrier s t)) :
    let width := (ofArch arch).scalarWidth
    ((ofArch arch).scalarSigned s = false → width s < width ((ofArch arch).commonCarrier s t))
      ∧ ((ofArch arch).scalarSigned t = false →
          width t < width ((ofArch arch).commonCarrier s t)) := by
  intro width
  have hps : ((ofArch arch).promoteScalar s).IsPromoted := promoteScalar_isPromoted hs
  have hpt : ((ofArch arch).promoteScalar t).IsPromoted := promoteScalar_isPromoted ht
  obtain ⟨hls, hlt⟩ := scalarWidth_lt_commonScalar hps hpt hc
  obtain ⟨hws, hwt⟩ := scalarWidth_le_commonScalar arch hps hpt
  exact ⟨fun h => scalarWidth_lt_of_promoteScalar h hws hls,
    fun h => scalarWidth_lt_of_promoteScalar h hwt hlt⟩

/-- What the integers of the operands become in their common type is in its range. -/
theorem contains_shifted (arch : Arch) (hs : s.isIntegral) (ht : t.isIntegral) {m : Int}
    (hm : ((ofArch arch).scalarRange s).contains m)
    (hn : ((ofArch arch).scalarRange t).contains n) :
    let common := (ofArch arch).commonCarrier s t
    let range := (ofArch arch).scalarRange common
    range.contains ((ofArch arch).shifted common m)
      ∧ range.contains ((ofArch arch).shifted common n) := by
  intro common range
  have hw := fitsWord_ofArch arch
  have hb : common ≠ .bool := ((ofArch arch).commonCarrier_isPromoted hs ht).ne_bool
  obtain ⟨hls, hlt⟩ := scalarWidth_le_commonCarrier arch hs ht
  by_cases hc : (ofArch arch).scalarSigned common
  · obtain ⟨hss, hts⟩ := scalarWidth_lt_commonCarrier arch hs ht hc
    rw [shifted_of_signed hc, shifted_of_signed hc]
    exact ⟨contains_of_signed hc hls hss hm, contains_of_signed hc hlt hts hn⟩
  · have hc : (ofArch arch).scalarSigned common = false := by simpa using hc
    exact ⟨contains_shifted_of_unsigned hw hb hc hls hm,
      contains_shifted_of_unsigned hw hb hc hlt hn⟩

end Target

end Assay
