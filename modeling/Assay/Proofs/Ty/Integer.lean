import Assay.Ty.Conversion
import Mathlib.Order.Monotone.Basic
import Mathlib.Tactic.SplitIfs

/-!
# Types of integer arithmetic

A type that takes part in integer arithmetic has the values of an integral scalar (`Ty.carrier?`).
Promotion and the usual arithmetic conversions of such types give integral scalars of at least the
rank of `int` (`commonType?_of_carrier`). Widths only grow with rank, so no operand is wider than
the common type (`scalarWidth_le_commonCarrier`).
-/

namespace Assay

/-- The integral scalar whose values a type has, if the type takes part in integer arithmetic. -/
def Ty.carrier? : Ty → Option ScalarType
  | .scalar s => if s.isIntegral then some s else none
  | .enumeration e => if !e.isScoped && e.underlying.isIntegral then some e.underlying else none
  | .pointer _ | .record _ => none

/-- Whether a type is a pointer, a scalar of the class, or an enumeration over one. -/
def Ty.restsOn (p : ScalarType → Bool) : Ty → Bool
  | .scalar s => p s
  | .enumeration e => p e.underlying
  | .pointer _ => true
  | .record _ => false

/-- An integral scalar that promotion leaves as it is. -/
structure ScalarType.IsPromoted (s : ScalarType) : Prop where
  rank : ScalarType.int.rank ≤ s.rank
  integral : s.isIntegral

namespace ScalarType

theorem IsPromoted.ne_bool {s : ScalarType} (h : s.IsPromoted) : s ≠ .bool := by
  rintro rfl
  cases h.rank

theorem IsPromoted.unsignedCounterpart {s : ScalarType} (h : s.IsPromoted) :
    s.unsignedCounterpart.IsPromoted := by
  obtain ⟨hrank, hint⟩ := h
  cases s with
  | bool | char | signedChar | unsignedChar | short | unsignedShort => cases hrank <;> contradiction
  | float | double => cases hint
  | int | unsignedInt | long | unsignedLong | longLong | unsignedLongLong =>
    exact ⟨by decide, rfl⟩

theorem rank_unsignedCounterpart (s : ScalarType) : s.unsignedCounterpart.rank = s.rank := by
  cases s <;> rfl

end ScalarType

namespace Target

/-- The width of an integral scalar, by its rank. -/
def rankWidth (target : Target) : Nat → Nat
  | 0 | 1 => 8
  | 2 => 16
  | 3 => 32
  | 4 => target.longBits
  | _ => 64

theorem scalarWidth_eq_rankWidth (target : Target) {s : ScalarType} (h : s.isIntegral) :
    target.scalarWidth s = target.rankWidth s.rank := by
  cases s <;> first | rfl | cases h

theorem rankWidth_monotone (arch : Arch) : Monotone (ofArch arch).rankWidth := by
  have hlong : 32 ≤ (ofArch arch).longBits ∧ (ofArch arch).longBits ≤ 64 := by
    cases arch <;> decide
  refine monotone_nat_of_le_succ fun rank => ?_
  rcases rank with _ | _ | _ | _ | _ | rank <;> simp only [rankWidth] <;> omega

theorem scalarWidth_le_of_rank_le (arch : Arch) {s t : ScalarType} (hs : s.isIntegral)
    (ht : t.isIntegral) (h : s.rank ≤ t.rank) :
    (ofArch arch).scalarWidth s ≤ (ofArch arch).scalarWidth t := by
  rw [scalarWidth_eq_rankWidth _ hs, scalarWidth_eq_rankWidth _ ht]
  exact rankWidth_monotone arch h

section Promotion

variable {target : Target} {s t : ScalarType}

theorem promoteScalar_isPromoted (h : s.isIntegral) : (target.promoteScalar s).IsPromoted := by
  unfold promoteScalar
  by_cases hrank : ScalarType.int.rank ≤ s.rank
  · simp only [hrank, ↓reduceIte]
    exact ⟨hrank, h⟩
  · simp only [hrank, ↓reduceIte]
    split_ifs <;> exact ⟨by decide, rfl⟩

theorem rank_le_promoteScalar : s.rank ≤ (target.promoteScalar s).rank := by
  unfold promoteScalar
  by_cases hrank : ScalarType.int.rank ≤ s.rank
  · simp only [hrank, ↓reduceIte, Nat.le_refl]
  · simp only [hrank, ↓reduceIte]
    split_ifs <;> exact Nat.le_of_lt (Nat.not_le.mp hrank)

/-- Of two promoted scalars the common one is either of them, or the unsigned counterpart of the one
that outranks the other. -/
theorem commonScalar_cases (target : Target) (s t : ScalarType) :
    (target.commonScalar s t = s ∧ (t.rank ≤ s.rank ∨ target.scalarWidth t ≤ target.scalarWidth s))
      ∨ (target.commonScalar s t = t
          ∧ (s.rank ≤ t.rank ∨ target.scalarWidth s ≤ target.scalarWidth t))
      ∨ (target.commonScalar s t = s.unsignedCounterpart ∧ t.rank ≤ s.rank)
      ∨ (target.commonScalar s t = t.unsignedCounterpart ∧ s.rank ≤ t.rank) := by
  unfold commonScalar
  by_cases he : s = t
  · exact .inl ⟨if_pos he, .inl (he ▸ Nat.le_refl _)⟩
  by_cases hsigned : target.scalarSigned s = target.scalarSigned t
  · simp only [he, hsigned, ↓reduceIte]
    split_ifs with h
    · exact .inl ⟨rfl, .inl h⟩
    · exact .inr (.inl ⟨rfl, .inl (by omega)⟩)
  · simp only [he, hsigned, ↓reduceIte]
    cases target.scalarSigned s <;> simp only [Bool.false_eq_true, ↓reduceIte] <;>
      split_ifs <;> grind

theorem commonScalar_isPromoted (hs : s.IsPromoted) (ht : t.IsPromoted) :
    (target.commonScalar s t).IsPromoted := by
  obtain ⟨h, -⟩ | ⟨h, -⟩ | ⟨h, -⟩ | ⟨h, -⟩ := target.commonScalar_cases s t <;> rw [h]
  · exact hs
  · exact ht
  · exact hs.unsignedCounterpart
  · exact ht.unsignedCounterpart

end Promotion

theorem scalarWidth_le_commonScalar (arch : Arch) {s t : ScalarType} (hs : s.IsPromoted)
    (ht : t.IsPromoted) :
    let width := (ofArch arch).scalarWidth
    width s ≤ width ((ofArch arch).commonScalar s t)
      ∧ width t ≤ width ((ofArch arch).commonScalar s t) := by
  intro width
  have hranked {a b : ScalarType} (ha : a.IsPromoted) (hb : b.IsPromoted) (h : a.rank ≤ b.rank) :
      (ofArch arch).scalarWidth a ≤ (ofArch arch).scalarWidth b :=
    scalarWidth_le_of_rank_le arch ha.integral hb.integral h
  obtain ⟨h, hle⟩ | ⟨h, hle⟩ | ⟨h, hle⟩ | ⟨h, hle⟩ := (ofArch arch).commonScalar_cases s t <;>
    rw [h]
  · exact ⟨Nat.le_refl _, hle.elim (hranked ht hs) id⟩
  · exact ⟨hle.elim (hranked hs ht) id, Nat.le_refl _⟩
  · rw [← s.rank_unsignedCounterpart] at hle
    exact ⟨hranked hs hs.unsignedCounterpart s.rank_unsignedCounterpart.ge,
      hranked ht hs.unsignedCounterpart hle⟩
  · rw [← t.rank_unsignedCounterpart] at hle
    exact ⟨hranked hs ht.unsignedCounterpart hle,
      hranked ht ht.unsignedCounterpart t.rank_unsignedCounterpart.ge⟩

end Target

namespace Ty

variable {type : Ty} {s : ScalarType}

theorem isIntegral_of_carrier (h : type.carrier? = some s) : s.isIntegral := by
  cases type with
  | scalar t =>
    rw [carrier?] at h
    split at h <;> cases h
    assumption
  | enumeration e =>
    rw [carrier?] at h
    split at h <;> cases h
    rename_i he
    exact (Bool.and_eq_true_iff.mp he).2
  | pointer _ | record _ => cases h

theorem facts_of_carrier (h : type.carrier? = some s) :
    type.isIntegral ∧ type.isArithmetic ∧ type.isFloating = false ∧ type.isPointer = false := by
  have hs := isIntegral_of_carrier h
  cases type with
  | scalar t =>
    rw [carrier?] at h
    split at h <;> cases h
    exact ⟨hs, rfl, by simpa [Ty.isFloating, ScalarType.isIntegral] using hs, rfl⟩
  | enumeration e =>
    rw [carrier?] at h
    split at h <;> cases h
    rename_i he
    exact ⟨rfl, (Bool.and_eq_true_iff.mp he).1, rfl, rfl⟩
  | pointer _ | record _ => cases h

/-- A type has the width, sign and range of its carrier, and is promoted as it is. -/
theorem layout_of_carrier (target : Target) (h : type.carrier? = some s) :
    target.width type = target.scalarWidth s ∧ target.isSigned type = target.scalarSigned s
      ∧ target.range? type = some (target.scalarRange s)
      ∧ target.promote type = .scalar (target.promoteScalar s) := by
  have hs := isIntegral_of_carrier h
  cases type with
  | scalar t =>
    rw [carrier?] at h
    split at h <;> cases h
    exact ⟨rfl, rfl, if_pos hs, if_pos hs⟩
  | enumeration e =>
    rw [carrier?] at h
    split at h <;> cases h
    rename_i he
    have hscoped : e.isScoped = false := by simpa using (Bool.and_eq_true_iff.mp he).1
    refine ⟨rfl, rfl, rfl, ?_⟩
    rw [Target.promote, hscoped]
    rfl
  | pointer _ | record _ => cases h

theorem carrier?_of_isPromoted (h : s.IsPromoted) : (scalar s).carrier? = some s :=
  if_pos h.integral

end Ty

namespace Target

variable {l r : Ty} {s t : ScalarType}

/-- The scalar in which two scalars are computed with. -/
def commonCarrier (target : Target) (s t : ScalarType) : ScalarType :=
  target.commonScalar (target.promoteScalar s) (target.promoteScalar t)

theorem commonCarrier_isPromoted (target : Target) (hs : s.isIntegral) (ht : t.isIntegral) :
    (target.commonCarrier s t).IsPromoted :=
  commonScalar_isPromoted (promoteScalar_isPromoted hs) (promoteScalar_isPromoted ht)

theorem scalarWidth_le_commonCarrier (arch : Arch) (hs : s.isIntegral) (ht : t.isIntegral) :
    let width := (ofArch arch).scalarWidth
    width s ≤ width ((ofArch arch).commonCarrier s t)
      ∧ width t ≤ width ((ofArch arch).commonCarrier s t) := by
  intro width
  have hps : ((ofArch arch).promoteScalar s).IsPromoted := promoteScalar_isPromoted hs
  have hpt : ((ofArch arch).promoteScalar t).IsPromoted := promoteScalar_isPromoted ht
  obtain ⟨hl, hr⟩ := scalarWidth_le_commonScalar arch hps hpt
  exact ⟨(scalarWidth_le_of_rank_le arch hs hps.integral rank_le_promoteScalar).trans hl,
    (scalarWidth_le_of_rank_le arch ht hpt.integral rank_le_promoteScalar).trans hr⟩

theorem commonType?_of_carrier (target : Target) (hl : l.carrier? = some s)
    (hr : r.carrier? = some t) :
    target.commonType? l r = some (.scalar (target.commonCarrier s t)) := by
  obtain ⟨-, hal, hfl, -⟩ := Ty.facts_of_carrier hl
  obtain ⟨-, har, hfr, -⟩ := Ty.facts_of_carrier hr
  have hne {type : Ty} (hf : type.isFloating = false) :
      type ≠ .scalar .double ∧ type ≠ .scalar .float := by
    constructor <;> rintro rfl <;> cases hf
  simp only [commonType?, hal, har, hne hfl, hne hfr, (Ty.layout_of_carrier target hl).2.2.2,
    (Ty.layout_of_carrier target hr).2.2.2, Bool.not_true, Bool.or_self, Bool.false_eq_true,
    or_self, ↓reduceIte, commonCarrier]

end Target

end Assay
