import Assay.Ty.Conversion
import Mathlib.Tactic.SplitIfs

/-!
# Types with enumerations of a class

What the conversions of types do depends on the scalars beneath the enumerations. A type whose
enumerations are all of some class, at any depth of pointers and fields, passes this on to every
type reached from it. Where that class lacks unscoped enumerations over one of the two floating
scalars, the order of the operands does not decide their common type (`commonType?_comm`,
`conditionalType?_comm`).
-/

namespace Assay

mutual

/-- Whether every enumeration inside a type is of the class. -/
def Ty.enumsIn (p : EnumType → Bool) : Ty → Bool
  | .scalar _ => true
  | .enumeration e => p e
  | .pointer pointee => pointee.enumsIn p
  | .record r => r.enumsIn p

def RecordType.enumsIn (p : EnumType → Bool) : RecordType → Bool
  | ⟨_, _, _, fields⟩ => fields.enumsIn p

def Field.enumsIn (p : EnumType → Bool) : Field → Bool
  | ⟨_, type, _⟩ => type.enumsIn p

def Fields.enumsIn (p : EnumType → Bool) : Fields → Bool
  | .nil => true
  | .cons field rest => field.enumsIn p && rest.enumsIn p

end

/-- The type of a record's field. -/
def Ty.fieldType? (type : Ty) (field : String) : Option Ty :=
  match type with
  | .record r => (r.field? field).map (·.type)
  | _ => none

section Enumerations

variable {p : EnumType → Bool}

@[simp] theorem Ty.enumsIn_pointer (pointee : Ty) :
    (pointer pointee).enumsIn p = pointee.enumsIn p := by
  rw [Ty.enumsIn]

theorem Fields.enumsIn_of_mem : ∀ {fields : Fields} {field : Field},
    fields.enumsIn p → field ∈ fields.toList → field.type.enumsIn p
  | .nil, _, _, h => by simp [Fields.toList] at h
  | .cons ⟨_, type, _⟩ rest, field, ho, h => by
    simp only [Fields.enumsIn, Field.enumsIn, Bool.and_eq_true] at ho
    simp only [Fields.toList, List.mem_cons] at h
    rcases h with rfl | h
    · exact ho.1
    · exact enumsIn_of_mem ho.2 h

theorem RecordType.enumsIn_of_field? {r : RecordType} {name : String} {field : Field}
    (ho : r.enumsIn p) (h : r.field? name = some field) : field.type.enumsIn p := by
  obtain ⟨_, _, _, fields⟩ := r
  exact Fields.enumsIn_of_mem ho (List.mem_of_find?_eq_some h)

theorem Ty.enumsIn_of_pointee? {type pointee : Ty} (ho : type.enumsIn p)
    (h : type.pointee? = some pointee) : pointee.enumsIn p := by
  cases type <;> simp only [Ty.pointee?, reduceCtorEq, Option.some.injEq] at h
  subst h
  exact ho

theorem Ty.enumsIn_of_fieldType? {type fieldType : Ty} {field : String} (ho : type.enumsIn p)
    (h : type.fieldType? field = some fieldType) : fieldType.enumsIn p := by
  cases type <;> simp only [Ty.fieldType?, reduceCtorEq, Option.map_eq_some_iff] at h
  obtain ⟨found, hf, rfl⟩ := h
  exact RecordType.enumsIn_of_field? ho hf

end Enumerations

theorem Ty.isFloating_eq_false {type : Ty} (hd : type ≠ .scalar .double)
    (hf : type ≠ .scalar .float) : type.isFloating = false := by
  cases type with
  | scalar s => cases s <;> first | rfl | exact absurd rfl hd | exact absurd rfl hf
  | _ => rfl

/-- The unscoped enumerations of the class do not rest on both floating scalars. -/
def EnumType.OneFloating (p : EnumType → Bool) : Prop :=
  (∀ e, p e → e.isScoped = false → e.underlying ≠ .float)
    ∨ ∀ e, p e → e.isScoped = false → e.underlying ≠ .double

theorem EnumType.OneFloating.eq {p : EnumType → Bool} (hp : OneFloating p) {e f : EnumType}
    (he : p e) (hf : p f) (hes : e.isScoped = false) (hfs : f.isScoped = false)
    (hef : e.underlying.isFloating) (hff : f.underlying.isFloating) :
    e.underlying = f.underlying := by
  have hcases {s : ScalarType} (hs : s.isFloating) : s = .float ∨ s = .double := by
    cases s <;> simp_all [ScalarType.isFloating]
  rcases hp with hp | hp
  · rw [(hcases hef).resolve_left (hp e he hes), (hcases hff).resolve_left (hp f hf hfs)]
  · rw [(hcases hef).resolve_right (hp e he hes), (hcases hff).resolve_right (hp f hf hfs)]

namespace ScalarType

theorem eq_of_rank_eq {target : Target} {l r : ScalarType}
    (hf : l.isFloating → r.isFloating → l = r) (h3 : 3 ≤ l.rank) (hrank : l.rank = r.rank)
    (hs : target.scalarSigned l = target.scalarSigned r) : l = r := by
  cases l <;> simp [rank] at h3 <;>
    cases r <;> simp_all [rank, isFloating, Target.scalarSigned]

end ScalarType

namespace Target

variable (target : Target)

/-- Promotion gives a scalar whose rank is at least that of `int`; a floating scalar stays as it
is, and no other becomes one. -/
theorem promoteScalar_facts (s : ScalarType) :
    3 ≤ (target.promoteScalar s).rank
      ∧ ((target.promoteScalar s).isFloating → target.promoteScalar s = s) := by
  unfold promoteScalar
  by_cases h : ScalarType.int.rank ≤ s.rank
  · simp only [h, ↓reduceIte]
    exact ⟨h, fun _ => trivial⟩
  · simp only [h, ↓reduceIte]
    split_ifs <;> exact ⟨by decide, fun hf => by simp [ScalarType.isFloating] at hf⟩

/-- Two scalars of at least the rank of `int`, which are not two floating ones, have one common
scalar, whichever comes first. -/
theorem commonScalar_comm {l r : ScalarType} (hf : l.isFloating → r.isFloating → l = r)
    (h3 : 3 ≤ l.rank) : target.commonScalar l r = target.commonScalar r l := by
  unfold commonScalar
  by_cases he : l = r
  · simp [he]
  by_cases hs : target.scalarSigned l = target.scalarSigned r
  · -- of two ranks only one is the higher, since equal ranks would make the scalars equal
    have hne : l.rank ≠ r.rank := fun hrank => he (ScalarType.eq_of_rank_eq hf h3 hrank hs)
    simp only [he, Ne.symm he, hs, ↓reduceIte]
    split_ifs <;> first | rfl | omega
  · simp only [he, Ne.symm he, hs, Ne.symm hs, ↓reduceIte]
    cases hsl : target.scalarSigned l <;> cases hsr : target.scalarSigned r <;> simp_all

/-- An arithmetic type that is not floating promotes to a scalar, which is floating only where the
type is an unscoped enumeration over it. -/
theorem promote_of_arithmetic {p : EnumType → Bool} {type : Ty} (ha : type.isArithmetic)
    (hf : type.isFloating = false) (ho : type.enumsIn p) :
    ∃ s : ScalarType, target.promote type = .scalar s ∧ 3 ≤ s.rank
      ∧ (s.isFloating → ∃ e : EnumType, p e ∧ e.isScoped = false ∧ e.underlying = s) := by
  cases type with
  | scalar s =>
    have hs : s.isFloating = false := hf
    obtain ⟨h3, hfl⟩ := target.promoteScalar_facts s
    refine ⟨_, by simp [promote, ScalarType.isIntegral, hs], h3, fun h => ?_⟩
    rw [hfl h, hs] at h
    cases h
  | enumeration e =>
    have he : e.isScoped = false := by simpa [Ty.isArithmetic] using ha
    obtain ⟨h3, hfl⟩ := target.promoteScalar_facts e.underlying
    refine ⟨_, by simp [promote, he], h3, fun h => ?_⟩
    exact ⟨e, ho, he, (hfl h).symm⟩
  | pointer _ => simp [Ty.isArithmetic] at ha
  | record _ => simp [Ty.isArithmetic] at ha

theorem commonType?_comm {p : EnumType → Bool} (hp : EnumType.OneFloating p) {l r : Ty}
    (hl : l.enumsIn p) (hr : r.enumsIn p) :
    target.commonType? l r = target.commonType? r l := by
  unfold commonType?
  by_cases hal : l.isArithmetic = true
  · by_cases har : r.isArithmetic = true
    · simp only [hal, har, Bool.not_true, Bool.or_self, Bool.false_eq_true, ↓reduceIte]
      by_cases hd : l = .scalar .double ∨ r = .scalar .double
      · rw [if_pos hd, if_pos hd.symm]
      by_cases hf : l = .scalar .float ∨ r = .scalar .float
      · rw [if_neg hd, if_neg (hd ∘ Or.symm), if_pos hf, if_pos hf.symm]
      rw [if_neg hd, if_neg (hd ∘ Or.symm), if_neg hf, if_neg (hf ∘ Or.symm)]
      rw [not_or] at hd hf
      obtain ⟨s, hs, hs3, hsp⟩ :=
        target.promote_of_arithmetic hal (Ty.isFloating_eq_false hd.1 hf.1) hl
      obtain ⟨t, ht, -, htp⟩ :=
        target.promote_of_arithmetic har (Ty.isFloating_eq_false hd.2 hf.2) hr
      have hst : s.isFloating → t.isFloating → s = t := by
        intro hsf htf
        obtain ⟨e, he, hes, rfl⟩ := hsp hsf
        obtain ⟨f, hf, hfs, rfl⟩ := htp htf
        exact hp.eq he hf hes hfs hsf htf
      simp only [hs, ht, target.commonScalar_comm hst hs3]
    · simp [har]
  · simp [hal]

/-- The common type of a conditional's branches does not depend on which comes first. -/
theorem conditionalType?_comm {p : EnumType → Bool} (hp : EnumType.OneFloating p) {l r : Ty}
    (hl : l.enumsIn p) (hr : r.enumsIn p) :
    target.conditionalType? l r = target.conditionalType? r l := by
  unfold conditionalType?
  by_cases he : l = r
  · simp [he]
  · simp only [he, Ne.symm he, ↓reduceIte, target.commonType?_comm hp hl hr]
    cases target.commonType? r l with
    | some common => rfl
    | none => cases hl : l.isPointer <;> cases hr : r.isPointer <;> simp

section Preserved

variable {p : EnumType → Bool}

theorem commonType?_eq_scalar {l r common : Ty} (h : target.commonType? l r = some common) :
    ∃ s, common = .scalar s := by
  unfold commonType? at h
  split_ifs at h
  · exact ⟨_, (Option.some.inj h).symm⟩
  · exact ⟨_, (Option.some.inj h).symm⟩
  · split at h <;> simp only [Option.some.injEq, reduceCtorEq] at h
    exact ⟨_, h.symm⟩

theorem commonType?_enumsIn {l r common : Ty} (h : target.commonType? l r = some common) :
    common.enumsIn p := by
  obtain ⟨s, rfl⟩ := target.commonType?_eq_scalar h
  simp [Ty.enumsIn]

theorem promote_enumsIn {type : Ty} (h : type.enumsIn p) :
    (target.promote type).enumsIn p := by
  unfold promote
  split
  · split_ifs <;> simp [Ty.enumsIn]
  · split_ifs
    · exact h
    · simp [Ty.enumsIn]
  · exact h

theorem conditionalType?_enumsIn {l r common : Ty} (hl : l.enumsIn p) (hr : r.enumsIn p)
    (h : target.conditionalType? l r = some common) : common.enumsIn p := by
  unfold conditionalType? at h
  by_cases he : l = r
  · rw [if_pos he] at h
    exact Option.some.inj h ▸ hl
  · rw [if_neg he] at h
    rcases hc : target.commonType? l r with _ | c <;> rw [hc] at h
    · simp only [] at h
      split_ifs at h
      · exact Option.some.inj h ▸ hl
      · exact Option.some.inj h ▸ hr
    · exact Option.some.inj h ▸ target.commonType?_enumsIn hc

end Preserved

end Target

end Assay
