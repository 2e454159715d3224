import Assay.Proofs.Value.WellFormed

/-!
# Addresses

Memory reaches as far as the pointers of a target can (`Target.Spans`). An integer that becomes a
pointer is reduced to an address there (`ofInt_pointer`), so an integer brought to any type gives a
value that lies in memory (`inMemory_ofInt`).
-/

namespace Assay

/-- The address is one that a pointer of the target can hold. -/
def Target.Spans (target : Target) (address : Int) : Prop :=
  0 ≤ address ∧ address < Nat.pow 2 target.pointerBits

instance (target : Target) (address : Int) : Decidable (target.Spans address) :=
  inferInstanceAs (Decidable (_ ∧ _))

/-- The address that the value holds, or that its record lies at, is in memory. -/
def Value.InMemory (target : Target) (v : Value) : Prop :=
  ∀ address ∈ v.address?, target.Spans address.toNat

instance (target : Target) (v : Value) : Decidable (v.InMemory target) :=
  Option.decidableForallMem v.address?

namespace Target

theorem pointerBits_bounds (arch : Arch) :
    1 ≤ (ofArch arch).pointerBits ∧ (ofArch arch).pointerBits ≤ 64 := by
  cases arch <;> decide

theorem spans_emod (target : Target) (n : Int) :
    target.Spans (n.emod (Nat.pow 2 target.pointerBits)) := by
  have hr := IntRange.contains_iff.mp (IntRange.unsigned_contains_emod target.pointerBits n)
  simp only [IntRange.unsigned] at hr
  exact ⟨hr.1, by omega⟩

end Target

namespace Value

variable {arch : Arch}

theorem ofInt_pointer (pointee : Ty) (raw : Int) :
    ofInt (.ofArch arch) (.pointer pointee) raw =
      .pointer pointee (.ofNat (raw.emod (Nat.pow 2 (Target.ofArch arch).pointerBits)).toNat) := by
  have hbits := Target.pointerBits_bounds arch
  have hwidth : max 1 (min 64 (Target.ofArch arch).pointerBits) =
      (Target.ofArch arch).pointerBits := by omega
  simp [ofInt, Ty.isBool, Target.width, Target.isSigned, hwidth, pointer]

theorem inMemory_pointer {target : Target} {pointee : Ty} {address : UInt64}
    (h : target.Spans address.toNat) : (pointer pointee address).InMemory target := by
  rintro _ ⟨⟩
  exact h

theorem inMemory_record {target : Target} {r : RecordType} {address : UInt64}
    (h : target.Spans address.toNat) : (record r address).InMemory target := by
  rintro _ ⟨⟩
  exact h

theorem address?_eq_none {v : Value} (ht : v.type.isTestable) (hp : v.type.isPointer = false) :
    v.address? = none := by
  obtain ⟨type, scalar⟩ := v
  cases type with
  | scalar _ | enumeration _ => rfl
  | pointer _ => cases hp
  | record _ => cases ht

/-- A value that is neither a pointer nor a record has no address. -/
theorem inMemory_of_type {target : Target} {v : Value} (ht : v.type.isTestable)
    (hp : v.type.isPointer = false) : v.InMemory target := by
  intro address h
  rw [address?_eq_none ht hp] at h
  cases h

theorem inMemory_boolean {target : Target} (b : Bool) : (boolean b).InMemory target :=
  inMemory_of_type rfl rfl

theorem inMemory_ofBinary64 {target : Target} (type : Ty) (x : Binary64) :
    (ofBinary64 type x).InMemory target := by
  have hnone : (ofBinary64 type x).address? = none := by cases type <;> rfl
  intro address h
  rw [hnone] at h
  cases h

theorem inMemory_ofInt {type : Ty} (ht : type.isTestable) (raw : Int) :
    (ofInt (.ofArch arch) type raw).InMemory (.ofArch arch) := by
  cases type with
  | pointer pointee =>
    rw [ofInt_pointer]
    refine inMemory_pointer ?_
    rw [toNat_ofNat_emod (Target.pointerBits_bounds arch).2]
    exact Target.spans_emod _ raw
  | scalar _ | enumeration _ =>
    exact inMemory_of_type (by rwa [ofInt_type]) (by rw [ofInt_type]; rfl)
  | record _ => cases ht

theorem inMemory_zero (type : Ty) : (zero (.ofArch arch) type).InMemory (.ofArch arch) := by
  cases type with
  | record r => exact inMemory_record (by cases arch <;> decide)
  | pointer pointee =>
    have ht : (Ty.pointer pointee).isTestable := rfl
    exact inMemory_ofInt ht 0
  | scalar _ | enumeration _ =>
    exact inMemory_of_type (by rw [zero_type]; rfl) (by rw [zero_type]; rfl)

end Value

end Assay
