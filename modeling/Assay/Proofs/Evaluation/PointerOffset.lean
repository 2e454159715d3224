import Assay.Proofs.Evaluation.PointerDifference
import Assay.Proofs.Evaluation.Session
import Assay.Proofs.IntegerBits

/-!
# A pointer moved and then measured

A pointer moves modulo the size of memory, while the distance of two pointers is exact. So the
distance from a pointer to where it has moved gives back the offset exactly when the pointer stays
in memory or its elements are bytes (`offset_recovered_iff`). Otherwise the distance is off by the
elements that memory has room for (`tdiv_moved`, `offset_lost`).
-/

namespace Assay

namespace Target

theorem natAbs_le_mul (n : Int) {size : Int} (hs : 1 ≤ size) : n.natAbs ≤ (n * size).natAbs := by
  rw [Int.natAbs_mul]
  exact Nat.le_mul_of_pos_right _ (by omega)

section Laps

variable {a n size : Int} {memory : Nat} (ha : 0 ≤ a) (ham : a < memory) (hs : 1 ≤ size)
  (hl : -memory < 2 * (n * size)) (hu : 2 * (n * size) < memory)
include ha ham hl hu

/-- What is moved by less than half of memory goes round it at most once, forward or backward. -/
theorem laps_cases : (a + n * size) / memory = 0 ∨ (a + n * size) / memory = 1
    ∨ (a + n * size) / memory = -1 := by
  have hpos : (0 : Int) < memory := by omega
  have hlower : -1 ≤ (a + n * size) / memory := (Int.le_ediv_iff_mul_le hpos).mpr (by omega)
  have hupper : (a + n * size) / memory < 2 := (Int.ediv_lt_iff_lt_mul hpos).mpr (by omega)
  omega

include hs

/-- The distance in elements to where an address has moved is the offset, less the elements that
memory has room for if it went round. -/
theorem tdiv_moved : ((a + n * size) % memory - a).tdiv size =
    n - (a + n * size) / memory * (memory / size) := by
  have hne : size ≠ 0 := by omega
  rw [Int.emod_def]
  rcases laps_cases ha ham hl hu with hlaps | hlaps | hlaps <;> rw [hlaps]
  · have hdistance : a + n * size - memory * 0 - a = n * size := by omega
    rw [hdistance, Int.mul_tdiv_cancel n hne]
    omega
  · have hdistance : a + n * size - memory * 1 - a = -(memory + -n * size) := by
      rw [Int.neg_mul]
      omega
    have hnonneg : 0 ≤ memory + -n * size := by
      rw [Int.neg_mul]
      omega
    rw [hdistance, Int.neg_tdiv, Int.tdiv_eq_ediv_of_nonneg hnonneg, Int.add_mul_ediv_right _ _ hne]
    omega
  · have hdistance : a + n * size - memory * (-1) - a = memory + n * size := by omega
    have hnonneg : 0 ≤ memory + n * size := by omega
    rw [hdistance, Int.tdiv_eq_ediv_of_nonneg hnonneg, Int.add_mul_ediv_right _ _ hne]
    omega

/-- Where an address goes round memory, memory has room for elements, and for fewer of them than it
has addresses. -/
theorem room_bounds (hone : size ≠ 1) (hlaps : (a + n * size) / memory ≠ 0) :
    0 < memory / size ∧ memory / size < memory := by
  have hn : n ≠ 0 := by
    rintro rfl
    rw [Int.zero_mul, Int.add_zero, Int.ediv_eq_zero_of_lt ha ham] at hlaps
    exact hlaps rfl
  have hsize : size.natAbs ≤ (n * size).natAbs := by
    rw [Int.natAbs_mul]
    exact Nat.le_mul_of_pos_left _ (by omega)
  have htwice : (memory : Int) * 2 ≤ memory * size :=
    Int.mul_le_mul_of_nonneg_left (by omega) (by omega)
  exact ⟨(Int.le_ediv_iff_mul_le (by omega)).mpr (by omega),
    (Int.ediv_lt_iff_lt_mul (by omega)).mpr (by omega)⟩

/-- Reduced to memory, the distance is the offset only if the address has not gone round, or if
elements are bytes, of which memory has room for as many as it has addresses. -/
theorem bmod_moved_eq_iff :
    (((a + n * size) % memory - a).tdiv size).bmod memory = n ↔
      size = 1 ∨ (a + n * size) / memory = 0 := by
  have hself : n.bmod memory = n := by
    have hle := natAbs_le_mul n hs
    exact Int.bmod_eq_of_le_mul_two (by omega) (by omega)
  rw [tdiv_moved ha ham hs hl hu]
  constructor
  · intro h
    by_cases hone : size = 1
    · exact .inl hone
    by_cases hlaps : (a + n * size) / memory = 0
    · exact .inr hlaps
    exfalso
    -- what is lost would be a multiple of memory, yet memory has room for less than that
    obtain ⟨hroom, hless⟩ := room_bounds ha ham hs hl hu hone hlaps
    have hdvd : (memory : Int) ∣ (a + n * size) / memory * (memory / size) := by
      have hsub := @Int.dvd_self_sub_bmod (n - (a + n * size) / memory * (memory / size)) memory
      rw [h] at hsub
      have hneg : n - (a + n * size) / memory * (memory / size) - n =
          -((a + n * size) / memory * (memory / size)) := by omega
      rwa [hneg, Int.dvd_neg] at hsub
    rcases laps_cases ha ham hl hu with h0 | h1 | h1
    · exact hlaps h0
    · rw [h1, Int.one_mul] at hdvd
      have hle := Int.le_of_dvd hroom hdvd
      omega
    · rw [h1, Int.neg_one_mul, Int.dvd_neg] at hdvd
      have hle := Int.le_of_dvd hroom hdvd
      omega
  · rintro (hone | hlaps)
    · rw [hone, Int.ediv_one, Int.sub_mul_bmod_self_right, hself]
    · rw [hlaps, Int.zero_mul, Int.sub_zero, hself]

end Laps

variable {arch : Arch} {pointee : Ty} {a : UInt64} {n : Int}

theorem memory_le (arch : Arch) : (Nat.pow 2 (ofArch arch).pointerBits : Int) ≤ 2 ^ 64 := by
  cases arch <;> decide

/-- Wherever an address moves to, it is reduced to memory once, however often it wraps on the
way. -/
theorem movePointer_pointer (arch : Arch) (pointee : Ty) (a : UInt64) (n : Int) :
    ∃ b : UInt64, (ofArch arch).movePointer (.pointer pointee a) n = .pointer pointee b
      ∧ (b.toNat : Int) =
          (a.toNat + n * (ofArch arch).sizeOf pointee) % Nat.pow 2 (ofArch arch).pointerBits := by
  have hbits := (pointerBits_bounds arch).2
  have hwide : (ofArch arch).pointerBits ≤ 128 := hbits.trans (by decide)
  have hmoved : (ofArch arch).movePointer (.pointer pointee a) n = .ofInt (ofArch arch)
      (.pointer pointee) (wrapWide (a.toNat + wrapWide (n * (ofArch arch).sizeOf pointee))) := rfl
  have hbytes := dvd_wrapWide_sub hwide (n * (ofArch arch).sizeOf pointee)
  have hsum := dvd_wrapWide_sub hwide (a.toNat + wrapWide (n * (ofArch arch).sizeOf pointee))
  rw [hmoved, Value.ofInt_pointer]
  refine ⟨_, rfl, (Value.toNat_ofNat_emod hbits _).trans ?_⟩
  refine Int.emod_eq_emod_iff_emod_sub_eq_zero.mpr (Int.emod_eq_zero_of_dvd ?_)
  have hadd := Int.dvd_add hsum hbytes
  rwa [show wrapWide (a.toNat + wrapWide (n * (ofArch arch).sizeOf pointee))
      - (a.toNat + wrapWide (n * (ofArch arch).sizeOf pointee))
      + (wrapWide (n * (ofArch arch).sizeOf pointee) - n * (ofArch arch).sizeOf pointee) =
    wrapWide (a.toNat + wrapWide (n * (ofArch arch).sizeOf pointee))
      - (a.toNat + n * (ofArch arch).sizeOf pointee) by omega] at hadd

theorem toInt?_elementDistance_moved_iff (ha : (ofArch arch).Spans a.toNat)
    (hs : 1 ≤ (ofArch arch).sizeOf pointee) {b : UInt64}
    (hb : (b.toNat : Int) =
      (a.toNat + n * (ofArch arch).sizeOf pointee) % Nat.pow 2 (ofArch arch).pointerBits)
    (hl : -(Nat.pow 2 (ofArch arch).pointerBits : Int) < 2 * (n * (ofArch arch).sizeOf pointee))
    (hu : 2 * (n * (ofArch arch).sizeOf pointee) < Nat.pow 2 (ofArch arch).pointerBits) :
    ((ofArch arch).elementDistance pointee b a).toInt? = some n ↔
      (ofArch arch).sizeOf pointee = 1
        ∨ (ofArch arch).Spans (a.toNat + n * (ofArch arch).sizeOf pointee) := by
  have hpos : (0 : Int) < Nat.pow 2 (ofArch arch).pointerBits := by
    have := ha.1
    have := ha.2
    omega
  have hlaps :
      (a.toNat + n * (ofArch arch).sizeOf pointee) / Nat.pow 2 (ofArch arch).pointerBits = 0 ↔
        (ofArch arch).Spans (a.toNat + n * (ofArch arch).sizeOf pointee) := by
    rw [Int.ediv_eq_iff_of_pos hpos, Int.zero_mul, Int.zero_add]
    rfl
  have hsize : ((ofArch arch).sizeOf pointee : Int) = 1 ↔ (ofArch arch).sizeOf pointee = 1 := by
    omega
  rw [elementDistance, toInt?_ofInt_bmod, Option.some.injEq, byteDistance, hb,
    bmod_moved_eq_iff ha.1 ha.2 (by omega) hl hu, hlaps, hsize]

theorem scalarRange_differenceType (arch : Arch) :
    (ofArch arch).scalarRange (ofArch arch).differenceType =
      .signed (ofArch arch).pointerBits := by
  cases arch <;> rfl

theorem contains_differenceType_iff (n : Int) :
    ((ofArch arch).scalarRange (ofArch arch).differenceType).contains n ↔
      -(Nat.pow 2 (ofArch arch).pointerBits : Int) ≤ 2 * n
        ∧ 2 * n < Nat.pow 2 (ofArch arch).pointerBits := by
  rw [scalarRange_differenceType, IntRange.contains_iff]
  have hpow : Nat.pow 2 (ofArch arch).pointerBits =
      2 * Nat.pow 2 ((ofArch arch).pointerBits - 1) := by
    cases arch <;> rfl
  simp only [IntRange.signed]
  omega

theorem isPointer_of_isIntegerOperand {type : Ty} (h : type.isIntegerOperand) :
    type.isPointer = false := by
  cases type <;> first | rfl | cases h

section Operands

variable {target : Target} {l r : Value} (hl : l.type.isPointer)
include hl

theorem binary_pointer_plus (hr : r.type.isIntegerOperand) :
    target.binary .plus l r = .ok ⟨target.classify .plus l r, target.movePointer l r.toInt⟩ := by
  have hpointer := isPointer_of_isIntegerOperand hr
  simp [binary, pointerArithmetic, hl, hpointer, hr]

theorem binary_pointer_minus (hr : r.type.isIntegerOperand) :
    target.binary .minus l r =
      .ok ⟨target.classify .minus l r, target.movePointer l (wrapWide (-r.toInt))⟩ := by
  have hpointer := isPointer_of_isIntegerOperand hr
  simp [binary, pointerArithmetic, hl, hpointer, hr]

end Operands

end Target

namespace EvalContext

variable {cx : EvalContext} {arch : Arch} {e f : Expr} {p v : Evaluation} {pointee : Ty}
  {a : UInt64}

theorem evaluate_moved (target : cx.target = .ofArch arch)
    (carriesOn : cx.options.stopAtFinding = false) {op : BinaryOp} (hop : op.isLogical = false)
    (he : cx.evaluate e = .ok p) (hf : cx.evaluate f = .ok v) (hp : p.value = .pointer pointee a)
    {n : Int} {finding : Finding}
    (hmoved : cx.target.binary op (.pointer pointee a) v.value =
      .ok ⟨finding, cx.target.movePointer (.pointer pointee a) n⟩)
    (ha : cx.target.Spans a.toNat) (hs : 1 ≤ cx.target.sizeOf pointee)
    (hl : -(Nat.pow 2 cx.target.pointerBits : Int) < 2 * (n * cx.target.sizeOf pointee))
    (hu : 2 * (n * cx.target.sizeOf pointee) < Nat.pow 2 cx.target.pointerBits) :
    ∃ r, cx.evaluate (.binary .minus (.binary op e f) e) = .ok r
      ∧ r.value.type = .scalar cx.target.differenceType
      ∧ (r.value.toInt? = some n ↔ cx.target.sizeOf pointee = 1
        ∨ cx.target.Spans (a.toNat + n * cx.target.sizeOf pointee)) := by
  obtain ⟨value, found⟩ := p
  subst hp
  have hsum := evaluate_binary carriesOn hop he hf hmoved
  rw [target] at ha hs hl hu hsum ⊢
  obtain ⟨b, hb, hmod⟩ := Target.movePointer_pointer arch pointee a n
  rw [hb] at hsum
  have hdifference : cx.target.binary .minus (.pointer pointee b) (.pointer pointee a) =
      .ok ⟨cx.target.checkPointerDifference (.pointer pointee b) (.pointer pointee a),
        cx.target.elementDistance pointee b a⟩ :=
    Target.binary_minus_pointers (target ▸ hs)
  refine ⟨_, evaluate_binary carriesOn rfl hsum he hdifference, ?_, ?_⟩
  · rw [target]
    exact Value.ofInt_type _ _
  · rw [target]
    exact Target.toInt?_elementDistance_moved_iff ha hs hmod hl hu

/-- The difference of `p + n` and `p` is `n` exactly when `p + n` stays in memory or the elements
are bytes, and that of `p - n` and `p` is `-n` exactly when `p - n` does. -/
theorem offset_recovered_iff (target : cx.target = .ofArch arch)
    (carriesOn : cx.options.stopAtFinding = false)
    (he : cx.evaluate e = .ok p) (hf : cx.evaluate f = .ok v) (hp : p.value = .pointer pointee a)
    {n : Int} (hv : v.value.type.isIntegerOperand) (hn : v.value.toInt = n)
    (ha : cx.target.Spans a.toNat) (hs : 1 ≤ cx.target.sizeOf pointee)
    (hforward : (cx.target.scalarRange cx.target.differenceType).contains
      (n * cx.target.sizeOf pointee))
    (hback : (cx.target.scalarRange cx.target.differenceType).contains
      (-(n * cx.target.sizeOf pointee))) :
    (∃ r, cx.evaluate (.binary .minus (.binary .plus e f) e) = .ok r
        ∧ r.value.type = .scalar cx.target.differenceType
        ∧ (r.value.toInt? = some n ↔ cx.target.sizeOf pointee = 1
          ∨ cx.target.Spans (a.toNat + n * cx.target.sizeOf pointee)))
      ∧ ∃ r, cx.evaluate (.binary .minus (.binary .minus e f) e) = .ok r
        ∧ r.value.type = .scalar cx.target.differenceType
        ∧ (r.value.toInt? = some (-n) ↔ cx.target.sizeOf pointee = 1
          ∨ cx.target.Spans (a.toNat - n * cx.target.sizeOf pointee)) := by
  subst hn
  have hmemory := Target.memory_le arch
  rw [target, Target.contains_differenceType_iff, ← target] at hforward hback
  rw [← target] at hmemory
  have hneg : -v.value.toInt * cx.target.sizeOf pointee =
      -(v.value.toInt * cx.target.sizeOf pointee) := Int.neg_mul _ _
  constructor
  · exact evaluate_moved target carriesOn rfl he hf hp (Target.binary_pointer_plus rfl hv) ha hs
      (by omega) (by omega)
  · have hpointer : (Value.pointer pointee a).type.isPointer := rfl
    have hle : v.value.toInt.natAbs ≤ (v.value.toInt * cx.target.sizeOf pointee).natAbs :=
      Target.natAbs_le_mul _ (Int.ofNat_le.mpr hs)
    have hwrap : wrapWide (-v.value.toInt) = -v.value.toInt :=
      wrapWide_eq_self (by omega) (by omega)
    have hmoved := @Target.binary_pointer_minus cx.target _ v.value hpointer hv
    rw [hwrap] at hmoved
    rw [Int.sub_eq_add_neg, ← hneg]
    exact evaluate_moved target carriesOn rfl he hf hp hmoved ha hs (by omega) (by omega)

/-- Three elements fit between `0xFFFFFFFFFFFFFFF0` and the end of memory. -/
theorem offset_recovered_iff_top :
    let cx := holding 0xFFFFFFFFFFFFFFF0 0
    let three : Expr := .integer { value := 3 }
    ∃ r, cx.evaluate (.binary .minus (.binary .plus (.var "p") three) (.var "p")) = .ok r
      ∧ r.value.type = .scalar .long ∧ r.value.toInt? = some 3 := by
  intro cx three
  have hp : cx.evaluate (.var "p") = .ok ⟨.pointer .int 0xFFFFFFFFFFFFFFF0, .none⟩ := rfl
  have hthree : cx.evaluate three =
      .ok ⟨.ofInt (.ofArch .x86_64) (.scalar .int) 3, .none⟩ := rfl
  have htarget : cx.target = .ofArch .x86_64 := rfl
  obtain ⟨⟨r, hr, htype, hvalue⟩, -⟩ := offset_recovered_iff htarget rfl hp hthree rfl
    (n := 3) (by decide) (by decide) (by decide) (by decide) (by decide) (by decide)
  exact ⟨r, hr, htype, hvalue.mpr (by decide)⟩

/-- The last element of memory moves to null, which lies far before it. -/
theorem offset_lost :
    let one : Expr := .integer { value := 1 }
    let long (n : Int) : Value := .ofInt (.ofArch .x86_64) (.scalar .long) n
    ((holding 0xFFFFFFFFFFFFFFFC 0).evaluate
        (.binary .minus (.binary .plus (.var "p") one) (.var "p"))).toOption =
        some ⟨long (1 - 2 ^ 62), .none⟩
      ∧ long (1 - 2 ^ 62) ≠ long 1
      ∧ ((Target.ofArch .x86_64).scalarRange .long).contains 4
      ∧ ((Target.ofArch .x86_64).scalarRange .long).contains (-4) := by
  intro one long
  exact ⟨by decide +kernel, by decide +kernel, by decide, by decide⟩

end EvalContext

end Assay
