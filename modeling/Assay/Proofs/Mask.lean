import Assay.Mask
import Mathlib.Data.Nat.Bitwise

/-!
# Masks without stray bits

A mask may hold bits that number no element, but no operation on masks brings one in. Without such
bits a mask is empty only if it lists no element (`Mask.Legal.isEmpty_eq`), and it is the mask of
its elements (`Mask.Legal.ofList_toList`).
-/

namespace Assay

namespace Mask

open Enumerated

variable {α : Type} [Enumerated α] {mask : Mask α}

/-- Every bit numbers an element. -/
def Legal (mask : Mask α) : Prop := mask.bits &&& valid α = mask.bits

theorem toNat_low {n : Nat} (hn : n < 64) : (1#64 <<< n - 1#64).toNat = 2 ^ n - 1 := by
  have hlt : 2 ^ n < 2 ^ 64 := Nat.pow_lt_pow_right (by decide) hn
  have hpos : 0 < 2 ^ n := Nat.two_pow_pos n
  simp only [BitVec.toNat_sub, BitVec.toNat_shiftLeft, BitVec.toNat_ofNat, Nat.shiftLeft_eq]
  omega

theorem getLsbD_valid {i : Nat} (hi : i < 64) :
    (valid α).getLsbD i = decide (i < count α) := by
  rw [valid]
  split
  · rw [BitVec.getLsbD_allOnes, decide_eq_true hi, decide_eq_true (by omega)]
  · rw [BitVec.getLsbD, toNat_low (by omega), Nat.testBit_two_pow_sub_one]

theorem legal_iff : mask.Legal ↔ ∀ i < 64, mask.bits.getLsbD i → i < count α := by
  constructor
  · intro h i hi hbit
    rw [← h, BitVec.getLsbD_and, getLsbD_valid hi, Bool.and_eq_true] at hbit
    exact of_decide_eq_true hbit.2
  · intro h
    refine BitVec.eq_of_getLsbD_eq fun i hi => ?_
    rw [BitVec.getLsbD_and, getLsbD_valid hi]
    cases hbit : mask.bits.getLsbD i with
    | false => rfl
    | true => rw [decide_eq_true (h i hi hbit), Bool.and_true]

theorem getLsbD_bit {i : Nat} (hi : i < 64) (a : α) :
    (bit a).getLsbD i = decide (i = index a) := by
  rw [bit, BitVec.getLsbD_shiftLeft, BitVec.getLsbD_one, Bool.eq_iff_iff]
  simp only [Bool.and_eq_true, Bool.not_eq_true', decide_eq_true_eq, decide_eq_false_iff_not]
  omega

theorem ofBits_legal (bits : BitVec 64) : (ofBits bits : Mask α).Legal := by
  rw [Legal, ofBits, BitVec.and_assoc, BitVec.and_self]

theorem Legal.insert (h : mask.Legal) (a : α) : (mask.insert a).Legal := by
  refine legal_iff.mpr fun i hi hbit => ?_
  rw [Mask.insert, BitVec.getLsbD_or, getLsbD_bit hi, Bool.or_eq_true] at hbit
  rcases hbit with hbit | hbit
  · exact legal_iff.mp h i hi hbit
  · rw [of_decide_eq_true hbit]
    exact index_lt_count a

theorem Legal.erase (h : mask.Legal) (a : α) : (mask.erase a).Legal := by
  refine legal_iff.mpr fun i hi hbit => ?_
  rw [Mask.erase, BitVec.getLsbD_and, Bool.and_eq_true] at hbit
  exact legal_iff.mp h i hi hbit.1

theorem ofList_legal (elements : List α) : (ofList elements).Legal := by
  have hfold : ∀ mask : Mask α, mask.Legal → (elements.foldl Mask.insert mask).Legal := by
    induction elements with
    | nil => exact fun _ h => h
    | cons a elements ih => exact fun mask h => ih _ (h.insert a)
  exact hfold _ (ofBits_legal 0)

theorem full_legal : (full : Mask α).Legal := ofList_legal all

theorem contains_eq_getLsbD {a : α} (ha : index a < 64) :
    mask.contains a = mask.bits.getLsbD (index a) := by
  have hand (i : Nat) (hi : i < 64) :
      (mask.bits &&& bit a).getLsbD i = (mask.bits.getLsbD i && decide (i = index a)) := by
    rw [BitVec.getLsbD_and, getLsbD_bit hi]
  rw [contains, Bool.eq_iff_iff, bne_iff_ne]
  constructor
  · contrapose!
    intro hclear
    refine BitVec.eq_of_getLsbD_eq fun i hi => ?_
    rw [hand i hi]
    by_cases hia : i = index a
    · simp [hia, hclear]
    · simp [hia]
  · intro hbit hzero
    have hself := hand _ ha
    simp [hzero, hbit] at hself

/-- A bit that is set is that of an element. -/
theorem Legal.exists_index (h : mask.Legal) {i : Nat} (hi : i < 64) (hbit : mask.bits.getLsbD i) :
    ∃ a : α, index a = i := by
  have hcount : i < (all : List α).length := legal_iff.mp h i hi hbit
  exact ⟨_, index_of_ofIndex? (List.getElem?_eq_getElem hcount)⟩

theorem Legal.exists_contains (h : mask.Legal) (hne : mask.isEmpty = false) :
    ∃ a, mask.contains a := by
  have hbits : mask.bits ≠ 0 := by
    intro hzero
    rw [isEmpty, hzero] at hne
    cases hne
  obtain ⟨i, hi, hbit⟩ : ∃ i, i < 64 ∧ mask.bits.getLsbD i := by
    by_contra hnone
    refine hbits (BitVec.eq_of_getLsbD_eq fun i hi => ?_)
    have hclear : mask.bits.getLsbD i = false :=
      Bool.eq_false_iff.mpr fun hbit => hnone ⟨i, hi, hbit⟩
    exact hclear.trans BitVec.getLsbD_zero.symm
  obtain ⟨a, rfl⟩ := h.exists_index hi hbit
  exact ⟨a, (contains_eq_getLsbD hi).trans hbit⟩

theorem Legal.isEmpty_eq (h : mask.Legal) : mask.isEmpty = mask.toList.isEmpty := by
  cases hempty : mask.isEmpty with
  | false =>
    obtain ⟨a, ha⟩ := h.exists_contains hempty
    exact (List.isEmpty_eq_false_iff_exists_mem.mpr ⟨a, mem_toList.mpr ha⟩).symm
  | true =>
    have hbits : mask.bits = 0 := eq_of_beq hempty
    have hnone (a : α) : a ∉ mask.toList := by
      simp [mem_toList, contains, hbits]
    exact (List.isEmpty_iff.mpr (List.eq_nil_iff_forall_not_mem.mpr hnone)).symm

theorem getLsbD_ofList (elements : List α) {i : Nat} (hi : i < 64) :
    (ofList elements).bits.getLsbD i = elements.any (index · = i) := by
  have hfold : ∀ mask : Mask α, (elements.foldl Mask.insert mask).bits.getLsbD i =
      (mask.bits.getLsbD i || elements.any (index · = i)) := by
    induction elements with
    | nil => simp
    | cons a elements ih =>
      intro mask
      rw [List.foldl_cons, ih, Mask.insert, BitVec.getLsbD_or, getLsbD_bit hi, List.any_cons,
        Bool.or_assoc]
      simp only [eq_comm]
  rw [ofList, hfold]
  simp [empty, ofBits]

/-- Without stray bits a mask is that of its elements. -/
theorem Legal.ofList_toList (h : mask.Legal) : ofList mask.toList = mask := by
  have hbits : (ofList mask.toList).bits = mask.bits := by
    refine BitVec.eq_of_getLsbD_eq fun i hi => ?_
    rw [getLsbD_ofList _ hi, Bool.eq_iff_iff, List.any_eq_true]
    constructor
    · rintro ⟨a, ha, hindex⟩
      obtain rfl : index a = i := of_decide_eq_true hindex
      rw [← contains_eq_getLsbD hi]
      exact mem_toList.mp ha
    · intro hbit
      obtain ⟨a, rfl⟩ := h.exists_index hi hbit
      have ha := (contains_eq_getLsbD hi).trans hbit
      exact ⟨a, mem_toList.mpr ha, decide_eq_true rfl⟩
  exact congrArg Mask.mk hbits

end Mask

end Assay
