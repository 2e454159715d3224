import Assay.Operator
import Assay.Proofs.Mask
import Mathlib.Data.List.FinRange
import Mathlib.Data.Set.Insert

/-!
# Masks as sets

However a mask is made, from words of bits, lists and whole masks, by insertions and erasures, it is
the set that these steps describe (`Mask.run_represents`). Each step keeps two facts
(`Mask.Denotes.apply`): no bit is stray, and the elements of the mask are those of the set. They
determine the word, and so everything that can be asked of a mask (`Mask.Denotes.represents`).
-/

namespace Assay

namespace Mask

open Enumerated

variable {α : Type} [Enumerated α] {mask other : Mask α} {elements : Set α}

/-! ## What belongs to a mask -/

section Contains

variable (fits : count α ≤ 64)
include fits

theorem index_lt_width (a : α) : index a < 64 :=
  Nat.lt_of_lt_of_le (index_lt_count a) fits

theorem contains_iff_getLsbD {a : α} : mask.contains a ↔ mask.bits.getLsbD (index a) := by
  rw [contains_eq_getLsbD (index_lt_width fits a)]

theorem contains_insert {a b : α} : (mask.insert a).contains b ↔ mask.contains b ∨ b = a := by
  rw [contains_iff_getLsbD fits, contains_iff_getLsbD fits, insert, BitVec.getLsbD_or,
    getLsbD_bit (index_lt_width fits b), Bool.or_eq_true, decide_eq_true_eq, index_inj]

theorem contains_erase {a b : α} : (mask.erase a).contains b ↔ mask.contains b ∧ b ≠ a := by
  have hb : index b < 64 := index_lt_width fits b
  rw [contains_iff_getLsbD fits, contains_iff_getLsbD fits, erase, BitVec.getLsbD_and,
    BitVec.getLsbD_not, getLsbD_bit hb, decide_eq_true hb, Bool.true_and, Bool.and_eq_true,
    Bool.not_eq_true', decide_eq_false_iff_not, index_inj]

theorem contains_ofBits {bits : BitVec 64} {a : α} :
    (ofBits bits : Mask α).contains a ↔ bits.getLsbD (index a) := by
  rw [contains_iff_getLsbD fits, ofBits, BitVec.getLsbD_and,
    getLsbD_valid (index_lt_width fits a), decide_eq_true (index_lt_count a), Bool.and_true]

theorem contains_ofList {list : List α} {a : α} : (ofList list).contains a ↔ a ∈ list := by
  rw [contains_iff_getLsbD fits, getLsbD_ofList list (index_lt_width fits a)]
  simp only [List.any_eq_true, decide_eq_true_eq, index_inj, exists_eq_right]

end Contains

/-! ## The list and the number of the elements -/

theorem pairwise_index_toList : mask.toList.Pairwise (index · < index ·) :=
  pairwise_index_all.filter _

example : ((Mask.empty.insert BinaryOp.shl).insert .div).toList = [.div, .shl] := by decide

theorem Legal.eq_iff (h : mask.Legal) (h' : other.Legal) :
    mask = other ↔ ∀ a, mask.contains a = other.contains a := by
  refine ⟨fun heq a => heq ▸ rfl, fun heq => ?_⟩
  have hlist : mask.toList = other.toList := List.filter_congr fun a _ => heq a
  rw [← h.ofList_toList, hlist, h'.ofList_toList]

theorem Legal.size_eq (h : mask.Legal) (fits : count α ≤ 64) : mask.size = mask.toList.length := by
  -- The list has the bits below the number of elements; those above would be stray.
  have hsplit : List.range 64 =
      List.range (count α) ++ (List.range (64 - count α)).map (count α + ·) := by
    rw [← List.range_add, Nat.add_sub_cancel' fits]
  have hlow : (List.range (count α)).countP mask.bits.getLsbD = mask.toList.length := by
    rw [toList, ← List.countP_eq_length_filter, count, ← map_index_all, List.countP_map]
    exact List.countP_congr fun a _ => (contains_iff_getLsbD fits).symm
  have hhigh : ((List.range (64 - count α)).map (count α + ·)).countP mask.bits.getLsbD = 0 := by
    refine List.countP_eq_zero.mpr fun i hi hbit => ?_
    obtain ⟨j, hj, rfl⟩ := List.mem_map.mp hi
    have hwidth : count α + j < 64 := BitVec.lt_of_getLsbD hbit
    exact Nat.not_lt.mpr (Nat.le_add_right _ j) (legal_iff.mp h _ hwidth hbit)
  rw [size, hsplit, List.countP_append, hlow, hhigh, Nat.add_zero]

/-! ## Every way to make a mask -/

/-- A mask made anew, or a change to the one at hand. -/
inductive Step (α : Type)
  | full
  | empty
  | ofBits (bits : BitVec 64)
  | ofList (list : List α)
  | insert (a : α)
  | erase (a : α)

def Step.apply : Step α → Mask α → Mask α
  | full, _ => Mask.full
  | empty, _ => Mask.empty
  | ofBits bits, _ => Mask.ofBits bits
  | ofList list, _ => Mask.ofList list
  | insert a, mask => mask.insert a
  | erase a, mask => mask.erase a

/-- What a step does to a set. A bit stands for the element that it numbers, if there is one. -/
def Step.describe : Step α → Set α → Set α
  | full, _ => Set.univ
  | empty, _ => ∅
  | ofBits bits, _ => {a | bits.getLsbD (index a)}
  | ofList list, _ => {a | a ∈ list}
  | insert a, elements => elements ∪ {a}
  | erase a, elements => elements \ {a}

/-- The mask after these steps; the first one finds the default mask. -/
def run (steps : List (Step α)) : Mask α :=
  steps.foldl (fun mask step => step.apply mask) default

def described (steps : List (Step α)) : Set α :=
  steps.foldl (fun elements step => step.describe elements) Set.univ

structure Denotes (mask : Mask α) (elements : Set α) : Prop where
  legal : mask.Legal
  contains_iff : ∀ a, mask.contains a ↔ a ∈ elements

/-- All that can be asked of the mask is answered as this set says. -/
structure Represents (mask : Mask α) (elements : Set α) : Prop where
  lt_count : ∀ i, mask.bits.getLsbD i → i < count α
  contains_iff : ∀ a, mask.contains a ↔ a ∈ elements
  mem_toList_iff : ∀ a, a ∈ mask.toList ↔ a ∈ elements
  /-- Each element is listed once, and after those of lower numbers. -/
  increasing : mask.toList.Pairwise (index · < index ·)
  size_eq : mask.size = mask.toList.length
  isEmpty_eq : mask.isEmpty = mask.toList.isEmpty
  ofList_toList : ofList mask.toList = mask

section Run

variable (fits : count α ≤ 64)
include fits

theorem denotes_full : (full : Mask α).Denotes Set.univ where
  legal := full_legal
  contains_iff a := (contains_ofList fits).trans (iff_of_true (mem_all a) (Set.mem_univ a))

theorem denotes_empty : (empty : Mask α).Denotes ∅ where
  legal := ofBits_legal 0
  contains_iff a := (contains_ofBits fits).trans (by simp)

theorem Denotes.apply (h : mask.Denotes elements) (step : Step α) :
    (step.apply mask).Denotes (step.describe elements) := by
  cases step with
  | full => exact denotes_full fits
  | empty => exact denotes_empty fits
  | ofBits bits => exact ⟨ofBits_legal bits, fun a => contains_ofBits fits⟩
  | ofList list => exact ⟨ofList_legal list, fun a => contains_ofList fits⟩
  | insert a =>
    refine ⟨h.legal.insert a, fun b => ?_⟩
    exact (contains_insert fits).trans (or_congr_left (h.contains_iff b))
  | erase a =>
    refine ⟨h.legal.erase a, fun b => ?_⟩
    exact (contains_erase fits).trans (and_congr_left' (h.contains_iff b))

theorem denotes_run (steps : List (Step α)) : (run steps).Denotes (described steps) := by
  -- The steps that are left start from what those before them made, so from any mask and its set.
  have hfold : ∀ {mask : Mask α} {elements : Set α}, mask.Denotes elements →
      (steps.foldl (fun mask step => step.apply mask) mask).Denotes
        (steps.foldl (fun elements step => step.describe elements) elements) := by
    induction steps with
    | nil => exact id
    | cons step steps ih => exact fun h => ih (h.apply fits step)
  exact hfold (denotes_full fits)

theorem Denotes.represents (h : mask.Denotes elements) : mask.Represents elements where
  lt_count i hbit := legal_iff.mp h.legal i (BitVec.lt_of_getLsbD hbit) hbit
  contains_iff := h.contains_iff
  mem_toList_iff a := mem_toList.trans (h.contains_iff a)
  increasing := pairwise_index_toList
  size_eq := h.legal.size_eq fits
  isEmpty_eq := h.legal.isEmpty_eq
  ofList_toList := h.legal.ofList_toList

/-- Of at most 64 elements, a mask is the set that the steps of its making describe, and two masks
with the same elements are the same mask. -/
theorem run_represents (steps others : List (Step α)) :
    (run steps).Represents (described steps) ∧
      (run steps = run others ↔ ∀ a, (run steps).contains a = (run others).contains a) := by
  have hsteps : (run steps).Denotes (described steps) := denotes_run fits steps
  have hothers : (run others).Denotes (described others) := denotes_run fits others
  exact ⟨hsteps.represents fits, hsteps.legal.eq_iff hothers.legal⟩

end Run

instance (n : Nat) : Enumerated (Fin n) where
  all := List.finRange n
  index := Fin.val
  mem_all := List.mem_finRange
  map_index_all := by
    rw [List.length_finRange]
    exact List.map_coe_finRange_eq_range

/-- Of 64 elements the last one has the word's highest bit. -/
theorem run_represents_sixtyFour :
    count (Fin 64) ≤ 64 ∧
      (run [.ofBits (.allOnes 64), .erase (63 : Fin 64)]).Represents (Set.univ \ {63}) ∧
      run [.ofBits (.allOnes 64), .erase (63 : Fin 64)] =
        run [.ofList [2, 63, 2], .full, .erase 63, .insert 0] := by
  have fits : count (Fin 64) ≤ 64 := by decide
  obtain ⟨hmask, heq⟩ := run_represents fits [.ofBits (.allOnes 64), .erase (63 : Fin 64)]
    [.ofList [2, 63, 2], .full, .erase 63, .insert 0]
  have hset : described [.ofBits (.allOnes 64), .erase (63 : Fin 64)] = Set.univ \ {63} := by
    have hall (a : Fin 64) : (BitVec.allOnes 64).getLsbD (index a) := by
      rw [BitVec.getLsbD_allOnes]
      exact decide_eq_true a.isLt
    exact congrArg (· \ {63}) (Set.eq_univ_of_forall hall)
  exact ⟨fits, hset ▸ hmask, heq.mpr (by decide +kernel)⟩

end Mask

end Assay
