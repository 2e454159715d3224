import Assay.Enumerated

/-!
# Masks

A mask is a set of at most 64 numbered elements, kept as a word with one bit for each element
(`Mask.contains`). Its elements are listed in the order of their numbers (`Mask.toList`).
-/

namespace Assay

/-- A set of elements of `α`: the bit numbered `index a` says whether `a` belongs to it. -/
structure Mask (α : Type) [Enumerated α] where
  bits : BitVec 64
deriving DecidableEq

namespace Mask

open Enumerated

variable {α : Type} [Enumerated α]

/-- The word with the bit of one element set. -/
def bit (a : α) : BitVec 64 := 1#64 <<< index a

/-- The word with the bit of every element set. -/
def valid (α : Type) [Enumerated α] : BitVec 64 :=
  if 64 ≤ count α then BitVec.allOnes 64 else 1#64 <<< count α - 1#64

/-- The mask with these bits; bits that number no element are dropped. -/
def ofBits (bits : BitVec 64) : Mask α := ⟨bits &&& valid α⟩

def empty : Mask α := ofBits 0

def contains (mask : Mask α) (a : α) : Bool := mask.bits &&& bit a != 0

def insert (mask : Mask α) (a : α) : Mask α := ⟨mask.bits ||| bit a⟩

def erase (mask : Mask α) (a : α) : Mask α := ⟨mask.bits &&& ~~~bit a⟩

def ofList (elements : List α) : Mask α := elements.foldl insert empty

/-- The mask of all elements. -/
def full : Mask α := ofList all

/-- The elements in the order of their numbers. -/
def toList (mask : Mask α) : List α := all.filter mask.contains

theorem mem_toList {mask : Mask α} {a : α} : a ∈ mask.toList ↔ mask.contains a := by
  rw [toList, List.mem_filter]
  exact and_iff_right (mem_all a)

def isEmpty (mask : Mask α) : Bool := mask.bits == 0

/-- How many bits are set. -/
def size (mask : Mask α) : Nat := (List.range 64).countP mask.bits.getLsbD

instance : Inhabited (Mask α) := ⟨full⟩

end Mask

end Assay
