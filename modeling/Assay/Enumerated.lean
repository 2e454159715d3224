/-!
# Numbered types

A type with finitely many elements that are numbered from zero without gaps, such as the operators
and the grammar's productions. Numbers and elements determine each other
(`Enumerated.ofIndex?_eq_some_iff`).
-/

namespace Assay

/-- A finite type whose elements are numbered from zero without gaps. -/
class Enumerated (α : Type) where
  /-- Every element, in the order of the numbers. -/
  all : List α
  index : α → Nat
  mem_all (a : α) : a ∈ all
  map_index_all : all.map index = List.range all.length

namespace Enumerated

variable {α : Type} [Enumerated α]

/-- How many elements there are. -/
def count (α : Type) [Enumerated α] : Nat := (all : List α).length

/-- The element with a number. -/
def ofIndex? (i : Nat) : Option α := all[i]?

theorem index_of_ofIndex? {i : Nat} {a : α} (h : ofIndex? i = some a) : index a = i := by
  rw [ofIndex?] at h
  have bound : i < (all : List α).length := (List.getElem?_eq_some_iff.mp h).1
  have numbers : ((all : List α).map index)[i]? = (List.range (all : List α).length)[i]? := by
    rw [map_index_all]
  rw [List.getElem?_map, h, List.getElem?_range bound] at numbers
  exact Option.some.inj numbers

theorem ofIndex?_index (a : α) : ofIndex? (index a) = some a := by
  obtain ⟨i, hi⟩ := List.mem_iff_getElem?.mp (mem_all a)
  have : index a = i := index_of_ofIndex? hi
  rw [this]
  exact hi

theorem ofIndex?_eq_some_iff {i : Nat} {a : α} : ofIndex? i = some a ↔ index a = i :=
  ⟨index_of_ofIndex?, fun h => h ▸ ofIndex?_index a⟩

theorem index_lt_count (a : α) : index a < count α :=
  (List.getElem?_eq_some_iff.mp (ofIndex?_index a)).1

theorem index_inj {a b : α} : index a = index b ↔ a = b := by
  refine ⟨fun h => ?_, congrArg index⟩
  have ha : ofIndex? (index b) = some a := ofIndex?_eq_some_iff.mpr h
  exact Option.some.inj (ha.symm.trans (ofIndex?_index b))

theorem pairwise_index_all : (all : List α).Pairwise (index · < index ·) := by
  rw [← List.pairwise_map, map_index_all]
  exact List.pairwise_lt_range

end Enumerated

end Assay
