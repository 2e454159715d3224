import Assay.Generation.Config
import Assay.Proofs.Binary64.Product

/-!
# Weights at a depth

At the root a weight is its initial one, and one that does not fade is so at every depth
(`Weight.atDepth_of_steady`). Only kinds that are enabled at the root have a positive weight further
down (`WeightTable.initial_pos_of_atDepth_pos`).
-/

namespace Assay

namespace Weight

variable {weight : Weight}

theorem atDepth_zero (hfin : weight.initial.isFinite) : weight.atDepth 0 = weight.initial := by
  rw [atDepth, Nat.zero_min, Binary64.power_zero, Binary64.mul_one hfin]

theorem atDepth_of_steady (hfin : weight.initial.isFinite) (hd : (weight.dampening == 0) = true)
    (depth : Nat) : weight.atDepth depth = weight.initial := by
  obtain ⟨negative, hz⟩ := Binary64.eq_zero_of_beq hd
  rw [atDepth, hz, Binary64.one_sub_zero, Binary64.one_power, Binary64.mul_one hfin]

theorem initial_pos_of_atDepth_pos {depth : Nat} (hfin : weight.initial.isFinite)
    (hneg : weight.initial.lt 0 = false) (h : Binary64.lt 0 (weight.atDepth depth)) :
    Binary64.lt 0 weight.initial := by
  -- otherwise the initial weight is a zero, and no product with a zero is positive
  by_contra hpos
  obtain ⟨n, hn, -⟩ := Binary64.rank?_of_isFinite hfin
  rw [Binary64.lt_iff Binary64.rank?_zero hn] at hpos
  rw [Bool.eq_false_iff, ne_eq, Binary64.lt_iff hn Binary64.rank?_zero] at hneg
  have hbeq : (weight.initial == 0) = true :=
    (Binary64.beq_iff hn Binary64.rank?_zero).mpr (by omega)
  obtain ⟨negative, hz⟩ := Binary64.eq_zero_of_beq hbeq
  rw [atDepth, hz, Binary64.not_zero_lt_zero_mul] at h
  cases h

end Weight

namespace WeightTable

variable {κ : Type} [Kind κ] {table : WeightTable κ} {maxDepth : Option Nat} {depth : Nat}
  {kind : κ}

/-- Some enabled kind that ends the recursion never fades. -/
def Steady (table : WeightTable κ) : Prop :=
  ∃ kind, Kind.isRecursive kind = false ∧ Binary64.lt 0 (table.weight kind).initial ∧
    ((table.weight kind).dampening == 0) = true

theorem initial_of_problem? (h : table.problem? = none) (kind : κ) :
    (table.weight kind).initial.isFinite ∧ (table.weight kind).initial.lt 0 = false := by
  have hmem : (kind, table.weight kind) ∈ table.entries :=
    List.mem_map.mpr ⟨kind, Enumerated.mem_all kind, rfl⟩
  have hk := List.findSome?_eq_none_iff.mp h _ hmem
  cases hbad : (!(table.weight kind).initial.isFinite || (table.weight kind).initial.lt 0) with
  | true =>
    simp only [hbad, ↓reduceIte] at hk
    cases hk
  | false => rwa [Bool.or_eq_false_iff, Bool.not_eq_false'] at hbad

theorem atDepth_terminal (hk : Kind.isRecursive kind = false) :
    table.atDepth maxDepth depth kind = (table.weight kind).atDepth depth := by
  rw [atDepth, hk, Bool.and_false]
  rfl

theorem initial_pos_of_atDepth_pos (h : table.problem? = none)
    (hpos : Binary64.lt 0 (table.atDepth maxDepth depth kind)) :
    Binary64.lt 0 (table.weight kind).initial := by
  obtain ⟨hfin, hneg⟩ := initial_of_problem? h kind
  rw [atDepth] at hpos
  split at hpos
  · cases (Binary64.not_zero_lt_self ▸ hpos : false = true)
  · exact Weight.initial_pos_of_atDepth_pos hfin hneg hpos

theorem atDepth_zero_pos (h : table.problem? = none) (hk : Kind.isRecursive kind = false)
    (hpos : Binary64.lt 0 (table.weight kind).initial) :
    Binary64.lt 0 (table.atDepth maxDepth 0 kind) := by
  rwa [atDepth_terminal hk, Weight.atDepth_zero (initial_of_problem? h kind).1]

theorem Steady.exists_atDepth_pos (hsteady : table.Steady) (h : table.problem? = none)
    (maxDepth : Option Nat) (depth : Nat) :
    ∃ kind, Kind.isRecursive kind = false ∧ Binary64.lt 0 (table.atDepth maxDepth depth kind) := by
  obtain ⟨kind, hk, hpos, hd⟩ := hsteady
  refine ⟨kind, hk, ?_⟩
  rw [atDepth_terminal hk, Weight.atDepth_of_steady (initial_of_problem? h kind).1 hd]
  exact hpos

end WeightTable

end Assay
