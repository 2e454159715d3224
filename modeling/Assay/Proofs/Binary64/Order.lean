import Assay.Binary64.Arithmetic
import Mathlib.Order.Basic

/-!
# The order of doubles

Comparisons of finite doubles are those of their ranks, and what lies between two finite doubles is
finite (`isFinite_of_between`).
-/

namespace Assay.Binary64

theorem rank?_of_isFinite {x : Binary64} (h : x.isFinite) :
    ∃ n : Int, x.rank? = some n ∧ -unitsLimit < n ∧ n < unitsLimit := by
  cases x with
  | nan => cases h
  | infinite negative => cases h
  | finite negative units fits =>
    refine ⟨signed negative units, rfl, ?_⟩
    have hlt : (units : Int) < unitsLimit := Int.ofNat_lt.mpr fits.1
    cases negative <;> simp only [signed, Bool.false_eq_true, ↓reduceIte] <;> omega

theorem lt_iff {x y : Binary64} {m n : Int} (hx : x.rank? = some m) (hy : y.rank? = some n) :
    x.lt y = true ↔ m < n := by
  simp [lt, compare?, hx, hy, Int.compare_eq_lt]

theorem beq_iff {x y : Binary64} {m n : Int} (hx : x.rank? = some m) (hy : y.rank? = some n) :
    (x == y) = true ↔ m = n := by
  change (x.compare? y == some .eq) = true ↔ m = n
  simp [compare?, hx, hy]

theorem le_iff {x y : Binary64} {m n : Int} (hx : x.rank? = some m) (hy : y.rank? = some n) :
    x.le y = true ↔ m ≤ n := by
  rw [le, Bool.or_eq_true, lt_iff hx hy, beq_iff hx hy]
  omega

theorem le_of_not_lt {x y : Binary64} (hx : x.isFinite) (hy : y.isFinite) (h : y.lt x = false) :
    x.le y := by
  obtain ⟨m, hm, -⟩ := rank?_of_isFinite hx
  obtain ⟨n, hn, -⟩ := rank?_of_isFinite hy
  rw [le_iff hm hn]
  by_contra hlt
  rw [(lt_iff hn hm).mpr (by omega)] at h
  cases h

theorem isFinite_of_rank? {x : Binary64} {n : Int} (h : x.rank? = some n) (hlo : -unitsLimit < n)
    (hhi : n < unitsLimit) : x.isFinite := by
  cases x with
  | nan => cases h
  | infinite negative =>
    cases negative <;> simp only [rank?, signed, Bool.false_eq_true, ↓reduceIte,
      Option.some.injEq] at h <;> omega
  | finite => rfl

theorem exists_rank?_of_le {x y : Binary64} (h : x.le y) : ∃ n, y.rank? = some n := by
  cases y with
  | nan => cases x <;> exact absurd h Bool.false_ne_true
  | infinite negative => exact ⟨_, rfl⟩
  | finite negative units fits => exact ⟨_, rfl⟩

theorem le_of_beq {x y : Binary64} (hx : x.isFinite) (h : (y == x) = true) : x.le y := by
  have heq : (y.compare? x == some .eq) = true := h
  obtain ⟨m, hm, -⟩ := rank?_of_isFinite hx
  cases hn : y.rank? with
  | none => simp [compare?, hn] at heq
  | some n => exact (le_iff hm hn).mpr (Int.le_of_eq ((beq_iff hn hm).mp h).symm)

theorem isFinite_of_between {low high x : Binary64} (hlow : low.isFinite) (hhigh : high.isFinite)
    (hle : low.le x) (hlt : x.lt high ∨ (x == low) = true) : x.isFinite := by
  obtain ⟨l, hl, hl1, hl2⟩ := rank?_of_isFinite hlow
  obtain ⟨u, hu, hu1, hu2⟩ := rank?_of_isFinite hhigh
  obtain ⟨n, hn⟩ := exists_rank?_of_le hle
  rw [le_iff hl hn] at hle
  rw [lt_iff hn hu, beq_iff hn hl] at hlt
  exact isFinite_of_rank? hn (by omega) (by omega)

end Assay.Binary64
