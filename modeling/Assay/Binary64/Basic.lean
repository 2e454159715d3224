import Assay.Rounding

/-!
# Double-precision numbers

A finite double is a sign and a whole number of units of `2 ^ -1074`, the least positive double,
so sums and comparisons are those of integers and no rounding hides in the representation. The
magnitudes that occur are those of at most 53 significant bits below `2 ^ 1024`
(`Representable`). There is one NaN.
-/

namespace Assay

/-- Width in bits of the largest finite magnitude. -/
def unitsWidth : Nat := 2098

/-- Width in bits of the largest finite single-precision magnitude. -/
def singleWidth : Nat := 1202

/-- The first whole number of units past every finite magnitude: `2 ^ 1024`. -/
def unitsLimit : Nat := Nat.pow 2 unitsWidth

/-- The first whole number of units past every finite single-precision magnitude: `2 ^ 128`. -/
def singleLimit : Nat := Nat.pow 2 singleWidth

/-- Magnitudes of finite doubles, in units of `2 ^ -1074`: at most 53 significant bits, and
below `2 ^ 1024`. -/
def Representable (units : Nat) : Prop :=
  units < unitsLimit ∧ ∃ m k, m < Nat.pow 2 53 ∧ units = m * Nat.pow 2 k

/-- A double-precision number. -/
inductive Binary64
  | nan
  | infinite (negative : Bool)
  | finite (negative : Bool) (units : Nat) (fits : Representable units)
deriving DecidableEq

namespace Binary64

/-- How many units of `2 ^ -1074` make one. -/
def unitsPerOne : Nat := Nat.pow 2 1074

theorem two_pow_le_unitsLimit {k : Nat} (h : k ≤ unitsWidth) : Nat.pow 2 k ≤ unitsLimit := by
  unfold unitsLimit
  generalize unitsWidth = w at h ⊢
  exact Nat.pow_le_pow_right (by decide) h

theorem singleLimit_le_unitsLimit : singleLimit ≤ unitsLimit := by
  unfold singleLimit
  exact two_pow_le_unitsLimit (by decide)

theorem representable_of_lt {units : Nat} (small : units < Nat.pow 2 53) :
    Representable units :=
  ⟨Nat.lt_of_lt_of_le small (two_pow_le_unitsLimit (by decide)), units, 0, small, by simp⟩

theorem representable_roundBits {precision : Nat} (positive : 0 < precision)
    (narrow : precision ≤ 53) {least num den : Nat}
    (bound : Rounding.roundBits precision least num den < unitsLimit) :
    Representable (Rounding.roundBits precision least num den) := by
  obtain ⟨m, k, hm, value⟩ := Rounding.exists_roundBits_eq positive least num den
  exact ⟨bound, m, k, Nat.lt_of_lt_of_le hm (Nat.pow_le_pow_right (by decide) narrow), value⟩

/-- Zero of either sign. -/
def zero (negative : Bool) : Binary64 := .finite negative 0 (representable_of_lt (by decide))

/-- The double nearest to `num / den` units of `2 ^ -1074`, ties to even; infinite past the
largest finite double. -/
def ofUnits (negative : Bool) (num den : Nat) : Binary64 :=
  if bound : Rounding.roundBits 53 0 num den < unitsLimit then
    .finite negative _ (representable_roundBits (by decide) (by decide) bound)
  else .infinite negative

/-- The double nearest to `num / den`. -/
def ofRatio (negative : Bool) (num den : Nat) : Binary64 :=
  ofUnits negative (num * unitsPerOne) den

/-- The double nearest to an integer. -/
def ofInt (n : Int) : Binary64 := ofRatio (n < 0) n.natAbs 1

instance (n : Nat) : OfNat Binary64 n := ⟨ofRatio false n 1⟩

/-- A decimal constant is the double nearest to it. -/
instance : OfScientific Binary64 where
  ofScientific digits negativeExponent exponent :=
    if negativeExponent then ofRatio false digits (Nat.pow 10 exponent)
    else ofRatio false (digits * Nat.pow 10 exponent) 1

instance : Inhabited Binary64 := ⟨zero false⟩

/-- Whether the number carries a minus sign; zeros and infinities have one too. -/
def isNegative : Binary64 → Bool
  | nan => false
  | infinite negative => negative
  | finite negative _ _ => negative

def isFinite : Binary64 → Bool
  | finite .. => true
  | _ => false

def isNaN : Binary64 → Bool
  | nan => true
  | _ => false

/-- A magnitude with its sign. -/
def signed (negative : Bool) (magnitude : Nat) : Int :=
  if negative then -magnitude else magnitude

/-- Place in the order of the numbers: the signed count of units, with the infinities just
outside the finite range. NaN has none. -/
def rank? : Binary64 → Option Int
  | nan => none
  | infinite negative => some (signed negative unitsLimit)
  | finite negative units _ => some (signed negative units)

/-- The order of two numbers; none when either is NaN. -/
def compare? (x y : Binary64) : Option Ordering := do
  return compare (← x.rank?) (← y.rank?)

/-- Equality of numbers: the two zeros are equal and NaN equals nothing. -/
instance : BEq Binary64 := ⟨fun x y => x.compare? y == some .eq⟩

def lt (x y : Binary64) : Bool := x.compare? y == some .lt

def le (x y : Binary64) : Bool := x.lt y || x == y

theorem representable_truncated {units : Nat} (fits : Representable units) :
    Representable (units / unitsPerOne * unitsPerOne) := by
  obtain ⟨small, m, k, hm, rfl⟩ := fits
  refine ⟨Nat.lt_of_le_of_lt (Nat.div_mul_le_self _ _) small, ?_⟩
  -- the exponent stays a variable, so that no power is computed
  unfold unitsPerOne
  generalize (1074 : Nat) = e
  rcases Nat.le_total e k with h | h
  · refine ⟨m, k, hm, Nat.div_mul_cancel ?_⟩
    exact Nat.dvd_trans (Nat.pow_dvd_pow 2 h) (Nat.dvd_mul_left _ m)
  · refine ⟨m / Nat.pow 2 (e - k), e, Nat.lt_of_le_of_lt (Nat.div_le_self _ _) hm, ?_⟩
    have split : Nat.pow 2 e = Nat.pow 2 (e - k) * Nat.pow 2 k := by
      rw [← Nat.sub_add_cancel h]
      simpa using Nat.pow_add 2 (e - k) k
    have quotient : m * Nat.pow 2 k / Nat.pow 2 e = m / Nat.pow 2 (e - k) := by
      rw [split]
      exact Nat.mul_div_mul_right m _ (Nat.two_pow_pos k)
    rw [quotient]

/-- The nearest whole number that is not farther from zero. -/
def truncate : Binary64 → Binary64
  | finite negative units fits =>
    finite negative (units / unitsPerOne * unitsPerOne) (representable_truncated fits)
  | x => x

/-- The integer part clamped to `[least, greatest]`; zero for NaN. -/
def truncateClamped (least greatest : Int) : Binary64 → Int
  | nan => 0
  | infinite negative => if negative then least else greatest
  | finite negative units _ =>
    max least (min greatest (signed negative (units / unitsPerOne)))

/-- The nearest single-precision number, ties to even, as a double. -/
def toSingle : Binary64 → Binary64
  | finite negative units _ =>
    if bound : Rounding.roundBits 24 925 units 1 < singleLimit then
      .finite negative (Rounding.roundBits 24 925 units 1)
        (representable_roundBits (by decide) (by decide)
          (Nat.lt_of_lt_of_le bound singleLimit_le_unitsLimit))
    else .infinite negative
  | x => x

end Binary64

end Assay
