import Assay.Binary64.Basic

/-!
# Shortest decimals

A decimal is a whole number of digits with a power of ten. It reads as the nearest double. The
shortest decimal of a double (`Decimal.shortest`) has the fewest digits that read back as that
double, and of those it is the one nearest to it.
-/

namespace Assay

/-- The number `digits * 10 ^ exponent`. -/
structure Decimal where
  digits : Nat
  exponent : Int
deriving DecidableEq

/-- How many decimal digits `n` has; zero has none. -/
def digitCount (n : Nat) : Nat := if n = 0 then 0 else (Nat.toDigits 10 n).length

namespace Decimal

def numerator (d : Decimal) : Nat := d.digits * Nat.pow 10 d.exponent.toNat

def denominator (d : Decimal) : Nat := Nat.pow 10 (-d.exponent).toNat

/-- The magnitude of the nearest double, in units of `2 ^ -1074`, as if doubles had no upper
limit. -/
def units (d : Decimal) : Nat :=
  Rounding.roundBits 53 0 (d.numerator * Binary64.unitsPerOne) d.denominator

/-- The position of the decimal point, counted from before the first digit: the number lies in
`[10 ^ (point - 1), 10 ^ point)`. -/
def point (d : Decimal) : Int := digitCount d.digits + d.exponent

/-- The nearest double. Decimals far outside the range of doubles are settled by the position of
their point. -/
def toBinary64 (d : Decimal) (negative : Bool) : Binary64 :=
  if d.digits = 0 ∨ d.point < -400 then .zero negative
  else if 400 < d.point then .infinite negative
  else .ofRatio negative d.numerator d.denominator

/-- The same number without trailing zeros among its digits. -/
def trimmed (d : Decimal) : Decimal := go d.digits d.exponent
where
  /-- Moves trailing zeros of `digits` into the exponent. -/
  go (digits : Nat) (exponent : Int) : Decimal :=
    if h : 0 < digits ∧ digits % 10 = 0 then go (digits / 10) (exponent + 1)
    else ⟨digits, exponent⟩
  termination_by digits
  decreasing_by omega

/-- The two multiples of `10 ^ exponent` around `units * 2 ^ -1074`, the nearer one first; of
two equally near, the larger. -/
def neighbours (units : Nat) (exponent : Int) : List Decimal :=
  let num := units * Nat.pow 10 (-exponent).toNat
  let den := Binary64.unitsPerOne * Nat.pow 10 exponent.toNat
  let below := ⟨num / den, exponent⟩
  let above := ⟨num / den + 1, exponent⟩
  if 2 * (num % den) < den then [below, above] else [above, below]

/-- The position of the point of `units * 2 ^ -1074`. -/
def pointOf (units : Nat) : Int :=
  if Binary64.unitsPerOne ≤ units then digitCount (units / Binary64.unitsPerOne)
  else 1 - digitCount ((Binary64.unitsPerOne - 1) / units)

/-- All digits of `units * 2 ^ -1074`. -/
def exact (units : Nat) : Decimal := ⟨units * Nat.pow 5 1074, -1074⟩

/-- The shortest decimal that reads as `units * 2 ^ -1074`, and the nearest one of that length.
Seventeen digits are always enough. -/
def shortest (units : Nat) : Decimal :=
  let grids := (List.range 17).map fun (n : Nat) => pointOf units - (n + 1)
  let found := grids.findSome? fun grid =>
    (neighbours units grid).find? fun d => d.units == units
  (found.getD (exact units)).trimmed

end Decimal

end Assay
