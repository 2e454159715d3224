import Assay.Decimal.Shortest

/-!
# Texts of doubles

A double is written with the digits of its shortest decimal. A `Layout` says how they are laid
out: where an exponent replaces positional writing, and whether a whole number shows a fraction.
-/

namespace Assay

/-- How the digits of a double are laid out. -/
structure Layout where
  /-- What a number written without a fraction or an exponent ends in. -/
  wholeEnd : String
  /-- Numbers below `10 ^ lowest` are written with an exponent, when given. -/
  lowest : Option Int
  /-- Numbers from `10 ^ highest` on are written with an exponent, when given. -/
  highest : Option Int
  nanText : String
deriving DecidableEq

namespace Layout

/-- Values are written positionally, and whole ones without a fraction. -/
def plain : Layout := ⟨"", none, none, "NaN"⟩

/-- Literals keep a fraction or an exponent, so they never read as integers. The exponent is used
below `10 ^ -4` and from `10 ^ 16` on. -/
def literal : Layout := ⟨".0", some (-4), some 16, "NaN"⟩

/-- Whether a number whose point is at `point` is written with an exponent. -/
def usesExponent (layout : Layout) (point : Int) : Bool :=
  layout.lowest.any (point ≤ ·) || layout.highest.any (· < point)

/-- Digits with a point, without an exponent. -/
def positional (layout : Layout) (digits : String) (point : Int) : String :=
  let length : Int := digits.length
  if point ≤ 0 then "0." ++ String.ofList (List.replicate (-point).toNat '0') ++ digits
  else if length ≤ point then
    digits ++ String.ofList (List.replicate (point - length).toNat '0') ++ layout.wholeEnd
  else
    let (whole, fraction) := digits.toList.splitAt point.toNat
    String.ofList whole ++ "." ++ String.ofList fraction

/-- One digit, the others after a point, and the exponent. -/
def scientific (digits : String) (point : Int) : String :=
  let rest := digits.toList.drop 1
  let fraction := if rest.isEmpty then "" else "." ++ String.ofList rest
  String.ofList (digits.toList.take 1) ++ fraction ++ "e" ++ toString (point - 1)

/-- The text of a finite magnitude. -/
def magnitude (layout : Layout) (units : Nat) : String :=
  if units = 0 then "0" ++ layout.wholeEnd
  else
    let shortest := Decimal.shortest units
    let digits := toString shortest.digits
    if layout.usesExponent shortest.point then scientific digits shortest.point
    else layout.positional digits shortest.point

end Layout

/-- The text of a double. -/
def Binary64.text (x : Binary64) (layout : Layout) : String :=
  let minus := if x.isNegative then "-" else ""
  match x with
  | nan => layout.nanText
  | infinite _ => minus ++ "inf"
  | finite _ units _ => minus ++ layout.magnitude units

end Assay
