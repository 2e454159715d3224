import Assay.Decimal.Layout
import Assay.Value.Basic

/-!
# Texts of values

Pointers are written as hexadecimal addresses, and records as their name and address.
-/

namespace Assay

/-- An address in hexadecimal. -/
def addressText (address : UInt64) : String :=
  "0x" ++ String.ofList (Nat.toDigits 16 address.toNat)

/-- The text of a value. -/
def Value.text (v : Value) : String :=
  match v.type, v.scalar with
  | .pointer _, .unsigned address => addressText address
  | .record r, .unsigned address => r.name ++ " @ " ++ addressText address
  | .scalar .bool, .unsigned n => if n = 0 then "false" else "true"
  | _, .signed n => toString n.toInt
  | _, .unsigned n => toString n.toNat
  | _, .floating x => x.text .plain

end Assay
