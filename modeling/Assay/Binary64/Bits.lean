import Assay.Binary64.Basic

/-!
# The interchange encoding of doubles

A sign bit, eleven exponent bits and 52 fraction bits. Up to `2 ^ 53` units the encoding of a
magnitude is the magnitude itself; above, each further doubling adds one to the exponent.
-/

namespace Assay.Binary64

/-- The encoding of a finite magnitude. -/
def encodeUnits (units : Nat) : Nat :=
  let shift := units.log2 + 1 - 53
  shift * Nat.pow 2 52 + units / Nat.pow 2 shift

def toBits : Binary64 → UInt64
  | nan => 0x7ff8000000000000
  | infinite negative => UInt64.ofNat (signBit negative + 0x7ff0000000000000)
  | finite negative units _ => UInt64.ofNat (signBit negative + encodeUnits units)
where
  /-- The place value of the sign. -/
  signBit (negative : Bool) : Nat := if negative then Nat.pow 2 63 else 0

theorem representable_shifted {m k : Nat} (hm : m < Nat.pow 2 53) (hk : k ≤ 2045) :
    Representable (m * Nat.pow 2 k) := by
  refine ⟨?_, m, k, hm, rfl⟩
  calc m * Nat.pow 2 k < Nat.pow 2 53 * Nat.pow 2 k :=
        Nat.mul_lt_mul_of_pos_right hm (Nat.two_pow_pos k)
    _ = Nat.pow 2 (53 + k) := (Nat.pow_add 2 53 k).symm
    _ ≤ unitsLimit := two_pow_le_unitsLimit (by unfold unitsWidth; omega)

/-- The number that 64 bits denote; every NaN encoding is the one NaN. -/
def ofBits (bits : UInt64) : Binary64 :=
  let negative := Nat.pow 2 63 ≤ bits.toNat
  let exponent := bits.toNat / Nat.pow 2 52 % 2048
  let fraction := bits.toNat % Nat.pow 2 52
  have fraction_lt : fraction < Nat.pow 2 52 := Nat.mod_lt _ (Nat.two_pow_pos 52)
  if exponent = 0 then
    .finite negative fraction (representable_of_lt (Nat.lt_trans fraction_lt (by decide)))
  else if h : exponent < 2047 then
    .finite negative ((Nat.pow 2 52 + fraction) * Nat.pow 2 (exponent - 1))
      (representable_shifted (Nat.add_lt_add_left fraction_lt (Nat.pow 2 52)) (by omega))
  else if fraction = 0 then .infinite negative
  else .nan

end Assay.Binary64
