import Assay.Binary64.Arithmetic
import Assay.Binary64.Bits
import Assay.Random.Keystream

/-!
# Drawing from a keystream

Uniform integers and doubles, biased coins and weighted choices, drawn from the words of a
keystream. Draws that would be biased or out of range are repeated. A draw is repeated with
probability at most one half, so the bound on repetitions (`patience`) is never met in practice.
-/

namespace Assay.Keystream

/-- How often a draw is repeated at most. -/
def patience : Nat := 4096

/-- Draws until a draw is accepted. -/
def drawUntil {α : Type} (draw : StateM Keystream (Option α)) (default : α) :
    Nat → StateM Keystream α
  | 0 => pure default
  | n + 1 => do
    match ← draw with
    | some a => pure a
    | none => drawUntil draw default n

/-- An index below `n` from words of `width` bits: the high half of the product of a word and `n`.
Products whose low half exceeds the zone, the largest multiple of `n` by a power of two less one,
are drawn again, so that every index has the same chance. -/
def below (width : Nat) (word : StateM Keystream Nat) (n : Nat) : StateM Keystream Nat :=
  let zone := n * Nat.pow 2 (width - 1 - n.log2) - 1
  let draw : StateM Keystream (Option Nat) := do
    let product := (← word) * n
    let (high, low) := (product / Nat.pow 2 width, product % Nat.pow 2 width)
    return if low ≤ zone then some high else none
  drawUntil draw 0 patience

/-- An index below `n`, from 32-bit words. -/
def index (n : Nat) : StateM Keystream Nat :=
  below 32 (do return (← next32).toNat) n

/-- An integer in `[min, max]`; nothing is drawn from a range of at most one integer. -/
def integer (min max : UInt64) : StateM Keystream UInt64 := do
  if max ≤ min then return min
  let n := (max - min + 1).toNat
  if n = 0 then next64
  else return min + UInt64.ofNat (← below 64 (do return (← next64).toNat) n)

/-- A multiple of `2 ^ -52` in `[0, 1)`. -/
def unit : StateM Keystream Binary64 := do
  return .ofRatio false ((← next64) >>> 12).toNat (Nat.pow 2 52)

/-- A number in `[min, max)`, or `min` when there is none. A range whose width is no finite double
is interpolated instead of scaled. -/
def double (min max : Binary64) : StateM Keystream Binary64 := do
  if !min.lt max then return min
  let width := max - min
  if width.isFinite then
    let draw : StateM Keystream (Option Binary64) := do
      let x := (← unit) * width + min
      return if x.lt max then some x else none
    drawUntil draw min patience
  else
    let t := Binary64.ofRatio false ((← next64) >>> 11).toNat (Nat.pow 2 53)
    let x := min * (1 - t) + max * t
    return if x.lt min then min else if max.lt x then max else x

/-- True with a probability; nothing is drawn where the answer is certain. -/
def flag (probability : Binary64) : StateM Keystream Bool := do
  if !Binary64.lt 0 probability then return false
  if Binary64.le 1 probability then return true
  let threshold := (probability * 18446744073709551616).truncateClamped 0 (UInt64.size - 1)
  return ((← next64).toNat : Int) < threshold

/-- The largest double below a positive one. -/
def previous (x : Binary64) : Binary64 := .ofBits (x.toBits - 1)

/-- The factor that brings a number in `[0, 1)` below `total` even after rounding. -/
def scaleBelow (total : Binary64) : Binary64 :=
  let almostOne : Binary64 := 1 - .ofRatio false 1 (Nat.pow 2 52)
  if total.le (total * almostOne + 0) then previous total else total

/-- The running sums of weights. -/
def runningSums (weights : List Binary64) : List Binary64 :=
  (weights.foldl (fun (sums, sum) w => (sums ++ [sum + w], sum + w)) ([], 0)).1

/-- The position of a weight, in proportion to the weights: the first whose running sum exceeds a
number below their total. None when a weight is negative or NaN, or the total is zero. -/
def weighted (weights : List Binary64) : StateM Keystream (Option Nat) := do
  let sums := runningSums weights
  let total := sums.getLast?.getD 0
  if weights.any (fun w => !Binary64.le 0 w) || total == 0 then return none
  let x := (← unit) * scaleBelow total + 0
  let last := weights.length - 1
  return some ((sums.take last).findIdx fun sum => x.lt sum)

end Assay.Keystream
