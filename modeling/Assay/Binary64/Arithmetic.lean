import Assay.Binary64.Basic

/-!
# Arithmetic on doubles

Each operation computes the exact result on whole numbers of units and rounds it once to the
nearest double.
-/

namespace Assay.Binary64

def neg : Binary64 → Binary64
  | nan => nan
  | infinite negative => infinite !negative
  | finite negative units fits => finite (!negative) units fits

/-- An exact zero sum is negative only when both operands are. -/
def add : Binary64 → Binary64 → Binary64
  | nan, _ | _, nan => nan
  | infinite s, infinite t => if s = t then infinite s else nan
  | infinite s, finite .. | finite .., infinite s => infinite s
  | finite s a _, finite t b _ =>
    let sum := signed s a + signed t b
    if sum = 0 then zero (s && t) else ofUnits (sum < 0) sum.natAbs 1

def sub (x y : Binary64) : Binary64 := x.add y.neg

def mul : Binary64 → Binary64 → Binary64
  | nan, _ | _, nan => nan
  | infinite s, infinite t => infinite (s != t)
  | infinite s, finite t a _ | finite t a _, infinite s => if a = 0 then nan else infinite (s != t)
  | finite s a _, finite t b _ => ofUnits (s != t) (a * b) unitsPerOne

def div : Binary64 → Binary64 → Binary64
  | nan, _ | _, nan => nan
  | infinite _, infinite _ => nan
  | infinite s, finite t .. => infinite (s != t)
  | finite s .., infinite t => zero (s != t)
  | finite s a _, finite t b _ =>
    if b = 0 then if a = 0 then nan else infinite (s != t)
    else ofUnits (s != t) (a * unitsPerOne) b

instance : Neg Binary64 := ⟨neg⟩
instance : Add Binary64 := ⟨add⟩
instance : Sub Binary64 := ⟨sub⟩
instance : Mul Binary64 := ⟨mul⟩
instance : Div Binary64 := ⟨div⟩

/-- `x` to a natural power by repeated squaring; every product is rounded. -/
def power (x : Binary64) (exponent : Nat) : Binary64 :=
  go x 1 exponent
where
  /-- `r` times `base` to the power `n`. -/
  go (base r : Binary64) (n : Nat) : Binary64 :=
    let r := if n % 2 = 1 then r * base else r
    if h : n / 2 = 0 then r else go (base * base) r (n / 2)
  termination_by n
  decreasing_by omega

end Assay.Binary64
