import Assay.Binary64.Arithmetic
import Assay.Target

/-!
# Values

A value is a type with its content: a 64-bit integer of the type's signedness, or a double. A
pointer's content is its address; a record's is the address of its fields, which stay in memory.
Conversions never fail: integers keep their low bits, and floating values are truncated and
clamped first.
-/

namespace Assay

/-- The content of a value. -/
inductive Scalar
  | signed (n : Int64)
  | unsigned (n : UInt64)
  | floating (x : Binary64)
deriving DecidableEq

structure Value where
  type : Ty
  scalar : Scalar
deriving DecidableEq

/-- The range of the integers that arithmetic is carried out in: 128 bits, signed. -/
def wideRange : IntRange := .signed 128

/-- An integer reduced to 128 bits, signed. -/
def wrapWide (n : Int) : Int := n.bmod (Nat.pow 2 128)

namespace Value

def boolean (b : Bool) : Value := ⟨.bool, .unsigned (if b then 1 else 0)⟩

/-- The value of an integral, enumeration or pointer type that is congruent to `raw` modulo the
type's width; of `bool`, whether `raw` is not zero. -/
def ofInt (target : Target) (type : Ty) (raw : Int) : Value :=
  if type.isBool then ⟨type, .unsigned (if raw = 0 then 0 else 1)⟩
  else
    let modulus := Nat.pow 2 (max 1 (min 64 (target.width type)))
    if target.isSigned type then ⟨type, .signed (Int64.ofInt (raw.bmod modulus))⟩
    else ⟨type, .unsigned (UInt64.ofNat (raw.emod modulus).toNat)⟩

/-- The value of a floating type nearest to `x`. -/
def ofBinary64 (type : Ty) (x : Binary64) : Value :=
  ⟨type, .floating (if type = .scalar .float then x.toSingle else x)⟩

def pointer (pointee : Ty) (address : UInt64) : Value := ⟨.pointer pointee, .unsigned address⟩

def record (type : RecordType) (address : UInt64) : Value := ⟨.record type, .unsigned address⟩

/-- The zero of a type: the null pointer, or a record at address zero. -/
def zero (target : Target) (type : Ty) : Value :=
  match type with
  | .record r => .record r 0
  | type => if type.isFloating then .ofBinary64 type (.zero false) else .ofInt target type 0

/-- The integer held, unless the value is floating. -/
def toInt? (v : Value) : Option Int :=
  match v.scalar with
  | .signed n => some n.toInt
  | .unsigned n => some n.toNat
  | .floating _ => none

/-- The double nearest to the value. -/
def toBinary64 (v : Value) : Binary64 :=
  match v.scalar with
  | .signed n => .ofInt n.toInt
  | .unsigned n => .ofInt n.toNat
  | .floating x => x

/-- The integer held, or the integer part of a floating value clamped to 128 bits. -/
def toInt (v : Value) : Int :=
  match v.scalar with
  | .signed n => n.toInt
  | .unsigned n => n.toNat
  | .floating x => x.truncateClamped wideRange.min wideRange.max

/-- The address that a pointer holds or a record lies at. -/
def address? (v : Value) : Option UInt64 :=
  match v.type, v.scalar with
  | .pointer _, .unsigned address | .record _, .unsigned address => some address
  | _, _ => none

/-- The truth of a value: everything but zero is true, NaN included. -/
def isTruthy (v : Value) : Bool :=
  match v.scalar with
  | .signed n => n != 0
  | .unsigned n => n != 0
  | .floating x => !(x == 0)

/-- The value converted to an arithmetic, enumeration or pointer type. -/
def convert (v : Value) (target : Target) (type : Ty) : Value :=
  if type.isFloating then .ofBinary64 type v.toBinary64
  else if type.isBool then .boolean v.isTruthy
  else .ofInt target type v.toInt

end Value

end Assay
