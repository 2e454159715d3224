import Assay.Ty.Basic

/-!
# Targets

A target fixes what the language leaves open: whether plain `char` is signed, and the widths of
`long` and of pointers. From these follow the width, signedness and range of every type.
-/

namespace Assay

inductive Arch
  | x86_64
  | aarch64
  | i686
  | x86_64Windows
deriving DecidableEq, Inhabited

namespace Arch

def all : List Arch := [x86_64, aarch64, i686, x86_64Windows]

def name : Arch → String
  | x86_64 => "x86_64"
  | aarch64 => "aarch64"
  | i686 => "i686"
  | x86_64Windows => "x86_64-windows"

def ofName? (name : String) : Option Arch := all.find? fun arch => arch.name = name

end Arch

/-- The properties of a target that types depend on. -/
structure Target where
  arch : Arch
  charSigned : Bool
  longBits : Nat
  pointerBits : Nat
deriving DecidableEq, Inhabited

/-- An inclusive range of integers. -/
structure IntRange where
  min : Int
  max : Int
deriving DecidableEq

namespace IntRange

def contains (range : IntRange) (n : Int) : Bool := range.min ≤ n && n ≤ range.max

/-- The integers of so many bits, signed. -/
def signed (width : Nat) : IntRange :=
  let half : Int := Nat.pow 2 (width - 1)
  ⟨-half, half - 1⟩

/-- The integers of so many bits, unsigned. -/
def unsigned (width : Nat) : IntRange :=
  let limit : Int := Nat.pow 2 width
  ⟨0, limit - 1⟩

end IntRange

namespace Target

/-- The target of an architecture. -/
def ofArch : Arch → Target
  | .x86_64 => ⟨.x86_64, true, 64, 64⟩
  | .aarch64 => ⟨.aarch64, false, 64, 64⟩
  | .i686 => ⟨.i686, true, 32, 32⟩
  | .x86_64Windows => ⟨.x86_64Windows, true, 32, 64⟩

/-- Width of a scalar in bits. -/
def scalarWidth (target : Target) : ScalarType → Nat
  | .bool | .char | .signedChar | .unsignedChar => 8
  | .short | .unsignedShort => 16
  | .int | .unsignedInt | .float => 32
  | .long | .unsignedLong => target.longBits
  | .longLong | .unsignedLongLong | .double => 64

def scalarSigned (target : Target) : ScalarType → Bool
  | .char => target.charSigned
  | .signedChar | .short | .int | .long | .longLong | .float | .double => true
  | .bool | .unsignedChar | .unsignedShort | .unsignedInt | .unsignedLong | .unsignedLongLong =>
    false

/-- Whether values of a type are signed; pointers and records count as unsigned. -/
def isSigned (target : Target) : Ty → Bool
  | .scalar s => target.scalarSigned s
  | .enumeration e => target.scalarSigned e.underlying
  | .pointer _ | .record _ => false

/-- Width of a type in bits. The width of a record is kept to 32 bits. -/
def width (target : Target) : Ty → Nat
  | .scalar s => target.scalarWidth s
  | .enumeration e => target.scalarWidth e.underlying
  | .pointer _ => target.pointerBits
  | .record r => r.size * 8 % UInt32.size

/-- Size of a type in bytes. -/
def sizeOf (target : Target) : Ty → Nat
  | .record r => r.size
  | type => target.width type / 8

/-- The range of an integral scalar. -/
def scalarRange (target : Target) (scalar : ScalarType) : IntRange :=
  if scalar = .bool then ⟨0, 1⟩
  else if target.scalarSigned scalar then .signed (target.scalarWidth scalar)
  else .unsigned (target.scalarWidth scalar)

/-- The range of an integral type; floating types, pointers and records have none. -/
def range? (target : Target) : Ty → Option IntRange
  | .scalar s => if s.isIntegral then some (target.scalarRange s) else none
  | .enumeration e => some (target.scalarRange e.underlying)
  | .pointer _ | .record _ => none

/-- The type of a difference of pointers: the first of `int`, `long` and `long long` that is as
wide as a pointer. -/
def differenceType (target : Target) : ScalarType :=
  if target.pointerBits = target.scalarWidth .int then .int
  else if target.pointerBits = target.longBits then .long
  else .longLong

end Target

end Assay
