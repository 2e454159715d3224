import Assay.Enumerated

/-!
# Types as written

A type as a cast or a declaration spells it, before a target gives it a size. Qualifiers stand
before a base type and after a pointer's star; a reference shows none of its own.
-/

namespace Assay

/-- The built-in arithmetic types. -/
inductive ScalarType
  | bool
  | char | signedChar | unsignedChar
  | short | unsignedShort
  | int | unsignedInt
  | long | unsignedLong
  | longLong | unsignedLongLong
  | float | double
deriving DecidableEq, Inhabited

namespace ScalarType

instance : Enumerated ScalarType where
  all := [bool, char, signedChar, unsignedChar, short, unsignedShort, int, unsignedInt, long,
    unsignedLong, longLong, unsignedLongLong, float, double]
  index scalar := scalar.ctorIdx
  mem_all scalar := by cases scalar <;> decide
  map_index_all := rfl

def name : ScalarType → String
  | bool => "bool"
  | char => "char"
  | signedChar => "signed char"
  | unsignedChar => "unsigned char"
  | short => "short"
  | unsignedShort => "unsigned short"
  | int => "int"
  | unsignedInt => "unsigned int"
  | long => "long"
  | unsignedLong => "unsigned long"
  | longLong => "long long"
  | unsignedLongLong => "unsigned long long"
  | float => "float"
  | double => "double"

def isFloating : ScalarType → Bool
  | float | double => true
  | _ => false

def isIntegral (scalar : ScalarType) : Bool := !scalar.isFloating

end ScalarType

/-- The qualifiers of one level of a type. -/
structure Qualifiers where
  isConst : Bool
  isVolatile : Bool
deriving DecidableEq, Inhabited

namespace Qualifiers

def none : Qualifiers := ⟨false, false⟩

def isEmpty (cv : Qualifiers) : Bool := !cv.isConst && !cv.isVolatile

/-- The qualifiers' words in the order in which they are written. -/
def words (cv : Qualifiers) : List String :=
  (if cv.isConst then ["const"] else []) ++ (if cv.isVolatile then ["volatile"] else [])

/-- The qualifiers as written before a base type. -/
def leading (cv : Qualifiers) : String := String.join (cv.words.map (· ++ " "))

/-- The qualifiers as written after a pointer's star. -/
def trailing (cv : Qualifiers) : String := String.join (cv.words.map (" " ++ ·))

end Qualifiers

/-- A type as written, with the qualifiers of each level. -/
inductive SourceType
  | scalar (scalar : ScalarType) (cv : Qualifiers)
  /-- A class or enumeration referred to by name. -/
  | tagged (name : String) (cv : Qualifiers)
  | pointer (pointee : SourceType) (cv : Qualifiers)
  | reference (referee : SourceType) (cv : Qualifiers)
deriving DecidableEq, Inhabited

namespace SourceType

/-- The qualifiers of the outermost level. -/
def qualifiers : SourceType → Qualifiers
  | scalar _ cv | tagged _ cv | pointer _ cv | reference _ cv => cv

/-- The type with other qualifiers at its outermost level. -/
def withQualifiers (cv : Qualifiers) : SourceType → SourceType
  | .scalar s _ => .scalar s cv
  | .tagged name _ => .tagged name cv
  | .pointer pointee _ => .pointer pointee cv
  | .reference referee _ => .reference referee cv

def isReference : SourceType → Bool
  | reference .. => true
  | _ => false

/-- The text of a type. -/
def text : SourceType → String
  | scalar s cv => cv.leading ++ s.name
  | tagged name cv => cv.leading ++ name
  | pointer pointee cv => pointee.text ++ "*" ++ cv.trailing
  | reference referee _ => referee.text ++ "&"

end SourceType

/-- The declaration of a variable. -/
structure Declaration where
  type : SourceType
  name : String
deriving DecidableEq

/-- The text of a declaration. -/
def Declaration.text (decl : Declaration) : String :=
  decl.type.text ++ " " ++ decl.name ++ ";"

end Assay
