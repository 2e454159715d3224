import Assay.SourceType

/-!
# Types of values

The types that values have once names are resolved: scalars, enumerations, pointers, and records
with their fields laid out. The types of a record's fields are types again, so records and types
are defined together.
-/

namespace Assay

/-- An enumeration with its underlying type; a scoped one does not take part in arithmetic. -/
structure EnumType where
  name : String
  underlying : ScalarType
  isScoped : Bool
deriving DecidableEq, Inhabited

mutual

/-- The type of a value. -/
inductive Ty
  | scalar (scalar : ScalarType)
  | enumeration (type : EnumType)
  | pointer (pointee : Ty)
  | record (type : RecordType)

/-- A class with its size and alignment in bytes, and its fields in the order of declaration. -/
structure RecordType where
  name : String
  size : Nat
  align : Nat
  fields : Fields

/-- A field and its distance in bytes from the start of its record. -/
structure Field where
  name : String
  type : Ty
  offset : Nat

/-- A sequence of fields. -/
inductive Fields
  | nil
  | cons (field : Field) (rest : Fields)

end

deriving instance DecidableEq for Ty, RecordType, Field, Fields

instance : Inhabited Ty := ⟨.scalar .int⟩

namespace Fields

def toList : Fields → List Field
  | nil => []
  | cons field rest => field :: rest.toList

/-- The fields with one more at the end. -/
def push : Fields → Field → Fields
  | nil, last => cons last nil
  | cons field rest, last => cons field (rest.push last)

def ofList : List Field → Fields
  | [] => nil
  | field :: rest => cons field (ofList rest)

theorem toList_push (fields : Fields) (last : Field) :
    (fields.push last).toList = fields.toList ++ [last] := by
  match fields with
  | nil => rfl
  | cons field rest => simp [push, toList, toList_push rest last]

theorem toList_ofList (fields : List Field) : (ofList fields).toList = fields := by
  induction fields with
  | nil => rfl
  | cons field rest ih => simp [ofList, toList, ih]

end Fields

/-- The first field with a name. -/
def RecordType.field? (record : RecordType) (name : String) : Option Field :=
  record.fields.toList.find? fun field => field.name = name

namespace Ty

def bool : Ty := .scalar .bool
def int : Ty := .scalar .int

def pointee? : Ty → Option Ty
  | pointer pointee => some pointee
  | _ => none

def isPointer : Ty → Bool
  | pointer _ => true
  | _ => false

def isFloating : Ty → Bool
  | scalar s => s.isFloating
  | _ => false

/-- Integral scalars and enumerations. -/
def isIntegral : Ty → Bool
  | scalar s => s.isIntegral
  | enumeration _ => true
  | pointer _ | record _ => false

def isBool : Ty → Bool
  | scalar .bool => true
  | _ => false

/-- Every type but a record can be tested for truth. -/
def isTestable : Ty → Bool
  | record _ => false
  | _ => true

/-- Scalars and unscoped enumerations take part in the usual arithmetic conversions. -/
def isArithmetic : Ty → Bool
  | scalar _ => true
  | enumeration e => !e.isScoped
  | pointer _ | record _ => false

/-- Integral types that take part in arithmetic. -/
def isIntegerOperand (type : Ty) : Bool := type.isIntegral && type.isArithmetic

/-- The text of a type. -/
def text : Ty → String
  | scalar s => s.name
  | enumeration e => e.name
  | pointer pointee => pointee.text ++ " *"
  | record r => r.name

end Ty

end Assay
