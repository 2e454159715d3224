import Assay.Target

/-!
# Record layout

A record is laid out field by field. Each field starts at the first multiple of its alignment past
the end of the field before it, and the record is padded to a multiple of its widest alignment.
-/

namespace Assay

/-- The least multiple of `align` that is not below `n`. -/
def alignUp (n align : Nat) : Nat := (n + align - 1) / align * align

/-- The alignment of a type in bytes: that of a record, and otherwise its own size. -/
def Target.alignOf (target : Target) : Ty → Nat
  | .record r => r.align
  | type => max (target.sizeOf type) 1

namespace RecordType

/-- A record without fields. -/
def empty (name : String) : RecordType := ⟨name, 0, 1, .nil⟩

/-- The end of the last field, before any padding. -/
def contentEnd (target : Target) (record : RecordType) : Nat :=
  match record.fields.toList.getLast? with
  | some last => last.offset + target.sizeOf last.type
  | none => 0

/-- The record with one more field at its end. -/
def withField (record : RecordType) (target : Target) (name : String) (type : Ty) : RecordType :=
  let offset := alignUp (record.contentEnd target) (target.alignOf type)
  let align := max record.align (target.alignOf type)
  { record with
    size := alignUp (offset + target.sizeOf type) align
    align
    fields := record.fields.push ⟨name, type, offset⟩ }

end RecordType

end Assay
