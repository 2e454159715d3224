import Assay.Value.Basic

/-!
# Frames

A frame answers what an expression may ask of the program it is evaluated in: the variables, the
types behind names, the addresses of variables, and memory. A `Snapshot` is a frame held as lists
of entries, of which the newest counts; memory is addressed by address and type together, so that
a record and its first field can share an address.
-/

namespace Assay

/-- What an evaluation can ask of its surroundings. -/
structure Frame where
  /-- The value of a variable. -/
  valueOf? : String → Option Value
  /-- The type behind a tag. -/
  taggedType? : String → Option Ty := fun _ => none
  /-- The address of a variable. -/
  addressOf? : String → Option UInt64 := fun _ => none
  /-- The value of a type at an address. -/
  read? : UInt64 → Ty → Option Value := fun _ _ => none

/-- A frame held as entries, newest first. -/
structure Snapshot where
  vars : List (String × Value) := []
  addresses : List (String × UInt64) := []
  types : List (String × Ty) := []
  memory : List ((UInt64 × Ty) × Value) := []

namespace Snapshot

def empty : Snapshot := {}

def withVariable (frame : Snapshot) (name : String) (value : Value) : Snapshot :=
  { frame with vars := (name, value) :: frame.vars }

def withType (frame : Snapshot) (name : String) (type : Ty) : Snapshot :=
  { frame with types := (name, type) :: frame.types }

def withMemory (frame : Snapshot) (address : UInt64) (value : Value) : Snapshot :=
  { frame with memory := ((address, value.type), value) :: frame.memory }

/-- The frame with a variable that also lies in memory, so that its address can be taken. -/
def withVariableAt (frame : Snapshot) (name : String) (value : Value) (address : UInt64) :
    Snapshot :=
  let frame := (frame.withMemory address value).withVariable name value
  { frame with addresses := (name, address) :: frame.addresses }

def valueOf? (frame : Snapshot) (name : String) : Option Value := frame.vars.lookup name

def taggedType? (frame : Snapshot) (name : String) : Option Ty := frame.types.lookup name

def addressOf? (frame : Snapshot) (name : String) : Option UInt64 := frame.addresses.lookup name

def read? (frame : Snapshot) (address : UInt64) (type : Ty) : Option Value :=
  frame.memory.lookup (address, type)

/-- The snapshot as a frame. -/
def toFrame (frame : Snapshot) : Frame where
  valueOf? := frame.valueOf?
  taggedType? := frame.taggedType?
  addressOf? := frame.addressOf?
  read? := frame.read?

end Snapshot

/-- The frame that knows the same variables and nothing else. -/
def Frame.variablesOnly (frame : Frame) : Frame where
  valueOf? := frame.valueOf?

end Assay
