import Assay.Evaluation.Basic
import Assay.Generation.Config
import Assay.Ty.Layout

/-!
# Checking generated expressions

Generated expressions are evaluated in a frame that holds the names they refer to.
-/

namespace Assay

namespace Synthetic

def variableAddress : UInt64 := 0x1000
def arrayAddress : UInt64 := 0x2000
def arrayLength : Nat := 16
def structAddress : UInt64 := 0x3000

/-- The name of the record: the first configured tag. -/
def tag (config : Config) : String := config.tagNames.head?.getD "S"

/-- The record with one `int` for each configured field. -/
def recordType (target : Target) (config : Config) : RecordType :=
  config.fieldNames.foldl (fun record name => record.withField target name .int)
    (.empty (tag config))

/-- The frame with `elements` as memory from the array's address on, one for each multiple of the
element size. -/
def withArray (target : Target) (frame : Snapshot) : Snapshot :=
  (List.range arrayLength).foldl (fun frame i =>
    frame.withMemory (arrayAddress + UInt64.ofNat (i * target.sizeOf .int))
      (.ofInt target .int (i * 3))) frame

/-- The frame with the fields of the record in memory, holding 1, 2 and so on. -/
def withFields (target : Target) (record : RecordType) (frame : Snapshot) : Snapshot :=
  record.fields.toList.zipIdx.foldl (fun frame (field, i) =>
    frame.withMemory (structAddress + UInt64.ofNat field.offset)
      (.ofInt target field.type (i + 1))) frame

/-- The frame of a configuration: an `int` variable that is 42, an array of sixteen multiples of
three, a record, and a pointer to it. -/
def frame (target : Target) (config : Config) : Snapshot :=
  let record := recordType target config
  let start := Snapshot.empty
    |>.withVariableAt config.varName (.ofInt target .int 42) variableAddress
    |>.withVariable config.arrayName (.pointer .int arrayAddress)
  (withFields target record (withArray target start))
    |>.withType (tag config) (.record record)
    |>.withVariable config.structPointerName (.pointer (.record record) structAddress)
    |>.withVariableAt config.structName (.record record structAddress) structAddress

end Synthetic

/-- What checking an expression gives. -/
inductive Outcome
  | value (v : Value)
  | undefined (finding : Finding)
  | error (e : EvalError)
deriving DecidableEq

namespace Outcome

/-- The outcome of an evaluation: its finding, if there is one, counts more than its value. -/
def ofResult : Except EvalError Evaluation → Outcome
  | .ok e => if e.finding.isUndefined then undefined e.finding else value e.value
  | .error e => error e

def text : Outcome → String
  | value v => "= " ++ v.text ++ " (" ++ v.type.text ++ ")"
  | undefined finding => "UB: " ++ finding.description
  | error e => "error: " ++ e.message

end Outcome

/-- Evaluates an expression in a snapshot. -/
def check (target : Target) (frame : Snapshot) (e : Expr) : Outcome :=
  .ofResult (EvalContext.evaluate { target, frame := frame.toFrame } e)

end Assay
