import Assay.Generation.Config
import Assay.Toml.Value

/-!
# Configurations as TOML tables

A configuration is written as a table with all its settings, in a fixed order. It is read from a
table with any of them, in the order of the table; what is left out keeps its default, and unknown
keys are ignored. Integers stand for floats too. A structure with fixed keys can also be written as
an array of its values in order.
-/

namespace Assay

open Toml (Value Table)

/-- Why a document does not denote a profile. -/
inductive Malformed
  /-- The text is no TOML document. -/
  | grammar
  /-- A value has the wrong form. -/
  | shape
  /-- A weight is given for a kind that does not exist. -/
  | unknownKind (name : String) (known : List String)
deriving DecidableEq

/-- The reading of a part of a document. -/
abbrev Reading := Except Malformed

namespace Reading

def ofOption {α : Type} : Option α → Reading α
  | some a => .ok a
  | none => .error .shape

/-- A natural number of 64 bits. -/
def natural : Value → Reading Nat
  | .integer n => if 0 ≤ n then .ok n.toNat else .error .shape
  | _ => .error .shape

def word (v : Value) : Reading UInt64 := UInt64.ofNat <$> natural v

def float : Value → Reading Binary64
  | .float x => .ok x
  | .integer n => .ok (.ofInt n)
  | _ => .error .shape

def string : Value → Reading String
  | .string s => .ok s
  | _ => .error .shape

def list {α : Type} (item : Value → Reading α) : Value → Reading (List α)
  | .array items => items.mapM item
  | _ => .error .shape

/-- One of some names, or a table with the name as its only key and an empty value. -/
def name : Value → Reading String
  | .string s => .ok s
  | .table [(s, .table [])] | .table [(s, .array [])] => .ok s
  | _ => .error .shape

/-- An element of a numbered type by its name. -/
def named {α : Type} [Enumerated α] (nameOf : α → String) (v : Value) : Reading α := do
  let s ← name v
  ofOption ((Enumerated.all : List α).find? fun a => nameOf a = s)

/-- A mask, as the list of its elements. -/
def mask {α : Type} [Enumerated α] (nameOf : α → String) (v : Value) : Reading (Mask α) :=
  Mask.ofList <$> list (named nameOf) v

/-- The entry of a key that has to be there. -/
def entry (entries : Table) (key : String) : Reading Value := ofOption (entries.lookup key)

/-- A weight. Both of its parts have to be there. -/
def weight : Value → Reading Weight
  | .table entries => do
    let initial ← float (← entry entries "initial_weight")
    let dampening ← float (← entry entries "dampening_factor")
    return ⟨initial, dampening⟩
  | .array (initial :: dampening :: _) => do return ⟨← float initial, ← float dampening⟩
  | _ => .error .shape

/-- A table of weights over the default one. Once all weights are read, the names of kinds are
checked in sorted order. -/
def weightTable {κ : Type} [Kind κ] [DecidableEq κ] : Value → Reading (WeightTable κ)
  | .table entries => do
    let weights ← entries.mapM fun e => do return (e.1, ← weight e.2)
    let sorted := weights.mergeSort fun a b => a.1 ≤ b.1
    sorted.foldlM (fun table (name, weight) =>
      match Kind.ofName? name with
      | some kind => .ok (table.set kind weight)
      | none => .error (.unknownKind name ((Enumerated.all : List κ).map Kind.name)))
      WeightTable.default
  | _ => .error .shape

end Reading

namespace Config

/-- The keys of the settings, in the order in which they are written. -/
def keys : List String :=
  ["num_exprs_to_generate", "int_const_min", "int_const_max", "double_constant_min",
    "double_constant_max", "parenthesize_prob", "const_prob", "volatile_prob", "bin_op_mask",
    "un_op_mask", "expr_kind_weights", "type_kind_weights", "max_depth", "var_name", "array_name",
    "struct_name", "struct_ptr_name", "field_names", "tagged_types"]

/-- The configuration with the setting of a key read from a value; unknown keys change nothing. -/
def readSetting (config : Config) (key : String) (v : Value) : Reading Config :=
  match key with
  | "num_exprs_to_generate" => do return { config with count := ← Reading.natural v }
  | "int_const_min" => do return { config with integerMin := ← Reading.word v }
  | "int_const_max" => do return { config with integerMax := ← Reading.word v }
  | "double_constant_min" => do return { config with doubleMin := ← Reading.float v }
  | "double_constant_max" => do return { config with doubleMax := ← Reading.float v }
  | "parenthesize_prob" => do return { config with parenProbability := ← Reading.float v }
  | "const_prob" => do return { config with constProbability := ← Reading.float v }
  | "volatile_prob" => do return { config with volatileProbability := ← Reading.float v }
  | "bin_op_mask" => do return { config with binaryOps := ← Reading.mask BinaryOp.name v }
  | "un_op_mask" => do return { config with unaryOps := ← Reading.mask UnaryOp.name v }
  | "expr_kind_weights" => do return { config with exprWeights := ← Reading.weightTable v }
  | "type_kind_weights" => do return { config with typeWeights := ← Reading.weightTable v }
  | "max_depth" => do return { config with maxDepth := some (← Reading.natural v) }
  | "var_name" => do return { config with varName := ← Reading.string v }
  | "array_name" => do return { config with arrayName := ← Reading.string v }
  | "struct_name" => do return { config with structName := ← Reading.string v }
  | "struct_ptr_name" => do return { config with structPointerName := ← Reading.string v }
  | "field_names" => do return { config with fieldNames := ← Reading.list Reading.string v }
  | "tagged_types" => do return { config with tagNames := ← Reading.list Reading.string v }
  | _ => .ok config

/-- The default configuration with the settings of a table. -/
def ofTable (entries : Table) : Reading Config :=
  entries.foldlM (fun config (key, v) => config.readSetting key v) {}

/-- The configuration that a value denotes. A date counts as a table without settings. -/
def ofValue : Value → Reading Config
  | .table entries => ofTable entries
  | .dateTime _ => .ok {}
  | .array items => ofTable (keys.zip items)
  | _ => .error .shape

/-- A mask as the names of its elements. -/
def maskValue {α : Type} [Enumerated α] (nameOf : α → String) (mask : Mask α) : Value :=
  .array (mask.toList.map fun a => .string (nameOf a))

/-- A table of weights, sorted by the names of the kinds. -/
def weightsValue {κ : Type} [Kind κ] (table : WeightTable κ) : Value :=
  let entries := table.entries.map fun (kind, weight) =>
    (Kind.name kind, Value.table [("initial_weight", .float weight.initial),
      ("dampening_factor", .float weight.dampening)])
  .table (entries.mergeSort fun a b => a.1 ≤ b.1)

/-- The table with all settings. The cap on depth is left out when there is none. -/
def toTable (config : Config) : Table :=
  [("num_exprs_to_generate", .integer config.count),
    ("int_const_min", .integer config.integerMin.toNat),
    ("int_const_max", .integer config.integerMax.toNat),
    ("double_constant_min", .float config.doubleMin),
    ("double_constant_max", .float config.doubleMax),
    ("parenthesize_prob", .float config.parenProbability),
    ("const_prob", .float config.constProbability),
    ("volatile_prob", .float config.volatileProbability),
    ("bin_op_mask", maskValue BinaryOp.name config.binaryOps),
    ("un_op_mask", maskValue UnaryOp.name config.unaryOps),
    ("expr_kind_weights", weightsValue config.exprWeights),
    ("type_kind_weights", weightsValue config.typeWeights)] ++
  (config.maxDepth.map fun (depth : Nat) => ("max_depth", Value.integer depth)).toList ++
  [("var_name", .string config.varName),
    ("array_name", .string config.arrayName),
    ("struct_name", .string config.structName),
    ("struct_ptr_name", .string config.structPointerName),
    ("field_names", .array (config.fieldNames.map .string)),
    ("tagged_types", .array (config.tagNames.map .string))]

end Config

end Assay
