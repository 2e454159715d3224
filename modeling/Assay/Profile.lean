import Assay.Generation.ConfigTable
import Assay.Target
import Assay.Toml.Document

/-!
# Profiles

A profile selects a target and a configuration. There are some by name, and others are read from
TOML files.
-/

namespace Assay

structure Profile where
  target : Arch := .x86_64
  generator : Config := {}
deriving Inhabited

/-- Equality of numbers in the settings, so a profile that holds NaN equals nothing. -/
instance : BEq Profile := ⟨fun a b => a.target = b.target && a.generator == b.generator⟩

namespace Profile

/-- Arithmetic over integer, double and boolean constants, with conditionals: for the corner cases
of division, shifts and casts. -/
def arithmetic : Profile where
  generator := {
    integerMax := 4294967296
    doubleMin := -1000
    doubleMax := 1000
    binaryOps := .ofList
      [.mul, .div, .mod, .plus, .minus, .shl, .shr, .bitAnd, .bitXor, .bitOr]
    unaryOps := .ofList [.plus, .neg, .bitNot]
    exprWeights := WeightTable.default.set .double ⟨0.5, 0⟩ |>.set .boolean ⟨0.2, 0⟩
      |>.set .conditional ⟨0.5, 0.6⟩ }

/-- Slowly fading recursion with a cap on depth: for long chains of operators. -/
def deep : Profile where
  generator := {
    parenProbability := 0.35
    maxDepth := some 12
    exprWeights := WeightTable.default.set .unary ⟨4, 0.1⟩ |>.set .binary ⟨6, 0.1⟩
      |>.set .conditional ⟨1, 0.2⟩ }

/-- Addresses, member access and indexing, with declarations full of pointers. -/
def pointers : Profile where
  generator := {
    fieldNames := ["f", "g", "next"]
    tagNames := ["S", "Node"]
    exprWeights := WeightTable.default.set .addressOf ⟨1, 0⟩ |>.set .member ⟨0.5, 0⟩
      |>.set .memberOfPointer ⟨0.5, 0⟩ |>.set .index ⟨1, 0.5⟩
    typeWeights := WeightTable.default.set .tagged ⟨1, 0⟩ |>.set .pointer ⟨2, 0.5⟩ }

/-- The profiles with a name. -/
def builtIn : List (String × Profile) :=
  [("default", {}), ("arithmetic", arithmetic), ("deep", deep), ("pointers", pointers)]

/-- The names of the profiles with a name. -/
def available : List String := builtIn.map (·.1)

def readSetting (profile : Profile) (key : String) (v : Toml.Value) : Reading Profile :=
  match key with
  | "target" => do
    let arch ← Reading.ofOption (Arch.ofName? (← Reading.name v))
    return { profile with target := arch }
  | "generator" => do return { profile with generator := ← Config.ofValue v }
  | _ => .ok profile

/-- The profile that a document denotes, over the default one. -/
def ofToml (text : String) : Reading Profile :=
  match Toml.parse? text with
  | none => .error .grammar
  | some entries => entries.foldlM (fun profile (key, v) => profile.readSetting key v) {}

/-- Why there is no profile of a name. -/
inductive Error
  | unknown (name : String)
  | unreadable (path : String)
  | malformed (path : String) (cause : Malformed)
deriving DecidableEq

/-- Whether a name is the path of a file. -/
def isPath (name : String) : Bool := name.contains '/' || name.endsWith ".toml"

/-- The profile with a name, or of a file, whose text `fileText?` gives if it can be read. -/
def find (fileText? : String → Option String) (name : String) : Except Error Profile :=
  if isPath name then
    match fileText? name with
    | none => .error (.unreadable name)
    | some text =>
      match ofToml text with
      | .ok profile => .ok profile
      | .error cause => .error (.malformed name cause)
  else
    match builtIn.lookup name with
    | some profile => .ok profile
    | none => .error (.unknown name)

end Profile

def Malformed.message : Malformed → String
  | grammar => "not a TOML document"
  | shape => "a value of the wrong form"
  | unknownKind name known =>
    "unknown kind '" ++ name ++ "', expected one of: " ++ String.intercalate ", " known

def Profile.Error.message : Profile.Error → String
  | unknown name =>
    "unknown profile '" ++ name ++ "', available profiles: " ++
      String.intercalate ", " Profile.available
  | unreadable path => "failed to read profile file '" ++ path ++ "'"
  | malformed path cause => "failed to parse profile '" ++ path ++ "': " ++ cause.message

end Assay
