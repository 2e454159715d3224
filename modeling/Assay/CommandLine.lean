import Assay.Check
import Assay.Generation.Generator
import Assay.Generation.Seeded
import Assay.Profile

/-!
# The command line

Options are given as `--name value` or `--name=value`, each at most once. A run is a function of
its arguments, of the files it may read, and of the seed to use when none is given; it yields the
lines to print and an exit code.
-/

namespace Assay.CommandLine

/-- The options of a run. -/
structure Options where
  profile : String := "default"
  seed : Option Nat := none
  count : Option Nat := none
  target : Option Arch := none
  /-- Evaluate each expression and print what it gives. -/
  check : Bool := false
  /-- Print declarations instead of expressions. -/
  declare : Bool := false
deriving DecidableEq

/-- A number of 64 bits; a plus sign may stand before it. -/
def number? (s : String) : Option Nat := do
  let digits := match s.toList with
    | '+' :: rest => rest
    | cs => cs
  if digits.isEmpty || !digits.all Char.isDigit then none
  let n := Digits.number 10 digits
  if n < UInt64.size then some n else none

/-- Sets an option that takes a value. -/
def Options.setValue? (options : Options) (name value : String) : Option Options :=
  match name with
  | "--profile" => some { options with profile := value }
  | "--seed" => do return { options with seed := some (← number? value) }
  | "--count" => do return { options with count := some (← number? value) }
  | "--target" => do return { options with target := some (← Arch.ofName? value) }
  | _ => none

/-- Sets an option that takes no value. -/
def Options.setFlag? (options : Options) (name : String) : Option Options :=
  match name with
  | "--check" => some { options with check := true }
  | "--declare" => some { options with declare := true }
  | _ => none

def takesValue (name : String) : Bool :=
  ["--profile", "--seed", "--count", "--target"].contains name

/-- Whether an argument can only be an option, and so is no value of the option before it. A lone
dash is a value. -/
def isOption (arg : String) : Bool := arg.startsWith "-" && arg ≠ "-"

/-- The name of an option and the value attached to it by an equals sign. -/
def splitAttached (arg : String) : String × Option String :=
  match arg.toList.span (· ≠ '=') with
  | (name, _ :: value) => (String.ofList name, some (String.ofList value))
  | (_, []) => (arg, none)

/-- Reads arguments into options; `seen` are the names given before. None is a mistake in usage. -/
def parse? (seen : List String) (options : Options) : List String → Option Options
  | [] => some options
  | arg :: rest =>
    let (name, attached) := splitAttached arg
    if seen.contains name then none
    else if takesValue name then
      match attached, rest with
      | some value, rest => do parse? (name :: seen) (← options.setValue? name value) rest
      | none, value :: rest =>
        if isOption value then none
        else do parse? (name :: seen) (← options.setValue? name value) rest
      | none, [] => none
    else if attached.isSome then none
    else if name = "--" then if rest.isEmpty then some options else none
    else do parse? (name :: seen) (← options.setFlag? name) rest

/-- What a run prints, and its exit code. -/
structure Report where
  exitCode : Nat
  stdout : List String := []
  stderr : List String := []
deriving DecidableEq

/-- A run that ends with an error after some lines. -/
def Report.failure (stdout : List String) (message : String) : Report :=
  ⟨1, stdout, ["error: " ++ message]⟩

/-- The line of an expression. -/
def exprLine (target : Target) (frame : Snapshot) (options : Options) (e : Expr) : String :=
  if options.check then e.text ++ "  // " ++ (Assay.check target frame e).text else e.text

/-- The next line, and the stream after it. -/
def nextLine (g : Generator Keystream) (target : Target) (frame : Snapshot) (options : Options) :
    Gen Keystream String :=
  if options.declare then Declaration.text <$> g.declaration
  else exprLine target frame options <$> g.expr

/-- Prints so many lines after those in `printed`, newest first, up to the first error. -/
def printLines (next : Gen Keystream String) (printed : List String) :
    Nat → Keystream → Report
  | 0, _ => { exitCode := 0, stdout := printed.reverse }
  | n + 1, stream =>
    match next.run stream with
    | (.ok line, stream) => printLines next (line :: printed) n stream
    | (.error e, _) => .failure printed.reverse e.message

/-- A run with options. -/
def runOptions (fileText? : String → Option String) (defaultSeed : Nat) (options : Options) :
    Report :=
  match Profile.find fileText? options.profile with
  | .error e => .failure [] e.message
  | .ok profile =>
    let arch := options.target.getD profile.target
    let target := Target.ofArch arch
    match Generator.make? profile.generator Keystream.sampler with
    | .error e => .failure [] ("invalid profile '" ++ options.profile ++ "': " ++ e.message)
    | .ok g =>
      let seed := options.seed.getD defaultSeed
      let head := ["// seed: " ++ toString seed, "// profile: " ++ options.profile,
        "// target: " ++ arch.name]
      let next := nextLine g target (Synthetic.frame target g.config) options
      let count := options.count.getD g.config.count
      printLines next head.reverse count (.ofSeed (UInt64.ofNat seed))

/-- A run with arguments. A mistake in usage prints nothing to standard output. -/
def run (fileText? : String → Option String) (defaultSeed : Nat) (args : List String) : Report :=
  match parse? [] {} args with
  | some options => runOptions fileText? defaultSeed options
  | none => { exitCode := 2, stderr := ["error: invalid usage"] }

end Assay.CommandLine
