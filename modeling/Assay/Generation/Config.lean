import Assay.Generation.Kind
import Assay.Mask
import Assay.Operator

/-!
# Configurations

What a run of the generator is drawn from: ranges of constants, probabilities, operators, weights,
a cap on depth, and the names that expressions refer to.
-/

namespace Assay

/-- The settings of the generator. -/
structure Config where
  /-- How many expressions the command line prints by default. -/
  count : Nat := 20
  /-- Inclusive range of integer constants. -/
  integerMin : UInt64 := 0
  integerMax : UInt64 := 1000
  /-- Half-open range of double constants. -/
  doubleMin : Binary64 := 0
  doubleMax : Binary64 := 10
  /-- Chance of parentheses around any generated expression. -/
  parenProbability : Binary64 := 0.2
  /-- Chances of qualifying a generated type. -/
  constProbability : Binary64 := 0.3
  volatileProbability : Binary64 := 0.05
  binaryOps : Mask BinaryOp := .full
  unaryOps : Mask UnaryOp := .full
  exprWeights : WeightTable ExprKind := .default
  typeWeights : WeightTable TypeKind := .default
  /-- Depth from which recursive kinds are no longer chosen. -/
  maxDepth : Option Nat := none
  varName : String := "x"
  arrayName : String := "arr"
  structName : String := "s"
  structPointerName : String := "sp"
  fieldNames : List String := ["f"]
  tagNames : List String := []
deriving Inhabited, BEq

namespace Config

/-- The weights of expression kinds at a depth. -/
def exprWeightsAt (config : Config) (depth : Nat) : ExprKind → Binary64 :=
  config.exprWeights.atDepth config.maxDepth depth

/-- The weights of type kinds at a depth. -/
def typeWeightsAt (config : Config) (depth : Nat) : TypeKind → Binary64 :=
  config.typeWeights.atDepth config.maxDepth depth

/-- Whether an expression kind is enabled at the root. -/
def enables (config : Config) (kind : ExprKind) : Bool :=
  Binary64.lt 0 (config.exprWeights.weight kind).initial

/-- Whether a type kind is enabled at the root. -/
def enablesType (config : Config) (kind : TypeKind) : Bool :=
  Binary64.lt 0 (config.typeWeights.weight kind).initial

/-- The recursive expression kinds that never fade and are not capped, under which generation may
not end. -/
def undampedKinds (config : Config) : List ExprKind :=
  if config.maxDepth.isSome then []
  else Enumerated.all.filter fun kind =>
    Kind.isRecursive kind && config.enables kind &&
      (config.exprWeights.weight kind).dampening == 0

end Config

/-- Why a configuration cannot drive generation. -/
inductive ConfigError
  | integerRange (min max : UInt64)
  | doubleRange (min max : Binary64)
  | probability (name : String) (value : Binary64)
  | weight (kind : String) (value : Binary64)
  | dampening (kind : String) (value : Binary64)
  | noTerminalExpr
  | noTerminalType
  | emptyOperators (kind : String)
  | missingNames (kind what : String)
deriving DecidableEq

/-- Whether a number lies in `[0, 1]`. -/
def Binary64.isProbability (x : Binary64) : Bool := Binary64.le 0 x && x.le 1

/-- The first weight of a table that is negative, not finite, or fades by a factor outside
`[0, 1]`. -/
def WeightTable.problem? {κ : Type} [Kind κ] (table : WeightTable κ) : Option ConfigError :=
  table.entries.findSome? fun (kind, weight) =>
    if !weight.initial.isFinite || weight.initial.lt 0 then
      some (.weight (Kind.name kind) weight.initial)
    else if !weight.dampening.isProbability then
      some (.dampening (Kind.name kind) weight.dampening)
    else none

namespace Config

def integerProblem? (config : Config) : Option ConfigError :=
  if config.integerMax < config.integerMin then
    some (.integerRange config.integerMin config.integerMax)
  else none

/-- Sampling scales by the width of the range, so the width has to be finite too. -/
def doubleProblem? (config : Config) : Option ConfigError :=
  let (min, max) := (config.doubleMin, config.doubleMax)
  if !min.isFinite || !max.isFinite || max.lt min || !(max - min).isFinite then
    some (.doubleRange min max)
  else none

def probabilityProblem? (config : Config) : Option ConfigError :=
  [("parenthesize_prob", config.parenProbability), ("const_prob", config.constProbability),
    ("volatile_prob", config.volatileProbability)].findSome? fun (name, value) =>
      if value.isProbability then none else some (.probability name value)

/-- Some enabled expression kind has to end the recursion. -/
def terminalProblem? (config : Config) : Option ConfigError :=
  if Enumerated.all.any fun kind => !Kind.isRecursive kind && config.enables kind then none
  else some .noTerminalExpr

def operatorProblem? (config : Config) : Option ConfigError :=
  if config.enables .unary && config.unaryOps.isEmpty then
    some (.emptyOperators (Kind.name ExprKind.unary))
  else if config.enables .binary && config.binaryOps.isEmpty then
    some (.emptyOperators (Kind.name ExprKind.binary))
  else none

def fieldProblem? (config : Config) : Option ConfigError :=
  [ExprKind.member, .memberOfPointer].findSome? fun kind =>
    if config.enables kind && config.fieldNames.isEmpty then
      some (.missingNames (Kind.name kind) "field names")
    else none

/-- If any type kind is enabled, one that ends the recursion has to be. -/
def terminalTypeProblem? (config : Config) : Option ConfigError :=
  let any := Enumerated.all.any config.enablesType
  let terminal := config.enablesType .scalar || config.enablesType .tagged
  if any && !terminal then some .noTerminalType else none

def tagProblem? (config : Config) : Option ConfigError :=
  if config.enablesType .tagged && config.tagNames.isEmpty then
    some (.missingNames (Kind.name TypeKind.tagged) "tagged types")
  else none

/-- The first reason why the configuration cannot drive generation. -/
def problem? (config : Config) : Option ConfigError :=
  config.integerProblem? <|> config.doubleProblem? <|> config.probabilityProblem? <|>
    config.exprWeights.problem? <|> config.typeWeights.problem? <|> config.terminalProblem? <|>
    config.operatorProblem? <|> config.fieldProblem? <|> config.terminalTypeProblem? <|>
    config.tagProblem?

end Config

end Assay
