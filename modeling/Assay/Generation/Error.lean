import Assay.Decimal.Layout
import Assay.Generation.Config

/-!
# Texts of configuration and generation errors
-/

namespace Assay

def ConfigError.message : ConfigError → String
  | integerRange min max =>
    "integer constant range is empty: " ++ toString min ++ " > " ++ toString max
  | doubleRange min max =>
    "double constant range [" ++ min.text .plain ++ ", " ++ max.text .plain ++
      "] is empty or not finite, or its width overflows"
  | probability name value =>
    name ++ " must be a probability in [0, 1], got " ++ value.text .plain
  | weight kind value =>
    "weight of " ++ kind ++ " must be finite and non-negative, got " ++ value.text .plain
  | dampening kind value =>
    "dampening factor of " ++ kind ++ " must be in [0, 1], got " ++ value.text .plain
  | noTerminalExpr => "no terminal expression kind has a positive weight"
  | noTerminalType =>
    "type kinds are enabled but neither scalar_type nor tagged_type has a positive weight"
  | emptyOperators kind => kind ++ " is enabled but its operator mask is empty"
  | missingNames kind what => kind ++ " is enabled but no " ++ what ++ " are configured"

/-- Why generation got stuck. -/
inductive GenError
  | noExprKind (depth : Nat)
  | noTypeKind (depth : Nat)
  | noOperator (kind : String)
  | noNames (what : String)
  /-- The recursion reached the generator's limit. -/
  | tooDeep
deriving DecidableEq

def GenError.message : GenError → String
  | noExprKind depth => "no expression kind can be chosen at depth " ++ toString depth
  | noTypeKind depth => "no type kind can be chosen at depth " ++ toString depth
  | noOperator kind => "no " ++ kind ++ " operator can be chosen"
  | noNames what => "no " ++ what ++ " to choose from"
  | tooDeep => "the recursion limit is reached"

end Assay
