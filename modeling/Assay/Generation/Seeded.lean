import Assay.Generation.Request
import Assay.Random.Uniform

/-!
# The seeded sampler

Requests are answered from the keystream of a seed.
-/

namespace Assay.Keystream

/-- One of some elements, each with the same chance; nothing is drawn when there are none. -/
def oneOf {α : Type} (elements : List α) : StateM Keystream (Option α) := do
  if elements.isEmpty then return none
  return elements[← index elements.length]?

/-- A kind in proportion to its weight. -/
def weightedKind {κ : Type} [Kind κ] (weights : κ → Binary64) : StateM Keystream (Option κ) := do
  let chosen ← weighted (Enumerated.all.map weights)
  return chosen.bind Enumerated.ofIndex?

/-- Answers requests from a keystream. -/
def sampler : Sampler Keystream where
  answer
    | .binaryOp mask => oneOf mask.toList
    | .unaryOp mask => oneOf mask.toList
    | .exprKind weights => weightedKind weights
    | .typeKind weights => weightedKind weights
    | .integer min max => integer min max
    | .double min max => double min max
    | .flag probability => flag probability
    | .qualifiers constProbability volatileProbability => do
      let isConst ← flag constProbability
      let isVolatile ← flag volatileProbability
      return ⟨isConst, isVolatile⟩

end Assay.Keystream
