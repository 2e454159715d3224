import Assay.Generation.Kind
import Assay.Mask
import Assay.Operator
import Assay.SourceType

/-!
# Requests and choices

Every random decision of the generator is a request to a sampler. An answer can be logged as a
choice, and a logged choice answers a request of its form again. Whether it is a valid answer is up
to the request: an operator has to be in the mask, a kind of positive weight, a number in range
(`Request.accepts`).
-/

namespace Assay

/-- A request for a random decision, by the type of its answer. -/
inductive Request : Type → Type
  /-- An operator in the mask, or none when the mask is empty. -/
  | binaryOp (mask : Mask BinaryOp) : Request (Option BinaryOp)
  | unaryOp (mask : Mask UnaryOp) : Request (Option UnaryOp)
  /-- A kind in proportion to its weight, or none when no weight is positive. -/
  | exprKind (weights : ExprKind → Binary64) : Request (Option ExprKind)
  | typeKind (weights : TypeKind → Binary64) : Request (Option TypeKind)
  /-- An integer in `[min, max]`. -/
  | integer (min max : UInt64) : Request UInt64
  /-- A number in `[min, max)`. -/
  | double (min max : Binary64) : Request Binary64
  /-- True with a probability. -/
  | flag (probability : Binary64) : Request Bool
  | qualifiers (constProbability volatileProbability : Binary64) : Request Qualifiers

/-- One decision. -/
inductive Choice
  | binaryOp (op : BinaryOp)
  | unaryOp (op : UnaryOp)
  | exprKind (kind : ExprKind)
  | typeKind (kind : TypeKind)
  | integer (n : UInt64)
  | double (x : Binary64)
  | flag (b : Bool)
  | qualifiers (cv : Qualifiers)
deriving DecidableEq

namespace Request

/-- The choice that logs an answer; the answer none is not logged. -/
def log? : {α : Type} → Request α → α → Option Choice
  | _, binaryOp _, op => op.map .binaryOp
  | _, unaryOp _, op => op.map .unaryOp
  | _, exprKind _, kind => kind.map .exprKind
  | _, typeKind _, kind => kind.map .typeKind
  | _, integer .., n => some (.integer n)
  | _, double .., x => some (.double x)
  | _, flag _, b => some (.flag b)
  | _, qualifiers .., cv => some (.qualifiers cv)

/-- The answer that a choice of the right form gives, valid or not. -/
def read? : {α : Type} → Request α → Choice → Option α
  | _, binaryOp _, .binaryOp op => some (some op)
  | _, unaryOp _, .unaryOp op => some (some op)
  | _, exprKind _, .exprKind kind => some (some kind)
  | _, typeKind _, .typeKind kind => some (some kind)
  | _, integer .., .integer n => some n
  | _, double .., .double x => some x
  | _, flag _, .flag b => some b
  | _, qualifiers .., .qualifiers cv => some cv
  | _, _, _ => none

/-- The kinds of positive weight. -/
def viableKinds {κ : Type} [Kind κ] (weights : κ → Binary64) : List κ :=
  Enumerated.all.filter fun kind => Binary64.lt 0 (weights kind)

/-- Whether an answer is one the request asks for; none is one only where there is no other. -/
def accepts : {α : Type} → Request α → α → Bool
  | _, binaryOp mask, some op => mask.contains op
  | _, binaryOp mask, none => mask.isEmpty
  | _, unaryOp mask, some op => mask.contains op
  | _, unaryOp mask, none => mask.isEmpty
  | _, exprKind weights, some kind => Binary64.lt 0 (weights kind)
  | _, exprKind weights, none => (viableKinds weights).isEmpty
  | _, typeKind weights, some kind => Binary64.lt 0 (weights kind)
  | _, typeKind weights, none => (viableKinds weights).isEmpty
  | _, integer min max, n => min ≤ n && n ≤ max
  | _, double min max, x => min.le x && (x.lt max || x == min)
  | _, flag _, _ => true
  | _, qualifiers .., _ => true

/-- The first kind of positive weight that ends the recursion, or else the first one at all. -/
def simplestKind? {κ : Type} [Kind κ] (weights : κ → Binary64) : Option κ :=
  let viable := viableKinds weights
  viable.find? (fun kind => !Kind.isRecursive kind) <|> viable.head?

/-- The simplest valid answer. -/
def simplest : {α : Type} → Request α → α
  | _, binaryOp mask => mask.toList.head?
  | _, unaryOp mask => mask.toList.head?
  | _, exprKind weights => simplestKind? weights
  | _, typeKind weights => simplestKind? weights
  | _, integer min _ => min
  | _, double min _ => min
  | _, flag _ => false
  | _, qualifiers .. => .none

/-- The answer of a source that has nothing to say: none, the lower bound, false. -/
def blank : {α : Type} → Request α → α
  | _, binaryOp _ => none
  | _, unaryOp _ => none
  | _, exprKind _ => none
  | _, typeKind _ => none
  | _, integer min _ => min
  | _, double min _ => min
  | _, flag _ => false
  | _, qualifiers .. => .none

end Request

/-- A source of random decisions with a state. -/
structure Sampler (σ : Type) where
  answer : {α : Type} → Request α → StateM σ α

end Assay
