import Assay.Binary64.Arithmetic
import Assay.Enumerated

/-!
# Kinds and their weights

The productions of the two grammars, that of expressions and that of types, and the weights by
which they are chosen. A weight starts at an initial value and fades with depth: each level
multiplies it by one minus its dampening (`Weight.atDepth`).
-/

namespace Assay

/-- How likely a kind is: its weight at the root, and how fast it fades. -/
structure Weight where
  initial : Binary64
  dampening : Binary64
deriving DecidableEq

namespace Weight

instance : BEq Weight := ⟨fun a b => a.initial == b.initial && a.dampening == b.dampening⟩

def zero : Weight := ⟨0, 0⟩

instance : Inhabited Weight := ⟨zero⟩

/-- The weight at a depth. Depths past `2 ^ 31 - 1` count as that. -/
def atDepth (weight : Weight) (depth : Nat) : Binary64 :=
  weight.initial * (1 - weight.dampening).power (min depth 2147483647)

end Weight

/-- A closed set of productions. -/
class Kind (κ : Type) extends Enumerated κ where
  /-- The kind's name in configuration files. -/
  name : κ → String
  /-- Whether a node of this kind contains generated nodes of its own grammar. -/
  isRecursive : κ → Bool
  defaultWeight : κ → Weight

/-- The kind with a name. -/
def Kind.ofName? {κ : Type} [Kind κ] (name : String) : Option κ :=
  (Enumerated.all : List κ).find? fun kind => Kind.name kind = name

/-- The kinds of expressions. -/
inductive ExprKind
  | integer | double | var | unary | binary | addressOf | member | memberOfPointer | index
  | conditional | boolean
deriving DecidableEq, Inhabited

namespace ExprKind

instance : Enumerated ExprKind where
  all := [integer, double, var, unary, binary, addressOf, member, memberOfPointer, index,
    conditional, boolean]
  index kind := kind.ctorIdx
  mem_all kind := by cases kind <;> decide
  map_index_all := rfl

/-- By default there are integers, the variable, and operators that fade out with depth. -/
instance : Kind ExprKind where
  name
    | integer => "integer_constant"
    | double => "double_constant"
    | var => "variable_expr"
    | unary => "unary_expr"
    | binary => "binary_expr"
    | addressOf => "address_of"
    | member => "member_of"
    | memberOfPointer => "member_of_ptr"
    | index => "array_index"
    | conditional => "ternary_expr"
    | boolean => "boolean_constant"
  isRecursive
    | unary | binary | index | conditional => true
    | _ => false
  defaultWeight
    | integer | var => ⟨1, 0⟩
    | unary => ⟨7, 0.4⟩
    | binary => ⟨3, 0.4⟩
    | _ => .zero

end ExprKind

/-- The kinds of types. -/
inductive TypeKind
  | scalar | tagged | pointer | reference
deriving DecidableEq, Inhabited

namespace TypeKind

instance : Enumerated TypeKind where
  all := [scalar, tagged, pointer, reference]
  index kind := kind.ctorIdx
  mem_all kind := by cases kind <;> decide
  map_index_all := rfl

instance : Kind TypeKind where
  name
    | scalar => "scalar_type"
    | tagged => "tagged_type"
    | pointer => "pointer_type"
    | reference => "reference_type"
  isRecursive
    | pointer | reference => true
    | _ => false
  defaultWeight
    | scalar => ⟨2, 0⟩
    | tagged => .zero
    | pointer => ⟨1, 0.5⟩
    | reference => ⟨0.5, 0.5⟩

end TypeKind

/-- The configured weight of every kind. -/
structure WeightTable (κ : Type) where
  weight : κ → Weight

namespace WeightTable

variable {κ : Type} [Kind κ]

/-- Every kind at its default weight. -/
def default : WeightTable κ := ⟨Kind.defaultWeight⟩

instance : Inhabited (WeightTable κ) := ⟨default⟩

/-- Every kind at weight zero. -/
def zeroed : WeightTable κ := ⟨fun _ => .zero⟩

/-- The table with another weight for one kind. -/
def set [DecidableEq κ] (table : WeightTable κ) (kind : κ) (weight : Weight) : WeightTable κ :=
  ⟨fun k => if k = kind then weight else table.weight k⟩

/-- The entries in the order of the kinds. -/
def entries (table : WeightTable κ) : List (κ × Weight) :=
  Enumerated.all.map fun kind => (kind, table.weight kind)

instance : BEq (WeightTable κ) :=
  ⟨fun a b => (Enumerated.all : List κ).all fun kind => a.weight kind == b.weight kind⟩

/-- The weights at a depth. Recursive kinds drop to zero at a cap and below. -/
def atDepth (table : WeightTable κ) (maxDepth : Option Nat) (depth : Nat) (kind : κ) : Binary64 :=
  if maxDepth.any (· ≤ depth) && Kind.isRecursive kind then 0
  else (table.weight kind).atDepth depth

end WeightTable

end Assay
