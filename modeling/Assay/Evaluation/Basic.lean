import Assay.Evaluation.Literal
import Assay.Evaluation.Operation
import Assay.Frame

/-!
# Evaluation

An expression is evaluated for a target in a frame. The first finding on the way is kept beside
the value, or ends the evaluation if the options ask for that. Of a conditional's two branches the
one not taken is evaluated too, for its type only: speculatively, so that nothing is reported and
memory that cannot be read counts as zero.
-/

namespace Assay

structure EvalOptions where
  /-- Fail at the first finding instead of carrying on with an unspecified value. -/
  stopAtFinding : Bool := false
deriving DecidableEq, Inhabited

/-- What an evaluation takes place in. -/
structure EvalContext where
  target : Target
  frame : Frame
  options : EvalOptions := {}

/-- What an evaluation keeps track of. -/
structure Session where
  /-- The first finding so far. -/
  finding : Finding := .none
  /-- Whether a branch is evaluated only for its type. -/
  speculative : Bool := false
deriving DecidableEq, Inhabited

/-- An evaluation in progress: it fails or gives a result, and keeps the session in both cases. -/
abbrev Eval := ExceptT EvalError (StateM Session)

namespace Eval

def ofExcept {α : Type} (result : Except EvalError α) : Eval α := ExceptT.mk (pure result)

/-- The value, or the error when there is none. -/
def orError {α : Type} (result : Option α) (error : EvalError) : Eval α :=
  match result with
  | some a => pure a
  | none => throw error

/-- Runs an evaluation speculatively; afterwards the session is as speculative as before. -/
def speculatively {α : Type} (action : Eval α) : Eval α :=
  ExceptT.mk fun session =>
    let (result, after) := action.run { session with speculative := true }
    (result, { after with speculative := session.speculative })

end Eval

namespace EvalContext

/-- Records a finding, unless the evaluation is speculative. -/
def report (cx : EvalContext) (finding : Finding) : Eval Unit := do
  let session ← get
  if finding.isUndefined && !session.speculative then
    set { session with finding := session.finding.orElse finding }
    if cx.options.stopAtFinding then throw (.undefinedBehavior finding)

/-- The value of an operation, once its finding is reported. -/
def accept (cx : EvalContext) (outcome : Except EvalError Judged) : Eval Value := do
  let judged ← Eval.ofExcept outcome
  cx.report judged.finding
  return judged.value

/-- The object of a type at an address. A record is not read: its value is its address. -/
def load (cx : EvalContext) (address : UInt64) (type : Ty) : Eval Value := do
  match type with
  | .record r => return .record r address
  | type =>
    match cx.frame.read? address type with
    | some value => return value
    | none =>
      if (← get).speculative then return .zero cx.target type
      else throw (.memoryRead address)

/-- The type that a written type names. -/
def resolve (cx : EvalContext) : SourceType → Except EvalError Ty
  | .scalar s _ => .ok (.scalar s)
  | .tagged name _ =>
    match cx.frame.taggedType? name with
    | some type => .ok type
    | none => .error (.unknownType name)
  | .pointer pointee _ =>
    match cx.resolve pointee with
    | .ok type => .ok (.pointer type)
    | .error e => .error e
  | .reference .. => .error (.unsupported .referenceCast)

/-- A typed place in memory. -/
structure Place where
  type : Ty
  address : UInt64

/-- The place of a field in a record that lies at an address. -/
def fieldPlace (record : RecordType) (address : UInt64) (field : String) :
    Except EvalError Place :=
  match record.field? field with
  | some found => .ok ⟨found.type, address + UInt64.ofNat found.offset⟩
  | none => .error (.noMember (.record record) field)

/-- The place of `base.field`. -/
def memberPlace (base : Value) (field : String) : Except EvalError Place :=
  match base.type, base.address? with
  | .record r, some address => fieldPlace r address field
  | type, _ => .error (.noMember type field)

/-- The place of `base->field`. -/
def memberOfPointerPlace (base : Value) (field : String) : Except EvalError Place :=
  match base.type, base.address? with
  | .pointer (.record r), some address => fieldPlace r address field
  | type, _ => .error (.noMember type field)

/-- The place that a pointer points to. -/
def pointedPlace? (pointer : Value) : Option Place :=
  match pointer.type, pointer.address? with
  | .pointer pointee, some address => some ⟨pointee, address⟩
  | _, _ => none

/-- The pointer to `base[index]`. Indexing is never classified. -/
def elementPointer (cx : EvalContext) (base index : Value) : Except EvalError Value :=
  if base.type.isPointer && index.type.isIntegerOperand then
    .ok (cx.target.movePointer base index.toInt)
  else .error (.ofOperands .plus base index)

/-- The pointer to a variable. A record's address is known even where the frame gives none. -/
def variablePointer (cx : EvalContext) (name : String) : Except EvalError Value :=
  match cx.frame.valueOf? name with
  | none => .error (.undeclared name)
  | some value =>
    let own :=
      match value.type with
      | .record _ => value.address?
      | _ => none
    match cx.frame.addressOf? name <|> own with
    | some address => .ok (.pointer value.type address)
    | none => .error (.unsupported (.address (.var name)))

/-- The value of a conditional, from the branch taken and the one evaluated for its type; `truth`
says whether the first branch was taken. -/
def joinBranches (cx : EvalContext) (truth : Bool) (taken skipped : Value) :
    Except EvalError Value :=
  match cx.target.conditionalType? taken.type skipped.type with
  | some common =>
    .ok (if taken.type = common then taken else taken.convert cx.target common)
  | none =>
    .error (if truth then .incompatible taken.type skipped.type
      else .incompatible skipped.type taken.type)

/-- Whether the left operand of `&&` or `||` decides the result. -/
def decides (op : BinaryOp) (l : Value) : Bool :=
  if op = .logicalAnd then !l.isTruthy else l.isTruthy

mutual

/-- The value of an expression. -/
def eval (cx : EvalContext) : Expr → Eval Value
  | .integer literal => pure (literal.toValue cx.target)
  | .floating literal => pure literal.toValue
  | .boolean b => pure (.boolean b)
  | .var name => Eval.orError (cx.frame.valueOf? name) (.undeclared name)
  | .unary op e => do
    let v ← cx.eval e
    Eval.ofExcept (cx.target.unary op v)
  | .binary op e f => do
    let l ← cx.eval e
    if op.isLogical then
      if !l.type.isTestable then throw (.ofOperands op l l)
      if decides op l then return .boolean l.isTruthy
      let r ← cx.eval f
      if !r.type.isTestable then throw (.ofOperands op l r)
      return .boolean r.isTruthy
    else
      let r ← cx.eval f
      cx.accept (cx.target.binary op l r)
  | .addressOf e => cx.evalAddress e
  | .dereference e => do
    let pointer ← cx.eval e
    let place ← Eval.orError (pointedPlace? pointer) (.invalidIndirection pointer.type)
    cx.load place.address place.type
  | .member e field => do
    let base ← cx.eval e
    let place ← Eval.ofExcept (memberPlace base field)
    cx.load place.address place.type
  | .memberOfPointer e field => do
    let base ← cx.eval e
    let place ← Eval.ofExcept (memberOfPointerPlace base field)
    cx.load place.address place.type
  | .index e f => do
    let base ← cx.eval e
    let index ← cx.eval f
    let element ← Eval.ofExcept (cx.elementPointer base index)
    let place ← Eval.orError (pointedPlace? element) (.unsupported .nonPointerIndex)
    cx.load place.address place.type
  | .conditional e f g => do
    let cond ← cx.eval e
    if !cond.type.isTestable then throw (.invalidCast cond.type .bool)
    if cond.isTruthy then
      let taken ← cx.eval f
      let skipped ← Eval.speculatively (cx.eval g)
      Eval.ofExcept (cx.joinBranches true taken skipped)
    else
      let taken ← cx.eval g
      let skipped ← Eval.speculatively (cx.eval f)
      Eval.ofExcept (cx.joinBranches false taken skipped)
  | .cast type e => do
    let dest ← Eval.ofExcept (cx.resolve type)
    let v ← cx.eval e
    cx.accept (cx.target.cast v dest)
  | .paren e => cx.eval e

/-- The pointer to what an expression designates. -/
def evalAddress (cx : EvalContext) : Expr → Eval Value
  | .paren e => cx.evalAddress e
  | .var name => Eval.ofExcept (cx.variablePointer name)
  | .dereference e => do
    let pointer ← cx.eval e
    if pointer.type.isPointer then return pointer
    else throw (.invalidIndirection pointer.type)
  | .member e field => do
    let base ← cx.eval e
    let place ← Eval.ofExcept (memberPlace base field)
    return .pointer place.type place.address
  | .memberOfPointer e field => do
    let base ← cx.eval e
    let place ← Eval.ofExcept (memberOfPointerPlace base field)
    return .pointer place.type place.address
  | .index e f => do
    let base ← cx.eval e
    let index ← cx.eval f
    Eval.ofExcept (cx.elementPointer base index)
  | e => throw (.unsupported (.address e))

end

end EvalContext

/-- The result of evaluating a whole expression. -/
structure Evaluation where
  value : Value
  /-- The first undefined behaviour met. -/
  finding : Finding
deriving DecidableEq

namespace EvalContext

/-- Evaluates an expression in a session, whose finding starts afresh. The session is kept for
the next expression. -/
def evaluateIn (cx : EvalContext) (session : Session) (e : Expr) :
    Except EvalError Evaluation × Session :=
  let (result, after) := (cx.eval e).run { session with finding := .none }
  (result.map fun value => ⟨value, after.finding⟩, after)

/-- Evaluates an expression in a fresh session. -/
def evaluate (cx : EvalContext) (e : Expr) : Except EvalError Evaluation :=
  (cx.evaluateIn {} e).1

/-- Evaluates expressions one after another in one session. -/
def evaluateAll (cx : EvalContext) (session : Session) :
    List Expr → List (Except EvalError Evaluation)
  | [] => []
  | e :: rest =>
    let (result, after) := cx.evaluateIn session e
    result :: cx.evaluateAll after rest

end EvalContext

end Assay
