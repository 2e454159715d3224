import Assay.Proofs.Evaluation.Overflow
import Assay.Proofs.Trapping.Operation

/-!
# Evaluation on a machine

An evaluation carried out with the integers of a machine is stopped just where the distance of two
pointers overflows, and gives what the evaluation gives (`evaluateIn_eq`): whatever is found on the
way, and in the branches that are evaluated for their types only. So it is stopped nowhere if the
pointers that the frame holds are narrow (`evaluateIn_untrapped`). Every address is; a pointer made
of a double far outside of memory is not, and can be too far from an address
(`difference_overflows`).
-/

namespace Assay

/-- An evaluation in progress on a machine. -/
abbrev TrappingEval := ExceptT EvalError (StateT Session Trapping)

namespace TrappingEval

variable {α β : Type}

/-- The evaluation on a machine, which is stopped by the overflow of a distance. -/
def ofEval (x : Eval α) : TrappingEval α :=
  ExceptT.mk fun session => do
    let (result, after) := x.run session
    return (← Trapping.ofResult result, after)

def ofTrapping (x : Trapping (Except EvalError α)) : TrappingEval α :=
  ExceptT.mk fun session => return (← x, session)

/-- Runs an evaluation speculatively. -/
def speculatively (action : TrappingEval α) : TrappingEval α :=
  ExceptT.mk fun session => do
    let (result, after) ← action.run { session with speculative := true }
    return (result, { after with speculative := session.speculative })

theorem ofTrapping_ofResult (result : Except EvalError α) :
    ofTrapping (Trapping.ofResult result) = ofEval (.ofExcept result) := rfl

theorem ofTrapping_ok (a : α) : ofTrapping (pure (.ok a)) = pure a := rfl

@[simp] theorem ofEval_pure (a : α) : ofEval (pure a) = pure a := rfl

@[simp] theorem ofEval_throw {e : EvalError} (h : e ≠ .overflow) :
    ofEval (throw e : Eval α) = throw e := by
  cases e <;> first | rfl | exact absurd rfl h

@[simp] theorem ofEval_get : ofEval get = get := rfl

theorem run_ofEval (x : Eval α) (session : Session) :
    (ofEval x).run session =
      do return (← Trapping.ofResult (x.run session).1, (x.run session).2) := rfl

/-- Where the first evaluation overflows, the second is not begun. -/
theorem ofEval_bind (x : Eval α) (f : α → Eval β) :
    ofEval (x >>= f) = ofEval x >>= fun a => ofEval (f a) := by
  funext session
  change (ofEval (x >>= f)).run session = (ofEval x >>= fun a => ofEval (f a)).run session
  rw [run_ofEval, run_bind]
  change _ = (ofEval x).run session >>= _
  rw [run_ofEval]
  rcases x.run session with ⟨e | a, after⟩
  · cases e <;> rfl
  · rfl

theorem ofEval_ite (c : Prop) [Decidable c] (x y : Eval α) :
    ofEval (if c then x else y) = if c then ofEval x else ofEval y :=
  apply_ite ofEval c x y

theorem ofEval_speculatively (x : Eval α) :
    ofEval x.speculatively = speculatively (ofEval x) := by
  funext session
  change (ofEval x.speculatively).run session = (speculatively (ofEval x)).run session
  change _ = (ofEval x).run { session with speculative := true } >>= _
  rw [run_ofEval, run_ofEval, Eval.run_speculatively]
  rcases x.run { session with speculative := true } with ⟨e | a, after⟩
  · cases e <;> rfl
  · rfl

end TrappingEval

/-! ## The evaluation -/

namespace Trapping

open TrappingEval

variable (cx : EvalContext)

def accept (outcome : Trapping (Except EvalError Judged)) : TrappingEval Value := do
  let judged ← ofTrapping outcome
  ofEval (cx.report judged.finding)
  return judged.value

def load (address : UInt64) (type : Ty) : TrappingEval Value := do
  match type with
  | .record r => return .record r address
  | type =>
    match cx.frame.read? address type with
    | some value => return value
    | none =>
      if (← get).speculative then ofTrapping (.ok <$> zero cx.target type)
      else throw (.memoryRead address)

def elementPointer (base index : Value) : Trapping (Except EvalError Value) := do
  if base.type.isPointer && index.type.isIntegerOperand then
    return .ok (← movePointer cx.target base index.toInt)
  else return .error (.ofOperands .plus base index)

def joinBranches (truth : Bool) (taken skipped : Value) : Trapping (Except EvalError Value) :=
  match cx.target.conditionalType? taken.type skipped.type with
  | some common => do
    if taken.type = common then return .ok taken
    else return .ok (← convert cx.target taken common)
  | none =>
    return .error (if truth then .incompatible taken.type skipped.type
      else .incompatible skipped.type taken.type)

mutual

/-- The value of an expression. -/
def eval : Expr → TrappingEval Value
  | .integer l => ofTrapping (.ok <$> literal cx.target l)
  | .floating l => return l.toValue
  | .boolean b => return .boolean b
  | .var name => ofEval (.orError (cx.frame.valueOf? name) (.undeclared name))
  | .unary op e => do
    let v ← eval e
    ofTrapping (unary cx.target op v)
  | .binary op e f => do
    let l ← eval e
    if op.isLogical then
      if !l.type.isTestable then throw (.ofOperands op l l)
      if EvalContext.decides op l then return .boolean l.isTruthy
      let r ← eval f
      if !r.type.isTestable then throw (.ofOperands op l r)
      return .boolean r.isTruthy
    else
      let r ← eval f
      accept cx (binary cx.target op l r)
  | .addressOf e => evalAddress e
  | .dereference e => do
    let pointer ← eval e
    let place ← ofEval (.orError (EvalContext.pointedPlace? pointer)
      (.invalidIndirection pointer.type))
    load cx place.address place.type
  | .member e field => do
    let base ← eval e
    let place ← ofEval (.ofExcept (EvalContext.memberPlace base field))
    load cx place.address place.type
  | .memberOfPointer e field => do
    let base ← eval e
    let place ← ofEval (.ofExcept (EvalContext.memberOfPointerPlace base field))
    load cx place.address place.type
  | .index e f => do
    let base ← eval e
    let index ← eval f
    let element ← ofTrapping (elementPointer cx base index)
    let place ← ofEval (.orError (EvalContext.pointedPlace? element)
      (.unsupported .nonPointerIndex))
    load cx place.address place.type
  | .conditional e f g => do
    let cond ← eval e
    if !cond.type.isTestable then throw (.invalidCast cond.type .bool)
    if cond.isTruthy then
      let taken ← eval f
      let skipped ← speculatively (eval g)
      ofTrapping (joinBranches cx true taken skipped)
    else
      let taken ← eval g
      let skipped ← speculatively (eval f)
      ofTrapping (joinBranches cx false taken skipped)
  | .cast type e => do
    let dest ← ofEval (.ofExcept (cx.resolve type))
    let v ← eval e
    accept cx (cast cx.target v dest)
  | .paren e => eval e

/-- The pointer to what an expression designates. -/
def evalAddress : Expr → TrappingEval Value
  | .paren e => evalAddress e
  | .var name => ofEval (.ofExcept (cx.variablePointer name))
  | .dereference e => do
    let pointer ← eval e
    if pointer.type.isPointer then return pointer
    else throw (.invalidIndirection pointer.type)
  | .member e field => do
    let base ← eval e
    let place ← ofEval (.ofExcept (EvalContext.memberPlace base field))
    return .pointer place.type place.address
  | .memberOfPointer e field => do
    let base ← eval e
    let place ← ofEval (.ofExcept (EvalContext.memberOfPointerPlace base field))
    return .pointer place.type place.address
  | .index e f => do
    let base ← eval e
    let index ← eval f
    ofTrapping (elementPointer cx base index)
  | e => throw (.unsupported (.address e))

end

/-- Evaluates an expression in a session, whose finding starts afresh. -/
def evaluateIn (session : Session) (e : Expr) :
    Trapping (Except EvalError Evaluation × Session) := do
  let (result, after) ← (eval cx e).run { session with finding := .none }
  return (result.map fun value => ⟨value, after.finding⟩, after)

variable {cx} {arch : Arch}

theorem accept_ofResult (outcome : Except EvalError Judged) :
    accept cx (ofResult outcome) = ofEval (cx.accept outcome) := by
  simp only [accept, EvalContext.accept, ofTrapping_ofResult, ofEval_bind, ofEval_pure]

theorem load_eq (hcx : cx.target = .ofArch arch) (address : UInt64) (type : Ty) :
    load cx address type = ofEval (cx.load address type) := by
  have hzero (ht : type.isTestable) : zero (.ofArch arch) type = _ := zero_eq ht
  cases type with
  | record r => rfl
  | scalar _ | enumeration _ | pointer _ =>
    simp only [load, EvalContext.load, hcx, hzero rfl, map_pure, ofTrapping_ok]
    rcases cx.frame.read? address _ with _ | v
    · simp only [ofEval_bind, ofEval_ite, ofEval_get, ofEval_pure, ofEval_throw, ne_eq,
        reduceCtorEq, not_false_eq_true]
    · rfl

theorem elementPointer_eq (hcx : cx.target = .ofArch arch) (base index : Value) :
    elementPointer cx base index = ofResult (cx.elementPointer base index) := by
  unfold elementPointer EvalContext.elementPointer
  split_ifs with h
  · rw [hcx, movePointer_eq arch (Bool.and_eq_true_iff.mp h).1, pure_bind]
    rfl
  · rfl

theorem joinBranches_eq (hcx : cx.target = .ofArch arch) (truth : Bool) (taken skipped : Value) :
    joinBranches cx truth taken skipped = ofResult (cx.joinBranches truth taken skipped) := by
  rw [ofResult_eq EvalContext.joinBranches_ne_overflow]
  unfold joinBranches EvalContext.joinBranches
  rcases hc : cx.target.conditionalType? taken.type skipped.type with _ | common
  · rfl
  · simp only []
    split_ifs with ht
    · rfl
    · rcases Target.conditionalType?_cases hc with rfl | htest
      · exact absurd rfl ht
      · rw [hcx, convert_eq htest, pure_bind]

/-- Every form of expression is evaluated as it is without a machine, if its parts are. -/
theorem eval_eq (hcx : cx.target = .ofArch arch) (e : Expr) :
    eval cx e = ofEval (cx.eval e) ∧ evalAddress cx e = ofEval (cx.evalAddress e) := by
  have hunary (op : UnaryOp) (v : Value) :
      unary (.ofArch arch) op v = ofResult ((Target.ofArch arch).unary op v) := by
    rw [unary_eq, ofResult_eq Target.unary_ne_overflow]
  have hcast (v : Value) (dest : Ty) :
      cast (.ofArch arch) v dest = ofResult ((Target.ofArch arch).cast v dest) := by
    rw [cast_eq, ofResult_eq Target.cast_ne_overflow]
  induction e with
  | integer l =>
    refine ⟨?_, rfl⟩
    rw [eval, EvalContext.eval, hcx, literal_eq]
    rfl
  | floating l => exact ⟨rfl, rfl⟩
  | boolean b => exact ⟨rfl, rfl⟩
  | var name => exact ⟨rfl, rfl⟩
  | unary op e ih =>
    refine ⟨?_, rfl⟩
    simp only [eval, EvalContext.eval, ih, ofEval_bind, hcx, hunary, ofTrapping_ofResult]
  | binary op e f ihe ihf =>
    refine ⟨?_, rfl⟩
    simp only [eval, EvalContext.eval, ihe, ihf, ofEval_bind, ofEval_ite, ofEval_throw, ne_eq,
      EvalError.ofOperands, reduceCtorEq, not_false_eq_true, ofEval_pure, hcx, binary_eq,
      accept_ofResult]
  | addressOf e ih => exact ⟨ih.2, rfl⟩
  | dereference e ih =>
    simp only [eval, evalAddress, EvalContext.eval, EvalContext.evalAddress, ih, ofEval_bind,
      ofEval_ite, ofEval_pure, ofEval_throw, ne_eq, reduceCtorEq, not_false_eq_true, load_eq hcx,
      and_self]
  | member e field ih | memberOfPointer e field ih =>
    simp only [eval, evalAddress, EvalContext.eval, EvalContext.evalAddress, ih, ofEval_bind,
      ofEval_pure, load_eq hcx, and_self]
  | index e f ihe ihf =>
    simp only [eval, evalAddress, EvalContext.eval, EvalContext.evalAddress, ihe, ihf, ofEval_bind,
      elementPointer_eq hcx, ofTrapping_ofResult, load_eq hcx, and_self]
  | conditional e f g ihe ihf ihg =>
    refine ⟨?_, rfl⟩
    simp only [eval, EvalContext.eval, ihe, ihf, ihg, ofEval_bind, ofEval_ite, ofEval_throw, ne_eq,
      reduceCtorEq, not_false_eq_true, ofEval_speculatively, joinBranches_eq hcx,
      ofTrapping_ofResult]
  | cast type e ih =>
    refine ⟨?_, rfl⟩
    simp only [eval, EvalContext.eval, ih, ofEval_bind, hcx, hcast, accept_ofResult]
  | paren e ih => exact ih

theorem evaluateIn_eq (hcx : cx.target = .ofArch arch) (session : Session) (e : Expr) :
    evaluateIn cx session e =
      do return (← ofResult (cx.evaluateIn session e).1, (cx.evaluateIn session e).2) := by
  rw [evaluateIn, (eval_eq hcx e).1, run_ofEval, EvalContext.evaluateIn]
  rcases (cx.eval e).run { session with finding := .none } with ⟨err | v, after⟩
  · cases err <;> rfl
  · rfl

/-- On every target, in any frame and from any session, an evaluation performs an operation outside
of its domain where the distance of two pointers overflows, and nowhere else, so its integers are
those of the evaluation. In a frame with narrow pointers it performs none. -/
theorem evaluateIn_untrapped (arch : Arch) (frame : Frame) (options : EvalOptions)
    (session : Session) (e : Expr) :
    let cx : EvalContext := ⟨.ofArch arch, frame, options⟩
    ((cx.evaluateIn session e).1 ≠ .error .overflow
          ∧ evaluateIn cx session e = .ok (cx.evaluateIn session e)
        ∨ (cx.evaluateIn session e).1 = .error .overflow
          ∧ evaluateIn cx session e = .error .distance)
      ∧ (frame.IsNarrow → evaluateIn cx session e = .ok (cx.evaluateIn session e)) := by
  intro cx
  have hrun := @evaluateIn_eq cx arch rfl session e
  have huntrapped (h : (cx.evaluateIn session e).1 ≠ .error .overflow) :
      evaluateIn cx session e = .ok (cx.evaluateIn session e) := by
    rw [hrun, ofResult_eq h]
    rfl
  constructor
  · by_cases h : (cx.evaluateIn session e).1 = .error .overflow
    · right
      rw [hrun, h]
      exact ⟨rfl, rfl⟩
    · exact .inl ⟨h, huntrapped h⟩
  · intro hframe
    exact huntrapped (EvalContext.evaluateIn_ne_overflow hframe session e)

/-- Two variables on a target with pointers of 64 bits. -/
def holdingBoth (p q : Value) : EvalContext where
  target := .ofArch .x86_64
  frame := ((Snapshot.empty.withVariable "p" p).withVariable "q" q).toFrame

/-- The quotient by zero is shifted by a negative amount: `(p - q) / 0 << -1`. -/
theorem evaluateIn_untrapped_division :
    let cx := holdingBoth (.pointer .int 4) (.pointer .int 0xFFFFFFFFFFFFFFF0)
    let quotient : Expr := .binary .div (.binary .minus (.var "p") (.var "q"))
      (.integer { value := 0 })
    let e : Expr := .binary .shl quotient (.unary .neg (.integer { value := 1 }))
    evaluateIn cx {} e = .ok (cx.evaluateIn {} e) ∧
      cx.evaluate e = .ok ⟨.ofInt cx.target (.scalar .long) 0, .divisionByZero⟩ := by
  intro cx quotient e
  have hframe : cx.frame.IsNarrow :=
    ((Snapshot.IsNarrow.empty.withVariable "p" (Value.narrow_pointer _ _)).withVariable "q"
      (Value.narrow_pointer _ _)).toFrame
  exact ⟨(evaluateIn_untrapped .x86_64 cx.frame {} {} e).2 hframe, by decide +kernel⟩

/-- A pointer that holds negative infinity is read as the least integer of 128 bits, and the
difference to any address above null is smaller. -/
theorem difference_overflows :
    let cx := holdingBoth (.ofBinary64 (.pointer .int) (.infinite true)) (.pointer .int 1)
    let difference : Expr := .binary .minus (.var "p") (.var "q")
    evaluateIn cx {} difference = .error .distance
      ∧ cx.evaluate difference = .error .overflow := by
  exact ⟨rfl, rfl⟩

end Trapping

end Assay
