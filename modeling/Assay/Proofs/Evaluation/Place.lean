import Assay.Proofs.Evaluation.Yields
import Assay.Ty.Layout

/-!
# Places

An expression that designates a place in memory has a pointer to that place, and its value is what
the pointer points to (`eval_eq_fetch`). So taking its address and following the pointer is
evaluating the expression itself, errors and findings included (`dereference_addressOf`).
-/

namespace Assay

/-- The expression designates an element, a member or what a pointer points to. -/
def Expr.isPlace : Expr → Bool
  | .dereference _ | .member .. | .memberOfPointer .. | .index .. => true
  | _ => false

theorem Value.exists_ofInt_pointer (target : Target) (pointee : Ty) (raw : Int) :
    ∃ address, ofInt target (.pointer pointee) raw = .pointer pointee address := by
  simp [ofInt, Ty.isBool, Target.isSigned, pointer]

theorem Target.exists_movePointer (target : Target) {pointer : Value} (h : pointer.type.isPointer)
    (elements : Int) :
    ∃ pointee address, target.movePointer pointer elements = .pointer pointee address := by
  obtain ⟨type, scalar⟩ := pointer
  cases type <;> cases h
  exact ⟨_, Value.exists_ofInt_pointer target _ _⟩

namespace EvalContext

variable {cx : EvalContext}

/-- The object that a pointer points to. -/
def fetch (cx : EvalContext) (pointer : Value) : Eval Value := do
  let place ← Eval.orError (pointedPlace? pointer) (.invalidIndirection pointer.type)
  cx.load place.address place.type

theorem fetch_of_not_isPointer {v : Value} (h : v.type.isPointer = false) :
    cx.fetch v = throw (.invalidIndirection v.type) := by
  obtain ⟨type, scalar⟩ := v
  cases type <;> first | rfl | cases h

theorem exists_of_elementPointer {base index element : Value}
    (h : cx.elementPointer base index = .ok element) :
    ∃ pointee address, element = .pointer pointee address := by
  unfold elementPointer at h
  split at h <;> cases h
  rename_i hoperands
  exact cx.target.exists_movePointer (Bool.and_eq_true_iff.mp hoperands).1 _

theorem eval_dereference (e : Expr) : cx.eval (.dereference e) = cx.eval e >>= cx.fetch := by
  simp only [eval]
  rfl

theorem eval_addressOf (e : Expr) : cx.eval (.addressOf e) = cx.evalAddress e := by
  simp only [eval]

/-- An element's pointer is a pointer, so that indexing never fails for want of one. -/
theorem eval_index (e f : Expr) :
    cx.eval (.index e f) = cx.evalAddress (.index e f) >>= cx.fetch := by
  simp only [eval, evalAddress, bind_assoc]
  refine bind_congr fun base => bind_congr fun index => ?_
  cases helement : cx.elementPointer base index with
  | error err => rfl
  | ok element =>
    obtain ⟨pointee, address, rfl⟩ := exists_of_elementPointer helement
    rfl

theorem eval_dereference_eq_fetch (e : Expr) :
    cx.eval (.dereference e) = cx.evalAddress (.dereference e) >>= cx.fetch := by
  rw [eval_dereference]
  simp only [evalAddress, bind_assoc]
  refine bind_congr fun pointer => ?_
  cases hpointer : pointer.type.isPointer with
  | true => rfl
  | false => rw [fetch_of_not_isPointer hpointer]; rfl

/-- The value of a place is what the pointer to it points to. -/
theorem eval_eq_fetch {e : Expr} (h : e.bare.isPlace) :
    cx.eval e = cx.evalAddress e >>= cx.fetch := by
  induction e with
  | dereference e => exact eval_dereference_eq_fetch e
  | member e field => simp only [eval, evalAddress, bind_assoc]; rfl
  | memberOfPointer e field => simp only [eval, evalAddress, bind_assoc]; rfl
  | index e f => exact eval_index e f
  | paren e ih => simpa only [eval, evalAddress] using ih h
  | _ => cases h

theorem eval_dereference_addressOf {e : Expr} (h : e.bare.isPlace) :
    cx.eval (.dereference (.addressOf e)) = cx.eval e := by
  rw [eval_dereference, eval_addressOf, eval_eq_fetch h]

/-- To take the address of a place and to follow it is to evaluate the place. -/
theorem dereference_addressOf {e : Expr} (h : e.bare.isPlace) :
    cx.eval (.dereference (.addressOf e)) = cx.eval e
      ∧ ∀ session, cx.evaluateIn session (.dereference (.addressOf e)) =
          cx.evaluateIn session e := by
  have heval := @eval_dereference_addressOf cx e h
  refine ⟨heval, fun session => ?_⟩
  simp only [evaluateIn, heval]

/-- A member of an element, in parentheses -/
theorem dereference_addressOf_member :
    let seven : Value := .ofInt (.ofArch .x86_64) .int 7
    let s : RecordType := (RecordType.empty "S").withField (.ofArch .x86_64) "f" .int
    let frame := (Snapshot.empty.withVariable "p" (.pointer (.record s) 64)).withMemory 68 seven
    let cx : EvalContext := ⟨.ofArch .x86_64, frame.toFrame, {}⟩
    let place : Expr := .paren (.member (.index (.var "p") (.integer { value := 1 })) "f")
    (cx.evaluate (.dereference (.addressOf place))).toOption = some ⟨seven, .none⟩ := by
  intro seven s frame cx place
  have hplace : place.bare.isPlace := rfl
  have hsame := (@dereference_addressOf cx place hplace).2 {}
  rw [evaluate, hsame]
  decide +kernel

end EvalContext

end Assay
