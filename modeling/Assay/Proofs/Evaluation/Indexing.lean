import Assay.Proofs.Evaluation.Origin
import Assay.Proofs.Evaluation.Place
import Assay.Proofs.Evaluation.PointerOffset

/-!
# Indexing and addition

`p[i]` and `*(p + i)` are evaluated apart, and only the sum is judged. In a frame whose values hold
what their types ask for (`Frame.Held`), a pointer has an address and an index is an integer
(`eval_yields_definite`). So the two have one value or one error, as `&p[i]` and `p + i` have, and
the sum only adds the finding that null is moved (`index_dereferences_sum`).
-/

namespace Assay

/-- Whether a content is of the kind that values of a type hold: an integer of the type's
signedness, an address for a pointer or a record, a double for a floating type. -/
def Scalar.suits (target : Target) (type : Ty) : Scalar → Bool
  | .signed _ => type.isIntegral && target.isSigned type
  | .unsigned _ => type.isPointer || !type.isTestable || (type.isIntegral && !target.isSigned type)
  | .floating _ => type.isFloating

/-- The value holds content of the kind that its type asks for, though it may be out of range. -/
def Value.Held (target : Target) (v : Value) : Prop := v.scalar.suits target v.type

instance (target : Target) (v : Value) : Decidable (v.Held target) :=
  inferInstanceAs (Decidable (_ = true))

/-- The values that the frame gives hold what their types ask for. -/
structure Frame.Held (frame : Frame) (target : Target) : Prop where
  valueOf? : ∀ {name v}, frame.valueOf? name = some v → v.Held target
  read? : ∀ {address type v}, frame.read? address type = some v → v.Held target

theorem Snapshot.held_of_entries {frame : Snapshot} {target : Target}
    (hv : ∀ entry ∈ frame.vars, entry.2.Held target)
    (hm : ∀ entry ∈ frame.memory, entry.2.Held target) : frame.toFrame.Held target where
  valueOf? := fun h => hv _ (mem_of_lookup h)
  read? := fun h => hm _ (mem_of_lookup h)

theorem Ty.isIntegral_of_isIntegerOperand {type : Ty} (h : type.isIntegerOperand) :
    type.isIntegral :=
  (Bool.and_eq_true_iff.mp h).1

/-- What moving a pointer reads of its operands is there: the address of a pointer and the integer
of an integer operand. -/
structure Value.Definite (v : Value) : Prop where
  address : v.type.isPointer → ∃ address, v.address? = some address
  integer : v.type.isIntegerOperand → ∃ n, v.toInt? = some n

namespace Value

variable {target : Target} {v : Value}

/-- A floating value is no operand of what moves a pointer. -/
theorem definite_of_isFloating (hf : v.type.isFloating) : v.Definite := by
  obtain ⟨type, scalar⟩ := v
  cases type with
  | scalar s =>
    refine ⟨fun hp => (by cases hp), fun hi => ?_⟩
    have hintegral := Ty.isIntegral_of_isIntegerOperand hi
    simp_all [Ty.isFloating, Ty.isIntegral, ScalarType.isIntegral]
  | enumeration _ | pointer _ | record _ => cases hf

theorem Held.definite (h : v.Held target) : v.Definite := by
  obtain ⟨type, scalar⟩ := v
  cases scalar with
  | signed n =>
    refine ⟨fun hp => ?_, fun _ => ⟨_, rfl⟩⟩
    cases type <;> cases hp
    simp [Held, Scalar.suits, Ty.isIntegral] at h
  | unsigned n =>
    refine ⟨fun hp => ?_, fun _ => ⟨_, rfl⟩⟩
    cases type <;> cases hp
    exact ⟨_, rfl⟩
  | floating x => exact definite_of_isFloating h

theorem exists_toInt?_ofInt (type : Ty) (raw : Int) :
    ∃ n, (ofInt target type raw).toInt? = some n := by
  unfold ofInt
  split
  · exact ⟨_, rfl⟩
  · simp only []
    split <;> exact ⟨_, rfl⟩

theorem Made.definite (h : v.Made target) : v.Definite := by
  cases h with
  | @integer type _ raw =>
    refine ⟨fun hp => ?_, fun _ => exists_toInt?_ofInt type raw⟩
    rw [ofInt_type] at hp
    cases type <;> cases hp
    obtain ⟨address, haddress⟩ := exists_ofInt_pointer target _ raw
    rw [haddress]
    exact ⟨address, rfl⟩
  | floating hf x => exact definite_of_isFloating hf
  | boolean b => exact ⟨fun hp => (by cases hp), fun _ => ⟨_, rfl⟩⟩

end Value

namespace Target

variable {target : Target} {l r : Value}

theorem binary_pointer_plus_error (hl : l.type.isPointer)
    (hr : r.type.isIntegerOperand = false) :
    target.binary .plus l r = .error (.ofOperands .plus l r) := by
  cases hpointer : r.type.isPointer <;> simp [binary, pointerArithmetic, hl, hpointer, hr]

theorem classify_plus (hl : l.type.isPointer) (hr : r.type.isIntegerOperand) {address : UInt64}
    {n : Int} (ha : l.address? = some address) (hn : r.toInt? = some n) :
    target.classify .plus l r = if address = 0 ∧ n ≠ 0 then .nullArithmetic else .none := by
  have hintegral := Ty.isIntegral_of_isIntegerOperand hr
  simp only [classify, hl, hintegral, Bool.and_self, ↓reduceIte, checkPointerAdd, ha, hn]

end Target

namespace EvalContext

open Eval

variable {cx : EvalContext}

theorem eval_yields_definite (held : cx.frame.Held cx.target) (e : Expr) :
    Yields (cx.eval e) Value.Definite := by
  refine (cx.eval_yields_origin e).1.imp fun v hv => ?_
  cases hv with
  | named h => exact (held.valueOf? h).definite
  | memory h => exact (held.read? h).definite
  | pointer _ _ => exact ⟨fun _ => ⟨_, rfl⟩, fun _ => ⟨_, rfl⟩⟩
  | record _ _ => exact ⟨fun hp => (by cases hp), fun _ => ⟨_, rfl⟩⟩
  | made h => exact h.definite

theorem definite_of_evaluate (held : cx.frame.Held cx.target) {e : Expr} {r : Evaluation}
    (h : cx.evaluate e = .ok r) : r.value.Definite :=
  value_of_evaluateIn (eval_yields_definite held e) h

/-! ## One place found in two ways -/

theorem run_load (address : UInt64) (type : Ty) :
    ∃ outcome, ∀ finding,
      (cx.load address type).run ⟨finding, false⟩ = (outcome, ⟨finding, false⟩) := by
  obtain ⟨outcome, found, hrun⟩ := cx.load_resumes address type false
  have hsilent := silent_load cx address type ⟨.none, false⟩
  rw [hrun] at hsilent
  obtain rfl : found = .none := hsilent
  refine ⟨outcome, fun finding => ?_⟩
  rw [hrun, Finding.orElse_none]

theorem run_fetch (pointer : Value) :
    ∃ outcome, ∀ finding,
      (cx.fetch pointer).run ⟨finding, false⟩ = (outcome, ⟨finding, false⟩) := by
  unfold fetch
  cases pointedPlace? pointer with
  | none => exact ⟨_, fun _ => rfl⟩
  | some place => exact run_load place.address place.type

theorem evaluate_dereference_error {e : Expr} {err : EvalError} (he : cx.evaluate e = .error err) :
    cx.evaluate (.dereference e) = .error err := by
  obtain ⟨s, hs⟩ := run_of_evaluate_error he .none
  refine evaluate_of_error ?_
  rw [eval_dereference, run_bind, hs]

/-- What a pointer points to does not depend on how the pointer was found, and adds no finding. -/
theorem evaluate_dereference (pointer : Value) :
    ∃ outcome : Except EvalError Value, ∀ {e : Expr} {finding : Finding},
      cx.evaluate e = .ok ⟨pointer, finding⟩ →
        cx.evaluate (.dereference e) = outcome.map (⟨·, finding⟩) := by
  obtain ⟨outcome, hrun⟩ := cx.run_fetch pointer
  refine ⟨outcome, fun {e finding} he => ?_⟩
  have hdereference : (cx.eval (.dereference e)).run {} = (outcome, ⟨finding, false⟩) := by
    rw [eval_dereference, run_bind, run_of_evaluate he, Finding.none_orElse]
    exact hrun finding
  simp only [evaluate, evaluateIn, hdereference]

/-- What becomes of an element of `p` that is indexed by `i`, and of the one that is found by
addition: they fail alike, or they have one value. The first then has the findings of `p` and `i`
only, and the second also that null is moved. -/
inductive SamePlace (p : Evaluation) (i : Except EvalError Evaluation) :
    Except EvalError Evaluation → Except EvalError Evaluation → Prop
  | fails (err : EvalError) : SamePlace p i (.error err) (.error err)
  | found {index : Evaluation} {address : UInt64} {n : Int} (hi : i = .ok index)
    (ha : p.value.address? = some address) (hn : index.value.toInt? = some n) (v : Value) :
    SamePlace p i (.ok ⟨v, p.finding.orElse index.finding⟩)
      (.ok ⟨v, (p.finding.orElse index.finding).orElse
        (if address = 0 ∧ n ≠ 0 then .nullArithmetic else .none)⟩)

theorem SamePlace.dereference {p : Evaluation} {i : Except EvalError Evaluation} {x y : Expr}
    (h : SamePlace p i (cx.evaluate x) (cx.evaluate y)) :
    SamePlace p i (cx.evaluate (.dereference x)) (cx.evaluate (.dereference y)) := by
  generalize hx : cx.evaluate x = indexed at h
  generalize hy : cx.evaluate y = added at h
  cases h with
  | fails err =>
    rw [evaluate_dereference_error hx, evaluate_dereference_error hy]
    exact .fails err
  | found hi ha hn pointer =>
    obtain ⟨outcome, hfetch⟩ := cx.evaluate_dereference pointer
    rw [hfetch hx, hfetch hy]
    cases outcome with
    | error err => exact .fails err
    | ok v => exact .found hi ha hn v

section Index

variable {e f : Expr} {p : Evaluation} (carriesOn : cx.options.stopAtFinding = false)
  (held : cx.frame.Held cx.target) (he : cx.evaluate e = .ok p) (hp : p.value.type.isPointer)
include carriesOn held he hp

theorem samePlace_index :
    SamePlace p (cx.evaluate f) (cx.evaluate (.addressOf (.index e f)))
      (cx.evaluate (.binary .plus e f)) := by
  have hindex : cx.eval (.addressOf (.index e f)) = cx.eval e >>= fun base =>
      cx.eval f >>= fun index => Eval.ofExcept (cx.elementPointer base index) := by
    simp only [eval, evalAddress]
  have hsum := @eval_binary cx .plus rfl e f
  rcases hf : cx.evaluate f with err | i
  · rw [evaluate_right_error hindex he hf, evaluate_right_error hsum he hf]
    exact .fails err
  have hindexed := run_operands hindex he hf
  have hadded := run_operands hsum he hf
  cases hi : i.value.type.isIntegerOperand with
  | false =>
    rw [elementPointer, hp, hi] at hindexed
    rw [Target.binary_pointer_plus_error hp hi] at hadded
    rw [evaluate_of_error (congrArg Prod.fst hindexed),
      evaluate_of_error (congrArg Prod.fst hadded)]
    exact .fails _
  | true =>
    obtain ⟨address, ha⟩ := (definite_of_evaluate held he).address hp
    obtain ⟨n, hn⟩ := (definite_of_evaluate held hf).integer hi
    rw [elementPointer, hp, hi] at hindexed
    rw [Target.binary_pointer_plus hp hi, run_accept carriesOn, Target.classify_plus hp hi ha hn]
      at hadded
    rw [evaluate_of_run hindexed, evaluate_of_run hadded]
    exact .found rfl ha hn _

/-- `p[i]` and `*(p + i)` have one value or one error, and so have `&p[i]` and `p + i`. The sum is
judged beyond its operands, and then a null pointer that is moved counts; indexing is not. -/
theorem index_dereferences_sum :
    SamePlace p (cx.evaluate f) (cx.evaluate (.index e f))
        (cx.evaluate (.dereference (.binary .plus e f)))
      ∧ SamePlace p (cx.evaluate f) (cx.evaluate (.addressOf (.index e f)))
          (cx.evaluate (.binary .plus e f)) := by
  have hpointers := samePlace_index (f := f) carriesOn held he hp
  have hplace : cx.evaluate (.index e f) =
      cx.evaluate (.dereference (.addressOf (.index e f))) := by
    have hindex : (Expr.index e f).bare.isPlace := rfl
    simp only [evaluate, evaluateIn, eval_dereference_addressOf hindex]
  rw [hplace]
  exact ⟨hpointers.dereference, hpointers⟩

end Index

/-- An element of null -/
theorem index_dereferences_sum_null :
    let seven : Value := .ofInt (.ofArch .i686) .int 7
    let frame := (Snapshot.empty.withVariable "p" (.pointer .int 0)).withMemory 4 seven
    let cx : EvalContext := ⟨.ofArch .i686, frame.toFrame, {}⟩
    let one : Expr := .integer { value := 1 }
    let sum : Expr := .binary .plus (.var "p") one
    SamePlace ⟨.pointer .int 0, .none⟩ (cx.evaluate one) (cx.evaluate (.index (.var "p") one))
        (cx.evaluate (.dereference sum))
      ∧ (cx.evaluate (.index (.var "p") one)).toOption = some ⟨seven, .none⟩
      ∧ (cx.evaluate (.dereference sum)).toOption = some ⟨seven, .nullArithmetic⟩ := by
  intro seven frame cx one sum
  have held : cx.frame.Held cx.target := Snapshot.held_of_entries (by decide) (by decide)
  have hp : cx.evaluate (.var "p") = .ok ⟨.pointer .int 0, .none⟩ := rfl
  exact ⟨(index_dereferences_sum rfl held hp rfl).1, by decide +kernel, by decide +kernel⟩

end EvalContext

end Assay
