import Assay.Proofs.Evaluation.Origin
import Assay.Proofs.Evaluation.Place
import Assay.Proofs.Evaluation.PointerDifference

/-!
# Distances that overflow

Of all that an evaluation computes, only the distance of two pointers can overflow
(`binary_eq_overflow_iff`), and there it has no finding (`classify_of_overflow`). Addresses are too
close to each other for that, and so are any pointers of up to 127 bits (`Value.IsNarrow`). An
evaluation makes no other pointers, so where the frame holds no others it never overflows
(`evaluateIn_ne_overflow`).
-/

namespace Assay

/-! ## Operations -/

theorem Value.toInt_of_address? {v : Value} {address : UInt64} (h : v.address? = some address) :
    v.toInt = address.toNat := by
  obtain ⟨type, scalar⟩ := v
  cases type <;> cases scalar <;> cases h <;> rfl

theorem EvalError.ofOperands_ne_overflow (op : BinaryOp) (l r : Value) :
    ofOperands op l r ≠ .overflow := nofun

namespace Target

variable {target : Target} {op : BinaryOp} {l r : Value}

theorem unary_ne_overflow {op : UnaryOp} {v : Value} : target.unary op v ≠ .error .overflow := by
  intro h
  cases error_of_unary h

theorem shift_ne_overflow : target.shift op l r ≠ .error .overflow := by
  intro h
  cases error_of_shift h

theorem comparison_ne_overflow : target.comparison op l r ≠ .error .overflow := by
  intro h
  cases error_of_comparison h

theorem arithmetic_ne_overflow : target.arithmetic op l r ≠ .error .overflow := by
  intro h
  cases error_of_arithmetic h

theorem cast_ne_overflow {v : Value} {dest : Ty} : target.cast v dest ≠ .error .overflow := by
  intro h
  cases error_of_cast h

theorem pointerDistance_eq_overflow_iff :
    target.pointerDistance l r = .error .overflow ↔
      ¬ wideRange.contains (l.toInt - r.toInt) := by
  unfold pointerDistance
  simp only []
  split <;> simp_all

theorem pointerArithmetic_eq_overflow_iff :
    target.pointerArithmetic op l r = .error .overflow ↔
      op = .minus ∧ l.type.isPointer ∧ l.type = r.type
        ∧ ¬ wideRange.contains (l.toInt - r.toInt) := by
  rw [← @pointerDistance_eq_overflow_iff target]
  unfold pointerArithmetic
  simp only []
  split
  · split <;> simp [EvalError.ofOperands_ne_overflow]
  · split <;> simp [EvalError.ofOperands_ne_overflow]
  · rename_i hl hr
    have htypes : l.type ≠ r.type := fun h => by simp [h, hr] at hl
    split <;> simp [EvalError.ofOperands_ne_overflow, htypes]
  · rename_i hl hr
    split
    · rcases pointerDistance_cases target l r with ⟨n, hd⟩ | hd <;> rw [hd] <;>
        simp_all [bind, Except.bind]
    · simp_all [EvalError.ofOperands_ne_overflow]
  · rename_i hdistance
    refine iff_of_false nofun ?_
    rintro ⟨rfl, hl, htypes, -⟩
    exact hdistance rfl hl (htypes ▸ hl)

/-- Only a distance of two pointers overflows. -/
theorem binary_eq_overflow_iff :
    target.binary op l r = .error .overflow ↔
      op = .minus ∧ l.type.isPointer ∧ l.type = r.type
        ∧ ¬ wideRange.contains (l.toInt - r.toInt) := by
  unfold binary
  split_ifs with hp hs hc
  · exact pointerArithmetic_eq_overflow_iff
  · refine iff_of_false shift_ne_overflow ?_
    rintro ⟨rfl, -⟩
    cases hs
  · refine iff_of_false comparison_ne_overflow ?_
    rintro ⟨rfl, -⟩
    cases hc
  · refine iff_of_false arithmetic_ne_overflow ?_
    rintro ⟨rfl, hl, -⟩
    exact hp ⟨.inr rfl, .inl hl⟩

/-- What overflows is no distance of addresses, and only those have a finding: a report before the
subtraction reports nothing. -/
theorem classify_of_overflow (h : target.binary op l r = .error .overflow) :
    target.classify op l r = .none := by
  obtain ⟨rfl, hl, htypes, hfar⟩ := binary_eq_overflow_iff.mp h
  have hr : r.type.isPointer := htypes ▸ hl
  simp only [classify, hl, hr, Bool.and_self, ↓reduceIte, checkPointerDifference]
  split
  · rename_i a b pointee ha hb _
    rw [Value.toInt_of_address? ha, Value.toInt_of_address? hb] at hfar
    exact absurd (wideRange_contains_byteDistance a b) hfar
  · rfl

end Target

namespace EvalContext

variable {cx : EvalContext}

theorem resolve_ne_overflow {written : SourceType} : cx.resolve written ≠ .error .overflow := by
  intro h
  rcases error_of_resolve h with ⟨_, he⟩ | he <;> cases he

theorem memberPlace_ne_overflow {base : Value} {field : String} :
    memberPlace base field ≠ .error .overflow := by
  intro h
  obtain ⟨_, he⟩ := error_of_memberPlace h
  cases he

theorem memberOfPointerPlace_ne_overflow {base : Value} {field : String} :
    memberOfPointerPlace base field ≠ .error .overflow := by
  intro h
  obtain ⟨_, he⟩ := error_of_memberOfPointerPlace h
  cases he

theorem elementPointer_ne_overflow {base index : Value} :
    cx.elementPointer base index ≠ .error .overflow := by
  intro h
  cases error_of_elementPointer h

theorem variablePointer_ne_overflow {name : String} :
    cx.variablePointer name ≠ .error .overflow := by
  intro h
  rcases error_of_variablePointer h with he | he <;> cases he

theorem joinBranches_ne_overflow {truth : Bool} {taken skipped : Value} :
    cx.joinBranches truth taken skipped ≠ .error .overflow := by
  intro h
  obtain ⟨_, _, he⟩ := error_of_joinBranches h
  cases he

end EvalContext

/-! ## Narrow pointers -/

/-- A pointer is of at most 127 bits, as every address is. -/
def Value.IsNarrow (v : Value) : Prop := v.type.isPointer → (IntRange.signed 127).contains v.toInt

namespace Value

variable {target : Target} {l r : Value}

theorem narrow_of_not_isPointer {v : Value} (h : v.type.isPointer = false) : v.IsNarrow := by
  intro hp
  rw [h] at hp
  cases hp

theorem narrow_pointer (pointee : Ty) (address : UInt64) : (pointer pointee address).IsNarrow := by
  intro _
  have hvalue : (pointer pointee address).toInt = address.toNat := rfl
  have hrange : (IntRange.signed 127).min = -2 ^ 126 ∧ (IntRange.signed 127).max = 2 ^ 126 - 1 :=
    ⟨rfl, rfl⟩
  have hlt := address.toNat_lt
  rw [hvalue, IntRange.contains_iff, hrange.1, hrange.2]
  omega

theorem narrow_ofInt (target : Target) (type : Ty) (raw : Int) :
    (ofInt target type raw).IsNarrow := by
  cases type with
  | pointer pointee =>
    obtain ⟨address, haddress⟩ := exists_ofInt_pointer target pointee raw
    rw [haddress]
    exact narrow_pointer pointee address
  | scalar _ | enumeration _ | record _ => exact narrow_of_not_isPointer (by rw [ofInt_type]; rfl)

theorem Made.narrow {v : Value} (h : v.Made target) : v.IsNarrow := by
  cases h with
  | integer ht raw => exact narrow_ofInt target _ raw
  | @floating type hf x =>
    refine narrow_of_not_isPointer ?_
    cases type <;> first | rfl | cases hf
  | boolean b => exact narrow_of_not_isPointer rfl

theorem IsNarrow.wideRange_contains_sub (hl : l.IsNarrow) (hr : r.IsNarrow)
    (hlp : l.type.isPointer) (hrp : r.type.isPointer) :
    wideRange.contains (l.toInt - r.toInt) := by
  have hlrange : -2 ^ 126 ≤ l.toInt ∧ l.toInt ≤ 2 ^ 126 - 1 := IntRange.contains_iff.mp (hl hlp)
  have hrrange : -2 ^ 126 ≤ r.toInt ∧ r.toInt ≤ 2 ^ 126 - 1 := IntRange.contains_iff.mp (hr hrp)
  rw [wideRange_contains_iff]
  omega

end Value

theorem Target.binary_ne_overflow {target : Target} {op : BinaryOp} {l r : Value}
    (hl : l.IsNarrow) (hr : r.IsNarrow) : target.binary op l r ≠ .error .overflow := by
  intro h
  obtain ⟨-, hlp, htypes, hfar⟩ := binary_eq_overflow_iff.mp h
  exact hfar (hl.wideRange_contains_sub hr hlp (htypes ▸ hlp))

/-- The pointers that the frame holds are narrow. -/
structure Frame.IsNarrow (frame : Frame) : Prop where
  named : ∀ name v, frame.valueOf? name = some v → v.IsNarrow
  memory : ∀ address type v, frame.read? address type = some v → v.IsNarrow

/-- The pointers among the entries are narrow. -/
structure Snapshot.IsNarrow (frame : Snapshot) : Prop where
  vars : ∀ entry ∈ frame.vars, entry.2.IsNarrow
  memory : ∀ cell ∈ frame.memory, cell.2.IsNarrow

namespace Snapshot.IsNarrow

variable {frame : Snapshot} {value : Value}

theorem empty : Snapshot.empty.IsNarrow where
  vars _ h := absurd h List.not_mem_nil
  memory _ h := absurd h List.not_mem_nil

theorem withVariable (h : frame.IsNarrow) (name : String) (hv : value.IsNarrow) :
    (frame.withVariable name value).IsNarrow :=
  ⟨List.forall_mem_cons.mpr ⟨hv, h.vars⟩, h.memory⟩

theorem withType (h : frame.IsNarrow) (name : String) (type : Ty) :
    (frame.withType name type).IsNarrow :=
  ⟨h.vars, h.memory⟩

theorem withMemory (h : frame.IsNarrow) (address : UInt64) (hv : value.IsNarrow) :
    (frame.withMemory address value).IsNarrow :=
  ⟨h.vars, List.forall_mem_cons.mpr ⟨hv, h.memory⟩⟩

theorem withVariableAt (h : frame.IsNarrow) (name : String) (address : UInt64)
    (hv : value.IsNarrow) : (frame.withVariableAt name value address).IsNarrow :=
  ⟨List.forall_mem_cons.mpr ⟨hv, h.vars⟩, List.forall_mem_cons.mpr ⟨hv, h.memory⟩⟩

theorem toFrame (h : frame.IsNarrow) : frame.toFrame.IsNarrow where
  named _ _ hv := h.vars _ (mem_of_lookup hv)
  memory _ _ _ hv := h.memory _ (mem_of_lookup hv)

end Snapshot.IsNarrow

/-! ## Evaluation -/

namespace EvalContext

open Eval

variable {cx : EvalContext}

theorem eval_yields_narrow (h : cx.frame.IsNarrow) (e : Expr) :
    Yields (cx.eval e) Value.IsNarrow := by
  refine (eval_yields_origin e).1.imp fun v horigin => ?_
  cases horigin with
  | named hv => exact h.named _ _ hv
  | memory hv => exact h.memory _ _ _ hv
  | pointer pointee address => exact Value.narrow_pointer pointee address
  | record r address => exact Value.narrow_of_not_isPointer rfl
  | made hmade => exact hmade.narrow

/-- Nothing that the evaluation computes overflows. -/
abbrev Contained {α : Type} (x : Eval α) : Prop := FailsWith x (· ≠ .overflow)

theorem contained_ofExcept {α : Type} {result : Except EvalError α}
    (h : result ≠ .error .overflow) : Contained (Eval.ofExcept result) :=
  failsWith_ofExcept fun _ he hoverflow => h (hoverflow ▸ he)

theorem accept_contained {outcome : Except EvalError Judged} (h : outcome ≠ .error .overflow) :
    Contained (cx.accept outcome) := by
  refine (contained_ofExcept h).bind fun judged => FailsWith.bind ?_ fun _ => failsWith_pure _
  intro s err he
  rw [run_report] at he
  split at he
  · split at he <;> cases he
    nofun
  · cases he

theorem load_contained (address : UInt64) (type : Ty) : Contained (cx.load address type) := by
  unfold load
  split
  · exact failsWith_pure _
  · split
    · exact failsWith_pure _
    · refine FailsWith.bind (fun s err he => by cases he) fun session => ?_
      split
      · exact failsWith_pure _
      · exact failsWith_throw nofun

/-- Operands are narrow, so their distances do not overflow. -/
theorem eval_contained (h : cx.frame.IsNarrow) (e : Expr) :
    Contained (cx.eval e) ∧ Contained (cx.evalAddress e) := by
  have hunsupported (construct : Construct) :
      Contained (throw (.unsupported construct) : Eval Value) := failsWith_throw (by simp)
  induction e with
  | integer _ | floating _ | boolean _ => exact ⟨failsWith_pure _, hunsupported _⟩
  | var name =>
    exact ⟨failsWith_orError _ (by simp), contained_ofExcept variablePointer_ne_overflow⟩
  | unary op e ih =>
    exact ⟨ih.1.bind fun v => contained_ofExcept Target.unary_ne_overflow, hunsupported _⟩
  | binary op e f ihe ihf =>
    refine ⟨?_, hunsupported _⟩
    simp only [eval]
    split
    · refine ihe.1.bind fun l => FailsWith.guard (EvalError.ofOperands_ne_overflow _ _ _) ?_
      split
      · exact failsWith_pure _
      · exact ihf.1.bind fun r =>
          FailsWith.guard (EvalError.ofOperands_ne_overflow _ _ _) (failsWith_pure _)
    · exact ihe.1.bind_yields (eval_yields_narrow h e) fun l hl =>
        ihf.1.bind_yields (eval_yields_narrow h f) fun r hr =>
        accept_contained (Target.binary_ne_overflow hl hr)
  | addressOf e ih => exact ⟨ih.2, hunsupported _⟩
  | dereference e ih =>
    constructor
    · exact ih.1.bind fun pointer => (failsWith_orError _ (by simp)).bind fun place =>
        load_contained _ _
    · refine ih.1.bind fun pointer => ?_
      split
      · exact failsWith_pure _
      · exact failsWith_throw (by simp)
  | member e field ih =>
    exact ⟨ih.1.bind fun base => (contained_ofExcept memberPlace_ne_overflow).bind fun place =>
        load_contained _ _,
      ih.1.bind fun base => (contained_ofExcept memberPlace_ne_overflow).bind fun place =>
        failsWith_pure _⟩
  | memberOfPointer e field ih =>
    have hplace (base : Value) := contained_ofExcept (@memberOfPointerPlace_ne_overflow base field)
    exact ⟨ih.1.bind fun base => (hplace base).bind fun place => load_contained _ _,
      ih.1.bind fun base => (hplace base).bind fun place => failsWith_pure _⟩
  | index e f ihe ihf =>
    have helement (base index : Value) : Contained (Eval.ofExcept (cx.elementPointer base index)) :=
      contained_ofExcept elementPointer_ne_overflow
    exact ⟨ihe.1.bind fun base => ihf.1.bind fun index => (helement base index).bind fun element =>
        (failsWith_orError _ (by simp)).bind fun place => load_contained _ _,
      ihe.1.bind fun base => ihf.1.bind fun index => helement base index⟩
  | conditional e f g ihe ihf ihg =>
    refine ⟨ihe.1.bind fun cond => FailsWith.guard (by simp) ?_, hunsupported _⟩
    split
    · exact ihf.1.bind fun taken => (failsWith_speculatively ihg.1).bind fun skipped =>
        contained_ofExcept joinBranches_ne_overflow
    · exact ihg.1.bind fun taken => (failsWith_speculatively ihf.1).bind fun skipped =>
        contained_ofExcept joinBranches_ne_overflow
  | cast type e ih =>
    exact ⟨(contained_ofExcept resolve_ne_overflow).bind fun dest => ih.1.bind fun v =>
      accept_contained Target.cast_ne_overflow, hunsupported _⟩
  | paren e ih => exact ih

/-- In a frame with narrow pointers no evaluation overflows. -/
theorem evaluateIn_ne_overflow (h : cx.frame.IsNarrow) (session : Session) (e : Expr) :
    (cx.evaluateIn session e).1 ≠ .error .overflow := by
  intro hoverflow
  refine (eval_contained h e).1 { session with finding := .none } .overflow ?_ rfl
  unfold evaluateIn at hoverflow
  rcases hr : (cx.eval e).run { session with finding := .none } with ⟨_ | v, after⟩ <;>
    rw [hr] at hoverflow <;> cases hoverflow
  rfl

end EvalContext

end Assay
