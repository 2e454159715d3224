import Assay.Proofs.Generation.Scripted

/-!
# Operators and names for every production

A production asks for an operator or a name only where its kind was chosen. A kind that weighs
something at any depth does so at the root, and there a valid configuration has operators and names
for it. So no step ends for want of one (`run_equipped`).
-/

namespace Assay

/-- The failures for want of an operator or a name. -/
def GenError.isUnequipped : GenError → Bool
  | noOperator _ | noNames _ => true
  | noExprKind _ | noTypeKind _ | tooDeep => false

/-- The sampler gives kinds of positive weight only, an operator of every mask that has one, and no
number beyond the last of some items. -/
structure Sampler.Obliging {σ : Type} (sampler : Sampler σ) : Prop extends sampler.Weighted where
  unaryOp : ∀ (mask : Mask UnaryOp) (s : σ), mask.Legal → mask.isEmpty = false →
    (sampler.answer (.unaryOp mask) s).1.isSome
  binaryOp : ∀ (mask : Mask BinaryOp) (s : σ), mask.Legal → mask.isEmpty = false →
    (sampler.answer (.binaryOp mask) s).1.isSome
  item : ∀ (last : UInt64) (s : σ), (sampler.answer (.integer 0 last) s).1 ≤ last

theorem Script.sampler_obliging : Script.sampler.Obliging where
  toWeighted := Script.sampler_honest.weighted
  unaryOp _ s legal hne := Script.unaryOp_isSome legal hne s
  binaryOp _ s legal hne := Script.binaryOp_isSome legal hne s
  item last s := by
    have hp := Script.sampler_honest.permits (.integer 0 last) s UInt64.zero_le
    rw [Request.permits, Bool.and_eq_true] at hp
    exact of_decide_eq_true hp.2

namespace Config

variable {config : Config}

theorem enablesType_of_pos (h : config.problem? = none) {depth : Nat} {kind : TypeKind}
    (hpos : Binary64.lt 0 (config.typeWeightsAt depth kind)) : config.enablesType kind := by
  obtain ⟨-, -, -, -, htypes, -⟩ := problem?_eq_none_iff.mp h
  exact WeightTable.initial_pos_of_atDepth_pos htypes hpos

theorem tagNames_ne_nil (h : config.problem? = none) (hen : config.enablesType .tagged) :
    config.tagNames.isEmpty = false := by
  obtain ⟨-, -, -, -, -, -, -, -, -, ht⟩ := problem?_eq_none_iff.mp h
  rw [tagProblem?, hen, Bool.true_and] at ht
  rw [← Bool.not_eq_true]
  intro hempty
  rw [if_pos hempty] at ht
  cases ht

end Config

namespace Generator

variable {σ : Type} {g : Generator σ}

/-- Where a reference may not stand it weighs nothing, and no other kind weighs more or less. -/
theorem pos_of_typeWeights {allowReference : Bool} {depth : Nat} {kind : TypeKind}
    (h : Binary64.lt 0 (g.typeWeights allowReference depth kind)) :
    Binary64.lt 0 (g.config.typeWeightsAt depth kind) := by
  rw [typeWeights] at h
  split at h
  · rw [Binary64.not_zero_lt_self] at h
    cases h
  · exact h

section Obliging

variable (obliging : g.sampler.Obliging)

include obliging in
theorem pickName_equipped {names : List String} (hne : names.isEmpty = false) (what : String) :
    FailsWith (g.pickName names what) fun e => e.isUnequipped = false := by
  have hpick : Ends (g.pick? names) (fun picked => picked.isSome)
      fun e => e.isUnequipped = false := by
    refine ⟨?_, pick?_failsWith names⟩
    rw [pick?, hne]
    refine Yields.bind (P := fun i => i ≤ UInt64.ofNat (names.length - 1)) (fun s i hi => ?_)
      fun i hi => yields_pure (isSome_getElem?_toNat hne hi)
    cases hi
    exact obliging.item _ s
  refine (hpick.bind (Q := fun _ => True) fun picked hp => ?_).fails
  obtain ⟨name, rfl⟩ := Option.isSome_iff_exists.mp hp
  exact ends_pure trivial

variable (valid : g.config.problem? = none)

section Expr

variable (unaryLegal : g.config.unaryOps.Legal) (binaryLegal : g.config.binaryOps.Legal)

include obliging valid unaryLegal binaryLegal

theorem production_equipped {child : Gen σ Expr}
    (hchild : FailsWith child fun e => e.isUnequipped = false) {kind : ExprKind}
    (hen : g.config.enables kind) :
    FailsWith (g.production child kind) fun e => e.isUnequipped = false := by
  cases kind with
  | integer | double | boolean => exact (ask_failsWith _).bind fun a => failsWith_pure _
  | var | addressOf => exact failsWith_pure _
  | unary =>
    have hanswer := fun s => obliging.unaryOp _ s unaryLegal ((Config.isEmpty_ops valid).1 hen)
    exact (askFor_failsWith_of_isSome hanswer _).bind fun op =>
      hchild.bind fun operand => failsWith_pure _
  | binary =>
    have hanswer := fun s => obliging.binaryOp _ s binaryLegal ((Config.isEmpty_ops valid).2 hen)
    exact (askFor_failsWith_of_isSome hanswer _).bind fun op =>
      hchild.bind fun lhs => hchild.bind fun rhs => failsWith_pure _
  | member | memberOfPointer =>
    have hnames := Config.fieldNames_ne_nil valid (by simp) hen
    exact (pickName_equipped obliging hnames _).bind fun field => failsWith_pure _
  | index => exact hchild.bind fun index => failsWith_pure _
  | conditional =>
    exact hchild.bind fun cond => hchild.bind fun lhs => hchild.bind fun rhs => failsWith_pure _

theorem exprAt_equipped (fuel depth : Nat) :
    FailsWith (g.exprAt fuel depth) fun e => e.isUnequipped = false := by
  induction fuel generalizing depth with
  | zero => exact failsWith_throw rfl
  | succ fuel ih =>
    have hkind : Ends (g.askFor (.exprKind (g.config.exprWeightsAt depth)) (.noExprKind depth))
        (fun kind => g.config.enables kind) fun e => e.isUnequipped = false :=
      ⟨(askFor_yields_all (obliging.exprKind _) _).imp fun _ => Config.enables_of_pos valid,
        askFor_failsWith rfl⟩
    rw [exprAt_succ]
    refine (hkind.bind (Q := fun _ => True) fun kind hen => ⟨yields_true _, ?_⟩).fails
    exact (production_equipped obliging valid unaryLegal binaryLegal (ih (depth + 1)) hen).bind
      fun e => (ask_failsWith _).bind fun paren => failsWith_pure _

end Expr

include obliging valid

theorem typeProduction_equipped {child : Gen σ SourceType}
    (hchild : FailsWith child fun e => e.isUnequipped = false) {kind : TypeKind}
    (hen : g.config.enablesType kind) :
    FailsWith (g.typeProduction child kind) fun e => e.isUnequipped = false := by
  cases kind with
  | scalar =>
    exact (pick?_failsWith _).bind fun scalar => (ask_failsWith _).bind fun cv => failsWith_pure _
  | tagged =>
    exact (pickName_equipped obliging (Config.tagNames_ne_nil valid hen) _).bind fun name =>
      (ask_failsWith _).bind fun cv => failsWith_pure _
  | pointer => exact hchild.bind fun pointee => (ask_failsWith _).bind fun cv => failsWith_pure _
  | reference => exact hchild.bind fun referee => failsWith_pure _

theorem typeAt_equipped (fuel depth : Nat) (allowReference : Bool) :
    FailsWith (g.typeAt fuel depth allowReference) fun e => e.isUnequipped = false := by
  induction fuel generalizing depth allowReference with
  | zero => exact failsWith_throw rfl
  | succ fuel ih =>
    have hkind : Ends
        (g.askFor (.typeKind (g.typeWeights allowReference depth)) (.noTypeKind depth))
        (fun kind => g.config.enablesType kind) fun e => e.isUnequipped = false :=
      ⟨(askFor_yields_all (obliging.typeKind _) _).imp fun _ hpos =>
        Config.enablesType_of_pos valid (pos_of_typeWeights hpos), askFor_failsWith rfl⟩
    rw [typeAt_succ]
    refine (hkind.bind (Q := fun _ => True) fun kind hen => ⟨yields_true _, ?_⟩).fails
    exact typeProduction_equipped obliging valid (ih (depth + 1) false) hen

theorem type_equipped : FailsWith g.type fun e => e.isUnequipped = false :=
  typeAt_equipped obliging valid g.fuel 0 true

/-- No step of a run ends for want of an operator or of a name. -/
theorem run_equipped (unaryLegal : g.config.unaryOps.Legal)
    (binaryLegal : g.config.binaryOps.Legal) (steps : List Step) (s : σ) :
    ∀ result ∈ (g.run steps s).1, (∀ kind, result ≠ .error (.noOperator kind))
      ∧ ∀ what, result ≠ .error (.noNames what) := by
  have hstep (step : Step) : FailsWith (g.step step) fun e => e.isUnequipped = false := by
    cases step with
    | expr =>
      exact (exprAt_equipped obliging valid unaryLegal binaryLegal g.fuel 0).bind fun e =>
        failsWith_pure _
    | type => exact (type_equipped obliging valid).bind fun type => failsWith_pure _
    | declaration =>
      have hdeclaration : FailsWith g.declaration fun e => e.isUnequipped = false :=
        (type_equipped obliging valid).bind fun type => failsWith_pure _
      exact hdeclaration.bind fun decl => failsWith_pure _
  induction steps generalizing s with
  | nil => exact nofun
  | cons step steps ih =>
    rw [run_cons]
    refine List.forall_mem_cons.mpr ⟨⟨fun kind hr => ?_, fun what hr => ?_⟩, ih _⟩
    · cases hstep step s _ hr
    · cases hstep step s _ hr

end Obliging

/-- All kinds are enabled, some of which fade quickly; there is one operator of each sort, and one
name. -/
def sparse : Generator Script where
  config := {
    unaryOps := .ofList [.neg]
    binaryOps := .ofList [.shl]
    exprWeights := (((WeightTable.default.set .member ⟨1, 0.5⟩).set .memberOfPointer ⟨1, 0.9⟩).set
      .index ⟨1, 1⟩).set .conditional ⟨1, 0.5⟩
    typeWeights := WeightTable.default.set .tagged ⟨1, 0.5⟩
    tagNames := ["S"] }
  sampler := Script.sampler

/-- A step for each grammar whose script asks for operators and names, fitting and unfitting. -/
theorem run_equipped_sparse :
    let s : Script := ⟨[.exprKind .unary, .unaryOp .plus, .exprKind .memberOfPointer, .integer 7,
      .flag false, .flag false, .typeKind .pointer, .typeKind .tagged, .flag true], 0⟩
    (sparse.run [.expr, .declaration] s).1 =
        [.ok (.expr (.unary .neg (.memberOfPointer (.var "sp") "f"))),
          .ok (.declaration ⟨.pointer (.tagged "S" .none) .none, "x"⟩)]
      ∧ ∀ steps s, ∀ result ∈ (sparse.run steps s).1, (∀ kind, result ≠ .error (.noOperator kind))
          ∧ ∀ what, result ≠ .error (.noNames what) := by
  intro s
  exact ⟨by decide +kernel, run_equipped Script.sampler_obliging (by decide +kernel)
    (Mask.ofList_legal _) (Mask.ofList_legal _)⟩

end Generator

end Assay
