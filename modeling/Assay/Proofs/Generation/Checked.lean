import Assay.Proofs.Evaluation.EarlyExit
import Assay.Proofs.Evaluation.Failures
import Assay.Proofs.Evaluation.Overflow
import Assay.Proofs.Evaluation.Typing
import Assay.Proofs.Generation.Grammar
import Assay.Proofs.Synthetic

/-!
# Generated expressions fit the synthetic frame

Where the configured names stand for an `int`, a pointer to `int`, a record with the configured
fields and a pointer to such a record (`EvalContext.Hosts`), an expression of the configuration has
a scalar or a pointer to `int` for its value, or fails for its operands or for want of memory
(`Hosts.eval_fits`). The synthetic frame is such a place, so the check of a generated expression
never meets a name, a field or a construct that it does not know (`check_fits_of_expr`).
-/

namespace Assay

/-- The types of generated expressions: scalars, and pointers to `int`. -/
def Ty.isBasic : Ty → Bool
  | scalar _ => true
  | type => type = .pointer .int

/-- The reason lies in the types of operands or in memory, not in a name or a construct. -/
def EvalError.isOperational : EvalError → Bool
  | invalidBinary .. | invalidUnary .. | memoryRead _ | incompatible .. => true
  | _ => false

/-- What checking a generated expression may give. -/
def Outcome.fits : Outcome → Bool
  | value v => v.type.isBasic
  | undefined _ => true
  | error e => e.isOperational

/-! ## Basic types -/

namespace Ty

theorem isBasic_cases {type : Ty} (h : type.isBasic) :
    (∃ s, type = .scalar s) ∨ type = .pointer .int := by
  cases type with
  | scalar s => exact .inl ⟨s, rfl⟩
  | enumeration _ | pointer _ | record _ => exact .inr (of_decide_eq_true h)

theorem isTestable_of_isBasic {type : Ty} (h : type.isBasic) : type.isTestable := by
  rcases isBasic_cases h with ⟨s, rfl⟩ | rfl <;> rfl

end Ty

namespace Target

variable {target : Target}

theorem promote_isBasic {type : Ty} (h : type.isBasic) : (target.promote type).isBasic := by
  rcases Ty.isBasic_cases h with ⟨s, rfl⟩ | rfl
  · simp only [promote]
    split <;> rfl
  · rfl

theorem unaryType_isBasic (op : UnaryOp) {type : Ty} (h : type.isBasic) :
    (target.unaryType op type).isBasic := by
  have hpromote := target.promote_isBasic h
  unfold unaryType
  split
  · rfl
  · split
    · exact h
    · exact hpromote
  · exact hpromote
  · exact hpromote

theorem binaryType?_isBasic {op : BinaryOp} {l r type : Ty} (hl : l.isBasic) (hr : r.isBasic)
    (h : target.binaryType? op l r = some type) : type.isBasic := by
  unfold binaryType? at h
  split_ifs at h
  · obtain rfl := Option.some.inj h
    unfold pointerType
    split_ifs
    · rfl
    · exact hl
    · exact hr
  · obtain rfl := Option.some.inj h
    exact promote_isBasic hl
  · obtain rfl := Option.some.inj h
    rfl
  · obtain ⟨s, rfl⟩ := commonType?_eq_scalar target h
    rfl

theorem conditionalType?_isBasic {l r type : Ty} (hl : l.isBasic) (hr : r.isBasic)
    (h : target.conditionalType? l r = some type) : type.isBasic := by
  unfold conditionalType? at h
  split at h
  · obtain rfl := Option.some.inj h
    exact hl
  · split at h
    · rename_i common hc
      obtain rfl := Option.some.inj h
      obtain ⟨s, rfl⟩ := commonType?_eq_scalar target hc
      rfl
    · split_ifs at h
      · obtain rfl := Option.some.inj h
        exact hl
      · obtain rfl := Option.some.inj h
        exact hr

end Target

/-! ## Evaluation -/

/-- The record has an `int` of each name that the configuration gives its fields. -/
def Config.FieldsIn (config : Config) (record : RecordType) : Prop :=
  ∀ name ∈ config.fieldNames, ∃ field, record.field? name = some field ∧ field.type = .int

/-- The context has what the expressions of a configuration refer to, and carries on after a
finding. -/
structure EvalContext.Hosts (cx : EvalContext) (config : Config) : Prop where
  carriesOn : cx.options.stopAtFinding = false
  narrow : cx.frame.IsNarrow
  type_of_read? : ∀ {address type value}, cx.frame.read? address type = some value →
    value.type = type
  var : ∃ v address, cx.frame.valueOf? config.varName = some v ∧ v.type = .int
    ∧ cx.frame.addressOf? config.varName = some address
  array : ∃ address, cx.frame.valueOf? config.arrayName = some (.pointer .int address)
  record : ∃ r address, cx.frame.valueOf? config.structName = some (.record r address)
    ∧ config.FieldsIn r
  recordPointer : ∃ r address, cx.frame.valueOf? config.structPointerName =
    some (.pointer (.record r) address) ∧ config.FieldsIn r

namespace EvalContext

open Eval

variable {cx : EvalContext} {config : Config}

/-- An evaluation of a basic value that may fail for its operands or for want of memory. -/
abbrev Fits (x : Eval Value) : Prop := Ends x (·.type.isBasic) (·.isOperational)

theorem Hosts.report_ends (hosts : cx.Hosts config) (finding : Finding) :
    Ends (cx.report finding) (fun _ => True) (fun e : EvalError => e.isOperational) := by
  refine ⟨yields_true _, fun s e h => ?_⟩
  rw [run_report, hosts.carriesOn, if_neg Bool.false_ne_true] at h
  split at h <;> cases h

theorem Hosts.accept_fits (hosts : cx.Hosts config) {outcome : Except EvalError Judged}
    (hok : ∀ judged, outcome = .ok judged → judged.value.type.isBasic)
    (herr : ∀ e, outcome = .error e → e.isOperational) : Fits (cx.accept outcome) :=
  (ends_ofExcept hok herr).bind fun judged hj => (hosts.report_ends judged.finding).bind fun _ _ =>
    ends_pure hj

theorem Hosts.load_fits (hosts : cx.Hosts config) (address : UInt64) :
    Fits (cx.load address .int) := by
  unfold load
  split
  · rename_i h
    cases h
  · split
    · rename_i hr
      refine ends_pure ?_
      rw [hosts.type_of_read? hr]
      rfl
    · have hget :
          Ends (get : Eval Session) (fun _ => True) (fun e : EvalError => e.isOperational) :=
        ⟨yields_true _, fun s e h => by cases h⟩
      refine hget.bind fun session _ => ?_
      split
      · refine ends_pure ?_
        rw [Value.zero_type]
        rfl
      · exact ends_throw rfl

theorem unary_fits {op : UnaryOp} {x : Eval Value} (hx : Fits x) :
    Fits (x >>= fun v => Eval.ofExcept (cx.target.unary op v)) := by
  refine hx.bind fun v hv => ends_ofExcept (fun w hw => ?_) fun e he => ?_
  · rw [Target.type_of_unary hw]
    exact Target.unaryType_isBasic op hv
  · rw [Target.error_of_unary he]
    rfl

/-- The place of a field in a record that has the fields of the configuration. -/
theorem fieldPlace_of_fieldsIn {r : RecordType} (hr : config.FieldsIn r) (address : UInt64)
    {field : String} (hf : field ∈ config.fieldNames) :
    ∃ address', fieldPlace r address field = .ok ⟨.int, address'⟩ := by
  obtain ⟨found, hfound, htype⟩ := hr field hf
  refine ⟨address + UInt64.ofNat found.offset, ?_⟩
  rw [fieldPlace, hfound]
  simp only [htype]

/-- A pointer that was moved still points to an `int`. -/
theorem pointedPlace?_of_elementPointer {address : UInt64} {index element : Value}
    (h : cx.elementPointer (.pointer .int address) index = .ok element) :
    ∃ address', pointedPlace? element = some ⟨.int, address'⟩ := by
  unfold elementPointer at h
  split at h
  · cases h
    exact ⟨_, rfl⟩
  · cases h

theorem joinBranches_fits {truth : Bool} {taken skipped : Value} (ht : taken.type.isBasic)
    (hs : skipped.type.isBasic) :
    Fits (Eval.ofExcept (cx.joinBranches truth taken skipped)) := by
  refine ends_ofExcept (fun v hv => ?_) fun e he => ?_
  · exact Target.conditionalType?_isBasic ht hs (type_of_joinBranches hv)
  · obtain ⟨l, r, rfl⟩ := error_of_joinBranches he
    rfl

theorem Hosts.variablePointer_fits (hosts : cx.Hosts config) :
    Fits (Eval.ofExcept (cx.variablePointer config.varName)) := by
  obtain ⟨v, address, hv, ht, ha⟩ := hosts.var
  have hpointer : cx.variablePointer config.varName = .ok (.pointer .int address) := by
    simp only [variablePointer, hv, ha, ht]
    rfl
  rw [hpointer]
  exact ends_ofExcept (fun w hw => by cases hw; rfl) fun e he => by cases he

/-- Whatever the configuration admits has a basic value, or fails for its operands or for want of
memory. -/
theorem Hosts.eval_fits (hosts : cx.Hosts config) {e : Expr} (admitted : config.Admits e) :
    Fits (cx.eval e) := by
  induction admitted with
  | integer =>
    refine ends_pure ?_
    rw [IntegerLiteral.toValue, Value.ofInt_type]
    rfl
  | double | boolean => exact ends_pure rfl
  | negativeDouble =>
    have hliteral {x : Binary64} : Fits (cx.eval (.floating ⟨x, false⟩)) := ends_pure rfl
    exact unary_fits hliteral
  | var =>
    obtain ⟨v, -, hv, ht, -⟩ := hosts.var
    rw [eval, hv]
    refine ends_pure ?_
    rw [ht]
    rfl
  | unary _ _ _ ih => exact unary_fits ih
  | @binary op e f _ _ _ _ ihe ihf =>
    simp only [eval]
    split
    · refine ihe.bind fun l _ => Ends.guard rfl ?_
      split
      · exact ends_pure rfl
      · exact ihf.bind fun r _ => Ends.guard rfl (ends_pure rfl)
    · have operand {e : Expr} (he : Fits (cx.eval e)) :
          Ends (cx.eval e) (fun v => v.type.isBasic ∧ v.IsNarrow) (·.isOperational) :=
        ⟨he.yields.and (eval_yields_narrow hosts.narrow e), he.fails⟩
      refine (operand ihe).bind fun l hl => (operand ihf).bind fun r hr => hosts.accept_fits ?_ ?_
      · intro judged hj
        exact Target.binaryType?_isBasic hl.1 hr.1 (Target.type_of_binary hj)
      · intro err he
        rcases Target.error_of_binary he with rfl | rfl
        · rfl
        · exact absurd he (Target.binary_ne_overflow hl.2 hr.2)
  | addressOf => exact hosts.variablePointer_fits
  | member _ hf =>
    obtain ⟨r, address, hr, hfields⟩ := hosts.record
    obtain ⟨address', hplace⟩ := fieldPlace_of_fieldsIn hfields address hf
    have hmember : memberPlace (.record r address) _ = .ok ⟨.int, address'⟩ := hplace
    simp only [eval, hr, Eval.orError, pure_bind, hmember, ofExcept_ok]
    exact hosts.load_fits address'
  | memberOfPointer _ hf =>
    obtain ⟨r, address, hr, hfields⟩ := hosts.recordPointer
    obtain ⟨address', hplace⟩ := fieldPlace_of_fieldsIn hfields address hf
    have hmember : memberOfPointerPlace (.pointer (.record r) address) _ = .ok ⟨.int, address'⟩ :=
      hplace
    simp only [eval, hr, Eval.orError, pure_bind, hmember, ofExcept_ok]
    exact hosts.load_fits address'
  | index _ _ ih =>
    obtain ⟨address, harray⟩ := hosts.array
    simp only [eval, harray, Eval.orError, pure_bind]
    refine ih.bind fun index _ => ?_
    -- an index that is no integer is an invalid operand of the sum
    cases he : cx.elementPointer (.pointer .int address) index with
    | error err =>
      rw [error_of_elementPointer he]
      exact ends_throw rfl
    | ok element =>
      obtain ⟨address', hplace⟩ := pointedPlace?_of_elementPointer he
      simp only [ofExcept_ok, pure_bind, hplace]
      exact hosts.load_fits address'
  | conditional _ _ _ _ ihe ihf ihg =>
    refine ihe.bind fun cond hcond => ?_
    -- a basic value can be tested, so the condition is no invalid cast
    have htest : (!cond.type.isTestable) = false := by
      rw [Ty.isTestable_of_isBasic hcond]
      rfl
    simp only [htest, Bool.false_eq_true, ↓reduceIte]
    split
    · exact ihf.bind fun taken ht => (ends_speculatively ihg).bind fun skipped hs =>
        joinBranches_fits ht hs
    · exact ihg.bind fun taken ht => (ends_speculatively ihf).bind fun skipped hs =>
        joinBranches_fits ht hs
  | paren _ ih => exact ih

end EvalContext

/-! ## The check -/

/-- The pointers of the synthetic frame hold the addresses that it lays out. -/
theorem Synthetic.narrow_frame (target : Target) (config : Config) :
    (frame target config).IsNarrow := by
  let start := (Snapshot.empty.withVariableAt config.varName (.ofInt target .int 42)
    variableAddress).withVariable config.arrayName (.pointer .int arrayAddress)
  have hstart : start.IsNarrow :=
    (Snapshot.IsNarrow.empty.withVariableAt _ _ (Value.narrow_ofInt _ _ _)).withVariable _
      (Value.narrow_pointer _ _)
  have harray : (withArray target start).IsNarrow :=
    List.foldlRecOn _ _ hstart fun _ h _ _ => h.withMemory _ (Value.narrow_ofInt _ _ _)
  have hfields : (withFields target (recordType target config) (withArray target start)).IsNarrow :=
    List.foldlRecOn _ _ harray fun _ h _ _ => h.withMemory _ (Value.narrow_ofInt _ _ _)
  exact ((hfields.withType _ _).withVariable _ (Value.narrow_pointer _ _)).withVariableAt _ _
    (Value.narrow_of_not_isPointer rfl)

theorem Synthetic.frame_hosts (target : Target) {config : Config} (distinct : config.Distinct) :
    EvalContext.Hosts { target, frame := (frame target config).toFrame } config where
  carriesOn := rfl
  narrow := (narrow_frame target config).toFrame
  type_of_read? := (frame_entries target config).2.2.type_of_read?
  var := ⟨_, _, (valueOf?_frame target distinct).1, Value.ofInt_type _ _,
    addressOf?_frame target distinct⟩
  array := ⟨_, (valueOf?_frame target distinct).2.1⟩
  record := ⟨_, _, (valueOf?_frame target distinct).2.2.1, fun _ h => field?_recordType target h⟩
  recordPointer :=
    ⟨_, _, (valueOf?_frame target distinct).2.2.2, fun _ h => field?_recordType target h⟩

theorem check_fits {target : Target} {frame : Snapshot} {config : Config}
    (hosts : EvalContext.Hosts { target, frame := frame.toFrame } config) {e : Expr}
    (admitted : config.Admits e) : (check target frame e).fits := by
  have hends := hosts.eval_fits admitted
  unfold check EvalContext.evaluate EvalContext.evaluateIn
  rcases hr : (EvalContext.eval { target, frame := frame.toFrame } e).run {} with ⟨err | v, after⟩
  · have herr : err.isOperational := hends.fails {} err (by rw [hr])
    exact herr
  · have hbasic : v.type.isBasic := hends.yields {} v (by rw [hr])
    simp only [Except.map, Outcome.ofResult]
    split
    · rfl
    · exact hbasic

namespace Generator

/-- The check of a generated expression gives a scalar or a pointer to `int`, undefined behaviour,
or an error of its operands or of memory. -/
theorem check_fits_of_expr {σ : Type} {g : Generator σ} (honest : g.sampler.Honest)
    (valid : g.config.problem? = none) (distinct : g.config.Distinct) (target : Target) {s : σ}
    {e : Expr} (h : (g.expr.run s).1 = .ok e) :
    (check target (Synthetic.frame target g.config) e).fits := by
  have admitted : g.config.Admits e :=
    exprAt_yields (exprKind_yields_enabled honest valid) (production_yields_admitted honest valid)
      (fun _ => .paren) g.fuel 0 s e h
  exact check_fits (Synthetic.frame_hosts target distinct) admitted

/-- Array elements and members only. -/
def reaching : Generator Script where
  config := { exprWeights := (WeightTable.zeroed.set .index ⟨1, 0⟩).set .member ⟨1, 0⟩ }
  sampler := Script.sampler

/-- `arr[s.f]` -/
theorem check_fits_of_expr_reaching :
    let target : Target := .ofArch .i686
    let e : Expr := .index (.var "arr") (.member (.var "s") "f")
    let outcome : Outcome := check target (Synthetic.frame target reaching.config) e
    (reaching.expr.run ⟨[.exprKind .index, .exprKind .member], 0⟩).1 = .ok e
      ∧ outcome = .value (.ofInt target .int 3) ∧ outcome.fits := by
  intro target e outcome
  have h : (reaching.expr.run ⟨[.exprKind .index, .exprKind .member], 0⟩).1 = .ok e := by
    decide +kernel
  exact ⟨h, by decide +kernel,
    check_fits_of_expr Script.sampler_honest (by decide +kernel) (by decide) target h⟩

end Generator

end Assay
