import Assay.Proofs.Evaluation.TwoFrames

/-!
# Evaluations yield well-formed values

Every operation takes well-formed operands to a well-formed result, since each result is brought to
its type by a conversion or is a truth value. So in a frame of well-formed values an expression has
well-formed values only (`evaluateIn_wellFormed`).
-/

namespace Assay

namespace Target

variable {target : Target}

/-- An integer operand promotes to a type that is neither floating nor a record. -/
theorem promote_of_isIntegerOperand (target : Target) {type : Ty} (hi : type.isIntegerOperand)
    (ho : type.enumsIn EnumType.isPlain) :
    (target.promote type).isTestable ∧ (target.promote type).isFloating = false := by
  obtain ⟨hint, ha⟩ : type.isIntegral = true ∧ type.isArithmetic = true := by
    simpa [Ty.isIntegerOperand] using hi
  have hf : type.isFloating = false := by
    cases type with
    | scalar s => simpa [Ty.isIntegral, ScalarType.isIntegral, Ty.isFloating] using hint
    | _ => rfl
  obtain ⟨s, hs, -, hsp⟩ := target.promote_of_arithmetic ha hf ho
  rw [hs]
  refine ⟨rfl, Bool.eq_false_iff.mpr fun hsf => ?_⟩
  obtain ⟨e, he, -, rfl⟩ := hsp hsf
  rw [Ty.isFloating, EnumType.isFloating_of_isPlain he] at hsf
  cases hsf

theorem differenceType_isFloating : (Ty.scalar target.differenceType).isFloating = false := by
  unfold differenceType
  split_ifs <;> rfl

section Operations

variable (hw : target.FitsWord)
include hw

theorem wellFormed_unary {op : UnaryOp} {v w : Value} (hv : v.WellFormed target)
    (ho : v.type.enumsIn EnumType.isPlain) (h : target.unary op v = .ok w) :
    w.WellFormed target := by
  have hpo := target.promote_enumsIn ho
  unfold unary at h
  cases op <;> simp only [] at h <;> split_ifs at h <;> cases h
  · exact hv
  · exact Value.wellFormed_convert hw (promote_isTestable ‹_›) hpo v
  · exact Value.wellFormed_ofBinary64 ‹_› _
  · rename_i ha hf
    exact Value.wellFormed_ofInt hw (promote_isTestable (by simpa using ha)) (by simpa using hf)
      hpo _
  · exact Value.wellFormed_boolean _
  · obtain ⟨ht, hf⟩ := target.promote_of_isIntegerOperand ‹_› ho
    exact Value.wellFormed_ofInt hw ht hf hpo _

theorem wellFormed_movePointer {pointer : Value} (hp : pointer.type.isPointer)
    (ho : pointer.type.enumsIn EnumType.isPlain) (elements : Int) :
    (target.movePointer pointer elements).WellFormed target := by
  unfold movePointer
  cases ht : pointer.type <;> rw [ht] at hp ho <;>
    simp only [Ty.isPointer, Bool.false_eq_true] at hp
  exact Value.wellFormed_ofInt hw rfl rfl ho _

theorem wellFormed_pointerArithmetic {op : BinaryOp} {l r : Value} {judged : Judged}
    (hl : l.type.enumsIn EnumType.isPlain)
    (hr : r.type.enumsIn EnumType.isPlain)
    (h : target.pointerArithmetic op l r = .ok judged) : judged.value.WellFormed target := by
  unfold pointerArithmetic at h
  simp only [] at h
  split at h
  · split_ifs at h
    cases h
    exact wellFormed_movePointer hw ‹_› hl _
  · split_ifs at h
    cases h
    exact wellFormed_movePointer hw ‹_› hr _
  · split_ifs at h
    cases h
    exact wellFormed_movePointer hw ‹_› hl _
  · split_ifs at h
    rcases pointerDistance_cases target l r with ⟨n, hd⟩ | hd <;> rw [hd] at h <;> cases h
    exact Value.wellFormed_ofInt hw rfl differenceType_isFloating rfl n
  · cases h

theorem wellFormed_shift {op : BinaryOp} {l r : Value} {judged : Judged}
    (hl : l.type.enumsIn EnumType.isPlain) (h : target.shift op l r = .ok judged) :
    judged.value.WellFormed target := by
  unfold shift at h
  split at h
  · cases h
  · rename_i hop
    cases h
    have hi : l.type.isIntegerOperand := by
      revert hop
      cases l.type.isIntegerOperand <;> simp
    obtain ⟨ht, hf⟩ := target.promote_of_isIntegerOperand hi hl
    exact Value.wellFormed_ofInt hw ht hf (target.promote_enumsIn hl) _

omit hw in
theorem wellFormed_comparison {op : BinaryOp} {l r : Value} {judged : Judged}
    (h : target.comparison op l r = .ok judged) : judged.value.WellFormed target := by
  unfold comparison at h
  split at h <;> cases h
  exact Value.wellFormed_boolean _

theorem wellFormed_arithmetic {op : BinaryOp} {l r : Value} {judged : Judged}
    (h : target.arithmetic op l r = .ok judged) : judged.value.WellFormed target := by
  unfold arithmetic at h
  simp only [] at h
  split at h
  · cases h
  · rename_i common hc
    obtain ⟨s, rfl⟩ := commonType?_eq_scalar target hc
    split_ifs at h with hf
    · split at h <;> cases h
      exact Value.wellFormed_ofBinary64 hf _
    · split at h <;> cases h
      exact Value.wellFormed_ofInt hw rfl (by simpa using hf) rfl _

theorem wellFormed_binary {op : BinaryOp} {l r : Value} {judged : Judged}
    (hl : l.type.enumsIn EnumType.isPlain)
    (hr : r.type.enumsIn EnumType.isPlain) (h : target.binary op l r = .ok judged) :
    judged.value.WellFormed target := by
  unfold binary at h
  split_ifs at h
  · exact wellFormed_pointerArithmetic hw hl hr h
  · exact wellFormed_shift hw hl h
  · exact wellFormed_comparison h
  · exact wellFormed_arithmetic hw h

theorem wellFormed_cast {v : Value} {dest : Ty} {judged : Judged}
    (ho : dest.enumsIn EnumType.isPlain) (h : target.cast v dest = .ok judged) :
    judged.value.WellFormed target := by
  unfold cast at h
  simp only [] at h
  split at h
  · cases h
  · split_ifs at h
    cases h
    exact Value.wellFormed_convert hw rfl ho v
  · rename_i hr _
    split_ifs at h
    cases h
    have ht : dest.isTestable := by cases dest <;> first | rfl | exact absurd rfl (hr _)
    exact Value.wellFormed_convert hw ht ho v

end Operations

end Target

theorem IntegerLiteral.type_isFloating (literal : IntegerLiteral) (target : Target) :
    (Ty.scalar (literal.type target)).isFloating = false := by
  have hc : ∀ s ∈ literal.candidates, (Ty.scalar s).isFloating = false := by
    unfold candidates
    split <;> decide
  simp only [type]
  rcases hf : literal.candidates.find? _ with _ | s
  · rfl
  · exact hc s (List.mem_of_find?_eq_some hf)

/-- The values that the frame holds are well-formed. -/
structure Snapshot.WellFormed (frame : Snapshot) (target : Target) : Prop where
  valueOf? : ∀ {name v}, frame.valueOf? name = some v → v.WellFormed target
  read? : ∀ {address type v}, frame.read? address type = some v → v.WellFormed target

theorem Snapshot.wellFormed_of_entries {frame : Snapshot} {target : Target}
    (hv : ∀ entry ∈ frame.vars, entry.2.WellFormed target)
    (hm : ∀ entry ∈ frame.memory, entry.2.WellFormed target) : frame.WellFormed target where
  valueOf? := fun h => hv _ (mem_of_lookup h)
  read? := fun h => hm _ (mem_of_lookup h)

namespace EvalContext

open Eval

variable {target : Target} {frame : Snapshot} {options : EvalOptions}

/-- Every value that an expression can have in a snapshot has a type over plain integers. -/
theorem eval_yields_enumsIn (built : frame.Built)
    (ho : frame.EnumsIn EnumType.isPlain) (e : Expr) :
    Yields (eval ⟨target, frame.toFrame, options⟩ e)
      fun v => v.type.enumsIn EnumType.isPlain := by
  have hs : (Snapshot.jointScope target frame frame).EnumsIn EnumType.isPlain :=
    Snapshot.jointScope_enumsIn ho ho
  have hd : (Snapshot.jointScope target frame frame).Describes ⟨target, frame.toFrame, options⟩ :=
    Snapshot.jointScope_describes_left built
  exact (eval_yields_infer? EnumType.oneFloating_isPlain hd hs e).1.imp
    fun v hv => (hs.infer? e).1 hv

theorem resolve_enumsIn (built : frame.Built) (ho : frame.EnumsIn EnumType.isPlain)
    {written : SourceType} {type : Ty}
    (h : resolve ⟨target, frame.toFrame, options⟩ written = .ok type) :
    type.enumsIn EnumType.isPlain :=
  (Snapshot.jointScope_enumsIn ho ho).resolve?
    (resolve_described (Snapshot.jointScope_describes_left built) h)

theorem load_yields_wellFormed (hw : target.FitsWord) (hf : frame.WellFormed target)
    (address : UInt64) {type : Ty} (ho : type.enumsIn EnumType.isPlain) :
    Yields (load ⟨target, frame.toFrame, options⟩ address type) (·.WellFormed target) := by
  unfold load
  split
  · exact yields_pure (Value.wellFormed_address (.inr rfl) rfl)
  · split
    · rename_i hr
      exact yields_pure (hf.read? hr)
    · refine (yields_true _).bind fun session _ => ?_
      split
      · exact yields_pure (Value.wellFormed_zero hw ho)
      · exact yields_throw _

theorem wellFormed_joinBranches (hw : target.FitsWord) {frame : Frame} {truth : Bool}
    {taken skipped value : Value} (ht : taken.WellFormed target)
    (hot : taken.type.enumsIn EnumType.isPlain)
    (hos : skipped.type.enumsIn EnumType.isPlain)
    (h : joinBranches ⟨target, frame, options⟩ truth taken skipped = .ok value) :
    value.WellFormed target := by
  obtain ⟨common, hc, rfl⟩ := joinBranches_cases h
  have hoc := Target.conditionalType?_enumsIn target hot hos hc
  rcases Target.conditionalType?_cases hc with rfl | htest
  · rwa [if_pos rfl]
  · split_ifs
    · exact ht
    · exact Value.wellFormed_convert hw htest hoc taken

theorem wellFormed_variablePointer {frame : Frame} {name : String} {pointer : Value}
    (h : variablePointer ⟨target, frame, options⟩ name = .ok pointer) :
    pointer.WellFormed target := by
  unfold variablePointer at h
  split at h
  · cases h
  · simp only [] at h
    split at h <;> cases h
    exact Value.wellFormed_address (.inl rfl) rfl

theorem wellFormed_elementPointer (hw : target.FitsWord) {frame : Frame}
    {base index element : Value} (ho : base.type.enumsIn EnumType.isPlain)
    (h : elementPointer ⟨target, frame, options⟩ base index = .ok element) :
    element.WellFormed target := by
  unfold elementPointer at h
  split_ifs at h with hc
  cases h
  exact Target.wellFormed_movePointer hw (by simp_all) ho _

/-- In a snapshot of well-formed values, an expression has well-formed values and designates what
well-formed pointers point to. -/
theorem eval_yields_wellFormed (hw : target.FitsWord) (built : frame.Built)
    (ho : frame.EnumsIn EnumType.isPlain) (hf : frame.WellFormed target) (e : Expr) :
    Yields (eval ⟨target, frame.toFrame, options⟩ e) (·.WellFormed target)
      ∧ Yields (evalAddress ⟨target, frame.toFrame, options⟩ e) (·.WellFormed target) := by
  have types (e : Expr) : Yields (eval ⟨target, frame.toFrame, options⟩ e)
      fun v => v.type.enumsIn EnumType.isPlain :=
    eval_yields_enumsIn built ho e
  induction e with
  | integer literal =>
    exact ⟨yields_pure (Value.wellFormed_ofInt hw rfl (literal.type_isFloating target) rfl _),
      yields_throw _⟩
  | floating literal =>
    refine ⟨yields_pure (Value.wellFormed_ofBinary64 ?_ _), yields_throw _⟩
    split <;> rfl
  | boolean b => exact ⟨yields_pure (Value.wellFormed_boolean b), yields_throw _⟩
  | var name =>
    exact ⟨(yields_orError _ _).imp fun v hv => hf.valueOf? hv,
      (yields_ofExcept _).imp fun v hv => wellFormed_variablePointer hv⟩
  | unary op e ih =>
    refine ⟨(ih.1.and (types e)).bind fun v hv => (yields_ofExcept _).imp fun w hw' => ?_,
      yields_throw _⟩
    exact Target.wellFormed_unary hw hv.1 hv.2 hw'
  | binary op e f ihe ihf =>
    refine ⟨?_, yields_throw _⟩
    simp only [eval]
    by_cases hop : op.isLogical = true
    · simp only [hop, ↓reduceIte]
      refine ihe.1.bind fun l _ => Yields.guard ?_
      split
      · exact yields_pure (Value.wellFormed_boolean _)
      · exact ihf.1.bind fun r _ => Yields.guard (yields_pure (Value.wellFormed_boolean _))
    · simp only [hop, Bool.false_eq_true, ↓reduceIte]
      refine (types e).bind fun l hl => (types f).bind fun r hr => (accept_yields _).imp ?_
      rintro v ⟨judged, hj, rfl⟩
      exact Target.wellFormed_binary hw hl hr hj
  | addressOf e ih => exact ⟨ih.2, yields_throw _⟩
  | dereference e ih =>
    constructor
    · refine (types e).bind fun v hv => (yields_orError _ _).bind fun place hp =>
        load_yields_wellFormed hw hf _ ?_
      exact Ty.enumsIn_of_pointee? hv (type_of_pointedPlace? hp)
    · refine ih.1.bind fun v hv => ?_
      split
      · exact yields_pure hv
      · exact yields_throw _
  | member e field ih =>
    constructor
    · refine (types e).bind fun v hv => (yields_ofExcept _).bind fun place hp =>
        load_yields_wellFormed hw hf _ ?_
      exact Ty.enumsIn_of_fieldType? hv (type_of_memberPlace hp)
    · exact ih.1.bind fun v _ => (yields_ofExcept _).bind fun place _ =>
        yields_pure (Value.wellFormed_address (.inl rfl) rfl)
  | memberOfPointer e field ih =>
    constructor
    · refine (types e).bind fun v hv => (yields_ofExcept _).bind fun place hp =>
        load_yields_wellFormed hw hf _ ?_
      obtain ⟨pointee, hpt, hft⟩ := Option.bind_eq_some_iff.mp (type_of_memberOfPointerPlace hp)
      exact Ty.enumsIn_of_fieldType? (Ty.enumsIn_of_pointee? hv hpt) hft
    · exact ih.1.bind fun v _ => (yields_ofExcept _).bind fun place _ =>
        yields_pure (Value.wellFormed_address (.inl rfl) rfl)
  | index e f ihe ihf =>
    constructor
    · refine (types e).bind fun base hb => ihf.1.bind fun index _ =>
        (yields_ofExcept _).bind fun element he => (yields_orError _ _).bind fun place hp =>
        load_yields_wellFormed hw hf _ ?_
      have ht := type_of_pointedPlace? hp
      rw [type_of_elementPointer he] at ht
      exact Ty.enumsIn_of_pointee? hb ht
    · exact (types e).bind fun base hb => ihf.1.bind fun index _ =>
        (yields_ofExcept _).imp fun w hw' => wellFormed_elementPointer hw hb hw'
  | conditional e f g ihe ihf ihg =>
    refine ⟨ihe.1.bind fun cond _ => Yields.guard ?_, yields_throw _⟩
    split
    -- of the branch that is skipped, the type is enough
    · exact (ihf.1.and (types f)).bind fun taken ht =>
        (yields_speculatively (types g)).bind fun skipped hs =>
        (yields_ofExcept _).imp fun w hj => wellFormed_joinBranches hw ht.1 ht.2 hs hj
    · exact (ihg.1.and (types g)).bind fun taken ht =>
        (yields_speculatively (types f)).bind fun skipped hs =>
        (yields_ofExcept _).imp fun w hj => wellFormed_joinBranches hw ht.1 ht.2 hs hj
  | cast type e ih =>
    refine ⟨(yields_ofExcept _).bind fun dest hr => (yields_true _).bind fun v _ =>
      (accept_yields _).imp ?_, yields_throw _⟩
    rintro w ⟨judged, hj, rfl⟩
    exact Target.wellFormed_cast hw (resolve_enumsIn built ho hr) hj
  | paren e ih => exact ih

end EvalContext

/-- In a snapshot of well-formed values, whose enumerations rest on integers, every value that an
expression is given is well-formed. -/
theorem wellFormed_of_evaluateIn {arch : Arch} {frame : Snapshot} (built : frame.Built)
    (ho : frame.EnumsIn EnumType.isPlain) (hf : frame.WellFormed (.ofArch arch))
    {options : EvalOptions} {session : Session} {e : Expr} {r : Evaluation}
    (h : (EvalContext.evaluateIn ⟨.ofArch arch, frame.toFrame, options⟩ session e).1 = .ok r) :
    r.value.WellFormed (.ofArch arch) :=
  EvalContext.value_of_evaluateIn
    (EvalContext.eval_yields_wellFormed (Target.fitsWord_ofArch arch) built ho hf e).1 h

/-- A flag, an enumerator, and an integer that a pointer leads to. -/
def Snapshot.pointing : Snapshot :=
  Snapshot.empty
    |>.withVariable "flag" (.boolean true)
    |>.withVariable "e" (.ofInt (.ofArch .x86_64) (Ty.enumOver .short) (-7))
    |>.withVariableAt "n" (.ofInt (.ofArch .x86_64) (.scalar .long) 12) 64
    |>.withVariable "p" (.pointer (.scalar .long) 64)

/-- `flag ? e : *p` -/
theorem wellFormed_of_evaluateIn_pointing :
    let cx : EvalContext := ⟨.ofArch .x86_64, Snapshot.pointing.toFrame, { stopAtFinding := true }⟩
    let e : Expr := .conditional (.var "flag") (.var "e") (.dereference (.var "p"))
    let v : Value := .ofInt (.ofArch .x86_64) (.scalar .long) (-7)
    (cx.evaluateIn {} e).1 = .ok ⟨v, .none⟩ ∧ v.WellFormed cx.target := by
  intro cx e v
  have h : (cx.evaluateIn {} e).1 = .ok ⟨v, .none⟩ := by rfl
  have built : Snapshot.pointing.Built :=
    .withVariable (.withVariableAt (.withVariable (.withVariable .empty _ _) _ _) _ _ _) _ _
  have ho : Snapshot.pointing.EnumsIn EnumType.isPlain :=
    Snapshot.enumsIn_of_entries (by decide) (by decide)
  have hf : Snapshot.pointing.WellFormed cx.target :=
    Snapshot.wellFormed_of_entries (by decide) (by decide)
  exact ⟨h, wellFormed_of_evaluateIn built ho hf h⟩

end Assay
