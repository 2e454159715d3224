import Assay.Proofs.Evaluation.Session
import Assay.Proofs.Evaluation.Speculation
import Assay.Proofs.Evaluation.TwoFrames

/-!
# Knowing more memory

What a frame knows of memory beyond another one makes no difference to an evaluation that needed
none of it, save in the branches that conditionals skip. There memory that cannot be read counts
as zero, and a zero may decide a test that what is really there leaves open. The type of a skipped
branch does not change by that, but an operand that had not been looked at may fail. So an
evaluation gives the same or fails where a branch that it skips does (`evaluate_of_extends`), and
it may fail (`added_memory_counts`).
-/

namespace Assay

/-- The second frame gives names the same meaning, and knows all that the first knows of memory. -/
structure Snapshot.Extends (frame frame' : Snapshot) : Prop where
  names : frame.toFrame.SameNames frame'.toFrame
  read? : ∀ {address type v}, frame.read? address type = some v →
    frame'.read? address type = some v

namespace Eval

variable {α β : Type} {E : EvalError → Prop}

/-- Where the first evaluation gives a value, outside branches that are skipped, the second does
as the first or fails with an `E`. -/
def Keeps (E : EvalError → Prop) (x y : Eval α) : Prop :=
  ∀ s a after, s.speculative = false → x.run s = (.ok a, after) →
    after.speculative = false
      ∧ (y.run s = (.ok a, after) ∨ ∃ err, (y.run s).1 = .error err ∧ E err)

namespace Keeps

theorem refl {x : Eval α} (hx : ∀ s, (x.run s).2.speculative = s.speculative) : Keeps E x x := by
  intro s a after hs h
  have hafter := hx s
  rw [h, hs] at hafter
  exact ⟨hafter, .inl h⟩

theorem throw (e : EvalError) (y : Eval α) : Keeps E (MonadExcept.throw e) y := by
  intro s a after hs h
  cases h

theorem bind {x y : Eval α} {f g : α → Eval β} (hx : Keeps E x y) (hf : ∀ a, Keeps E (f a) (g a)) :
    Keeps E (x >>= f) (y >>= g) := by
  intro s b last hs h
  rw [run_bind] at h
  rcases hr : x.run s with ⟨e | a, after⟩ <;> rw [hr] at h
  · cases h
  · obtain ⟨hafter, hy | ⟨err, hy, he⟩⟩ := hx s a after hs hr
    · obtain ⟨hlast, hg⟩ := hf a after b last hafter h
      rw [run_bind, hy]
      exact ⟨hlast, hg⟩
    · obtain ⟨hlast, -⟩ := hf a after b last hafter h
      refine ⟨hlast, .inr ⟨err, ?_, he⟩⟩
      rw [run_bind]
      rcases hr' : y.run s with ⟨e' | a', after'⟩ <;> rw [hr'] at hy <;> simp at hy
      rw [hy]

theorem chaining : Chaining fun _ => Keeps E where
  pure _ := refl fun _ => rfl
  throw _ := throw _ _
  bind := bind

end Keeps

end Eval

namespace EvalContext

open Eval

variable {target : Target} {frame frame' : Snapshot} {options : EvalOptions} {cx : EvalContext}
  {E : EvalError → Prop}

theorem report_keeps (frame frame' : Frame) (finding : Finding) :
    Keeps E (report ⟨target, frame, options⟩ finding)
      (report ⟨target, frame', options⟩ finding) := by
  refine Keeps.refl (x := report ⟨target, frame, options⟩ finding) fun s => ?_
  rw [run_report]
  split <;> rfl

theorem load_keeps (ext : frame.Extends frame') (address : UInt64) (type : Ty) :
    Keeps E (load ⟨target, frame.toFrame, options⟩ address type)
      (load ⟨target, frame'.toFrame, options⟩ address type) := by
  unfold load
  split
  · exact Keeps.chaining.pure _
  · simp only [Snapshot.toFrame]
    rcases hr : frame.read? address type with _ | v
    · -- a cell that the first frame does not know ends its evaluation
      intro s a after hs h
      have hget : (get : Eval Session).run s = (.ok s, s) := rfl
      simp only [] at h
      rw [run_bind, hget] at h
      simp only [hs] at h
      cases h
    · rw [ext.read? hr]
      exact Keeps.chaining.pure v

theorem run_skip (truth : Bool) (taken : Value) (b : Expr) (s : Session) :
    (cx.skip truth taken b).run s =
      ((cx.speculate b).bind (cx.joinBranches truth taken), s) := by
  rw [skip, run_bind, run_speculatively_eval]
  rcases cx.speculate b with e | w <;> rfl

/-- Of a skipped branch the type counts, so it matters only where the second frame has none. -/
theorem skip_keeps {frame frame' : Frame} {b : Expr}
    (hb : ∀ w, speculate ⟨target, frame, options⟩ b = .ok w →
      (∃ w', speculate ⟨target, frame', options⟩ b = .ok w' ∧ w'.type = w.type)
        ∨ ∃ err, speculate ⟨target, frame', options⟩ b = .error err ∧ E err)
    (truth : Bool) (taken : Value) :
    Keeps E (skip ⟨target, frame, options⟩ truth taken b)
      (skip ⟨target, frame', options⟩ truth taken b) := by
  intro s v after hs h
  rw [run_skip] at h
  rw [run_skip]
  rcases hw : speculate ⟨target, frame, options⟩ b with e | w <;> rw [hw] at h
  · cases h
  obtain ⟨hj, rfl⟩ := Prod.mk.inj h
  refine ⟨hs, ?_⟩
  rcases hb w hw with ⟨w', hw', ht⟩ | ⟨err, herr, he⟩
  · left
    rw [hw', ← hj]
    exact congrArg (·, s) (joinBranches_congr ht)
  · right
    rw [herr]
    exact ⟨err, rfl, he⟩

theorem type_of_speculate {scope : Scope} {p : EnumType → Bool} (hp : EnumType.OneFloating p)
    (hd : scope.Describes cx) (ho : scope.EnumsIn p) {e : Expr} {w : Value}
    (h : cx.speculate e = .ok w) : scope.infer? e = some w.type :=
  (eval_yields_infer? hp hd ho e).1 _ w h

end EvalContext

open EvalContext Eval

theorem Snapshot.Extends.sameTypes {frame frame' : Snapshot} (ext : frame.Extends frame') :
    frame.SameTypes frame' where
  valueOf? {name v v'} h h' := by
    have hn : frame'.valueOf? name = frame.valueOf? name := ext.names.valueOf? name
    rw [hn, h] at h'
    rw [Option.some.inj h']
  taggedType? {name type type'} h h' := by
    have hn : frame'.taggedType? name = frame.taggedType? name := ext.names.taggedType? name
    rw [hn, h] at h'
    exact Option.some.inj h'

theorem Snapshot.Extends.enumsIn {frame frame' : Snapshot} (ext : frame.Extends frame')
    {p : EnumType → Bool} (ho : frame.EnumsIn p) : frame'.EnumsIn p where
  valueOf? {name v} h := by
    have hn : frame'.valueOf? name = frame.valueOf? name := ext.names.valueOf? name
    exact ho.valueOf? (hn ▸ h)
  taggedType? {name type} h := by
    have hn : frame'.taggedType? name = frame.taggedType? name := ext.names.taggedType? name
    exact ho.taggedType? (hn ▸ h)

/-- In a frame that knows more memory an evaluation gives the same value and finding, or it fails
as some branch of a conditional does there that had a type before. -/
theorem evaluate_of_extends {target : Target} {frame frame' : Snapshot} (built : frame.Built)
    (built' : frame'.Built) (ext : frame.Extends frame') {p : EnumType → Bool}
    (hp : EnumType.OneFloating p) (ho : frame.EnumsIn p) {options : EvalOptions} {e : Expr}
    {r : Evaluation} (h : evaluate ⟨target, frame.toFrame, options⟩ e = .ok r) :
    evaluate ⟨target, frame'.toFrame, options⟩ e = .ok r
      ∨ ∃ b ∈ e.branches, ∃ err, evaluate ⟨target, frame'.toFrame, options⟩ e = .error err
          ∧ speculate ⟨target, frame'.toFrame, options⟩ b = .error err
          ∧ ∃ w, speculate ⟨target, frame.toFrame, options⟩ b = .ok w := by
  have hj : (Snapshot.jointScope target frame frame').EnumsIn p :=
    Snapshot.jointScope_enumsIn ho (ext.enumsIn ho)
  have hd : (Snapshot.jointScope target frame frame').Describes ⟨target, frame.toFrame, options⟩ :=
    Snapshot.jointScope_describes_left built
  have hd' : (Snapshot.jointScope target frame frame').Describes
      ⟨target, frame'.toFrame, options⟩ := Snapshot.jointScope_describes_right built' ext.sameTypes
  -- the failures of branches that had a type before
  let E (err : EvalError) : Prop :=
    ∃ b ∈ e.branches, speculate ⟨target, frame'.toFrame, options⟩ b = .error err
      ∧ ∃ w, speculate ⟨target, frame.toFrame, options⟩ b = .ok w
  have hskip : ∀ b ∈ e.branches, ∀ truth taken,
      Keeps E (skip ⟨target, frame.toFrame, options⟩ truth taken b)
        (skip ⟨target, frame'.toFrame, options⟩ truth taken b) := by
    intro b hb
    refine skip_keeps fun w hw => ?_
    rcases hw' : speculate ⟨target, frame'.toFrame, options⟩ b with err | w'
    · exact .inr ⟨err, rfl, b, hb, hw', w, hw⟩
    · have ht := type_of_speculate hp hd hj hw
      rw [type_of_speculate hp hd' hj hw'] at ht
      exact .inl ⟨w', rfl, Option.some.inj ht⟩
  have hkeeps : Keeps E (eval ⟨target, frame.toFrame, options⟩ e)
      (eval ⟨target, frame'.toFrame, options⟩ e) :=
    (eval_chained ext.names Keeps.chaining (report_keeps _ _) (load_keeps ext) e
      fun b hb _ => hskip b hb).1
  obtain ⟨-, hrun | ⟨err, hrun, b, hb, hspec⟩⟩ :=
    hkeeps {} r.value _ rfl (run_of_evaluate h .none)
  · exact .inl (evaluate_of_run hrun)
  · exact .inr ⟨b, hb, err, evaluate_of_error hrun, hspec⟩

/-! ## A cell that is added -/

theorem Snapshot.extends_withMemory {frame : Snapshot} {address : UInt64} {value : Value}
    (h : frame.read? address value.type = none) :
    frame.Extends (frame.withMemory address value) where
  names := ⟨fun _ => rfl, fun _ => rfl, fun _ => rfl⟩
  read? {a type v} hr := by
    rw [Snapshot.read?_withMemory_of_ne, hr]
    rintro heq
    obtain ⟨rfl, rfl⟩ := Prod.mk.inj heq
    rw [h] at hr
    simp at hr

/-- A pointer `p` to an integer, beside what is flagged. -/
def Snapshot.pointed (left right : ScalarType) : Snapshot :=
  (Snapshot.flagged left right true).withVariable "p" (.pointer .int 4096)

/-- The frame in which `p` points to a one. -/
def Snapshot.withOne (frame : Snapshot) : Snapshot :=
  frame.withMemory 4096 (.ofInt (.ofArch .x86_64) .int 1)

/-- `true ? l : *p ? l : r` -/
def Expr.skippedChoice : Expr :=
  .conditional (.boolean true) (.var "l")
    (.conditional (.dereference (.var "p")) (.var "l") (.var "r"))

section Pointed

variable {left right : ScalarType}

theorem pointed_built : (Snapshot.pointed left right).Built := flagged_built.withVariable _ _

theorem pointed_extends :
    (Snapshot.pointed left right).Extends (Snapshot.pointed left right).withOne :=
  Snapshot.extends_withMemory rfl

theorem pointed_enumsIn {p : EnumType → Bool} (hl : (Ty.enumOver left).enumsIn p)
    (hr : (Ty.enumOver right).enumsIn p) : (Snapshot.pointed left right).EnumsIn p where
  valueOf? {name v} h := by
    by_cases hne : "p" = name
    · subst hne
      cases h
      rfl
    · rw [Snapshot.pointed, Snapshot.valueOf?_withVariable_of_ne hne] at h
      exact (flagged_enumsIn hl hr).valueOf? h
  taggedType? h := by cases h

end Pointed

/-- What an expression gives in a frame, on a 64-bit target. -/
def Snapshot.evaluate (frame : Snapshot) (e : Expr) : Except EvalError Evaluation :=
  EvalContext.evaluate ⟨.ofArch .x86_64, frame.toFrame, {}⟩ e

/-- The one that is added turns the skipped choice over, and its type is `float` all the same. -/
theorem evaluate_of_extends_choice :
    let frame : Snapshot := .pointed .float .long
    let result : Evaluation := ⟨.ofBinary64 (.scalar .float) 1, .none⟩
    frame.Extends frame.withOne ∧ frame.evaluate .skippedChoice = .ok result
      ∧ frame.withOne.evaluate .skippedChoice = .ok result := by
  have h : (Snapshot.pointed .float .long).evaluate .skippedChoice =
      .ok ⟨.ofBinary64 (.scalar .float) 1, .none⟩ := rfl
  have ho : (Snapshot.pointed .float .long).EnumsIn (·.underlying != .double) :=
    pointed_enumsIn rfl rfl
  have hp : EnumType.OneFloating (·.underlying != .double) :=
    .inr fun e he _ => by simpa using he
  refine ⟨pointed_extends, h, ?_⟩
  rcases evaluate_of_extends pointed_built (pointed_built.withMemory _ _) pointed_extends hp ho h
    with h' | ⟨b, hb, err, -, hfails, -⟩
  · exact h'
  · -- every branch has a type in the second frame as well
    exfalso
    simp only [Expr.skippedChoice, Expr.branches, List.append_nil, List.nil_append, List.mem_cons,
      List.not_mem_nil, or_false] at hb
    rcases hb with rfl | rfl | rfl | rfl <;> cases hfails

/-- A one that is added makes `true ? 1 : *p && y` fail, where there is no `y`. It makes
`true ? l : *p ? l : r` a `float`, where it was a `double`, if `l` and `r` are of enumerations over
`float` and over `double`. -/
theorem added_memory_counts :
    let frame : Snapshot := .pointed .float .double
    let test : Expr := .conditional (.boolean true) (.integer { value := 1 })
      (.binary .logicalAnd (.dereference (.var "p")) (.var "y"))
    frame.Built ∧ frame.withOne.Built ∧ frame.Extends frame.withOne
      ∧ frame.evaluate test = .ok ⟨.ofInt (.ofArch .x86_64) .int 1, .none⟩
      ∧ frame.withOne.evaluate test = .error (.undeclared "y")
      ∧ frame.evaluate .skippedChoice = .ok ⟨.ofBinary64 (.scalar .double) 1, .none⟩
      ∧ frame.withOne.evaluate .skippedChoice = .ok ⟨.ofBinary64 (.scalar .float) 1, .none⟩ :=
  ⟨pointed_built, pointed_built.withMemory _ _, pointed_extends, rfl, rfl, rfl, rfl⟩

end Assay
