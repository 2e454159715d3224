import Assay.Proofs.Evaluation.PointerOffset
import Assay.Proofs.Value.Residue

/-!
# A pointer reached from another

A distance of pointers is reduced to its type, an offset is scaled and reduced to a word, and a sum
is reduced to memory. All three keep an offset's residue modulo the size of memory, and that decides
where it leads (`Target.movePointer_reaches`). So one pointer plus its distance to another is that
other pointer, however far apart the two are, if whole elements lie between them
(`difference_returns`).
-/

namespace Assay

namespace Target

variable {arch : Arch} {pointee : Ty} {a b : UInt64}

/-- An offset leads to a pointer if it is congruent to the number of elements up to there. -/
theorem movePointer_reaches (ha : (ofArch arch).Spans a.toNat) {k n : Int}
    (hk : b.toNat + k * (ofArch arch).sizeOf pointee = a.toNat)
    (hn : (Nat.pow 2 (ofArch arch).pointerBits : Int) ∣ n - k) :
    (ofArch arch).movePointer (.pointer pointee b) n = .pointer pointee a := by
  obtain ⟨c, hc, hmod⟩ := movePointer_pointer arch pointee b n
  obtain ⟨laps, hlaps⟩ := hn
  obtain rfl : n = k + Nat.pow 2 (ofArch arch).pointerBits * laps := by omega
  have hsum : (b.toNat : Int) + (k + Nat.pow 2 (ofArch arch).pointerBits * laps)
        * (ofArch arch).sizeOf pointee =
      a.toNat + Nat.pow 2 (ofArch arch).pointerBits * (laps * (ofArch arch).sizeOf pointee) := by
    rw [← hk, Int.add_mul, Int.mul_assoc, Int.add_assoc]
  rw [hsum, Int.add_mul_emod_self_left, Int.emod_eq_of_lt ha.1 ha.2] at hmod
  obtain rfl : c = a := UInt64.toNat_inj.mp (Int.ofNat_inj.mp hmod)
  exact hc

/-- The distance from `b` to `a` as an offset, reduced to its type. -/
theorem elementDistance_congruent :
    (Nat.pow 2 (ofArch arch).pointerBits : Int) ∣
      ((ofArch arch).elementDistance pointee a b).toInt
        - (byteDistance a b).tdiv ((ofArch arch).sizeOf pointee) := by
  rw [elementDistance, Value.toInt_eq_of_toInt? (toInt?_ofInt_bmod arch _)]
  exact Int.dvd_bmod_sub_self

section Even

variable (heven : ((ofArch arch).sizeOf pointee : Int) ∣ byteDistance a b)
include heven

theorem movePointer_distance (ha : (ofArch arch).Spans a.toNat) :
    (ofArch arch).movePointer (.pointer pointee b)
        ((ofArch arch).elementDistance pointee a b).toInt =
      .pointer pointee a := by
  refine movePointer_reaches ha ?_ elementDistance_congruent
  rw [Int.tdiv_mul_cancel heven, byteDistance]
  omega

theorem movePointer_distance_back (hb : (ofArch arch).Spans b.toNat) :
    (ofArch arch).movePointer (.pointer pointee a) (wrapWide
        (-((ofArch arch).elementDistance pointee a b).toInt)) =
      .pointer pointee b := by
  have hwide : (ofArch arch).pointerBits ≤ 128 := (pointerBits_bounds arch).2.trans (by decide)
  have hdistance := @elementDistance_congruent arch pointee a b
  generalize ((ofArch arch).elementDistance pointee a b).toInt = n at hdistance ⊢
  refine movePointer_reaches (k := -(byteDistance a b).tdiv ((ofArch arch).sizeOf pointee)) hb ?_ ?_
  · rw [Int.neg_mul, Int.tdiv_mul_cancel heven, byteDistance]
    omega
  · have hback := Int.dvd_sub (dvd_wrapWide_sub hwide (-n)) hdistance
    rwa [show wrapWide (-n) - -n - (n - (byteDistance a b).tdiv ((ofArch arch).sizeOf pointee)) =
      wrapWide (-n) - -(byteDistance a b).tdiv ((ofArch arch).sizeOf pointee) by omega] at hback

end Even

theorem binary_plus_pointer {target : Target} {l : Value} (h : l.type.isIntegerOperand) :
    target.binary .plus l (.pointer pointee b) =
      .ok ⟨target.classify .plus l (.pointer pointee b),
        target.movePointer (.pointer pointee b) l.toInt⟩ := by
  have hr : (Value.pointer pointee b).type.isPointer = true := rfl
  have hl := isPointer_of_isIntegerOperand h
  simp [binary, pointerArithmetic, hl, hr, h]

end Target

namespace EvalContext

variable {cx : EvalContext} {arch : Arch} {e f : Expr} {pointee : Ty} {a b : UInt64}

/-- The expression has the value, unless its evaluation stops at a finding. -/
def Gives (cx : EvalContext) (e : Expr) (v : Value) : Prop :=
  (∃ finding, cx.evaluate e = .ok ⟨v, finding⟩)
    ∨ cx.options.stopAtFinding ∧ ∃ finding, cx.evaluate e = .error (.undefinedBehavior finding)

theorem run_accept_cases (judged : Judged) (s : Session) :
    (∃ s', (cx.accept (.ok judged)).run s = (.ok judged.value, s'))
      ∨ cx.options.stopAtFinding ∧ ∃ s', (cx.accept (.ok judged)).run s =
          (.error (.undefinedBehavior judged.finding), s') := by
  unfold accept
  rw [Eval.ofExcept_ok, pure_bind, run_bind, run_report]
  cases judged.finding.isUndefined && !s.speculative with
  | true =>
    cases hstop : cx.options.stopAtFinding with
    | true => exact .inr ⟨rfl, _, rfl⟩
    | false => exact .inl ⟨_, rfl⟩
  | false => exact .inl ⟨_, rfl⟩

theorem gives_binary {op : BinaryOp} (hop : op.isLogical = false) {l r : Value} {judged : Judged}
    (he : cx.Gives e l) (hf : cx.Gives f r) (hj : cx.target.binary op l r = .ok judged) :
    cx.Gives (.binary op e f) judged.value := by
  rcases he with ⟨before, he⟩ | ⟨hstop, finding, he⟩
  · rcases hf with ⟨found, hf⟩ | ⟨hstop, finding, hf⟩
    · have hrun := run_operands (eval_binary cx hop e f) he hf
      rw [hj] at hrun
      rcases cx.run_accept_cases judged ⟨before.orElse found, false⟩ with
        ⟨s, hs⟩ | ⟨hstop, s, hs⟩
      · exact .inl ⟨_, evaluate_of_run (hrun.trans hs)⟩
      · exact .inr ⟨hstop, _, evaluate_of_error (congrArg Prod.fst (hrun.trans hs))⟩
    · exact .inr ⟨hstop, finding, evaluate_right_error (eval_binary cx hop e f) he hf⟩
  · exact .inr ⟨hstop, finding, evaluate_left_error (eval_binary cx hop e f) he⟩

/-- If whole elements lie between two pointers, then one of them plus its distance to the other is
the other one, and a pointer less its distance from another is that other one. The distance may be
too long for its type. -/
theorem difference_returns (target : cx.target = .ofArch arch)
    (he : cx.Gives e (.pointer pointee a)) (hf : cx.Gives f (.pointer pointee b))
    (ha : cx.target.Spans a.toNat) (hb : cx.target.Spans b.toNat)
    (hs : 1 ≤ cx.target.sizeOf pointee)
    (heven : (cx.target.sizeOf pointee : Int) ∣ byteDistance a b) :
    cx.Gives (.binary .plus f (.binary .minus e f)) (.pointer pointee a)
      ∧ cx.Gives (.binary .plus (.binary .minus e f) f) (.pointer pointee a)
      ∧ cx.Gives (.binary .minus e (.binary .minus e f)) (.pointer pointee b) := by
  rw [target] at ha hb hs heven
  have hdistance := gives_binary rfl he hf (Target.binary_minus_pointers (target ▸ hs))
  simp only [] at hdistance
  rw [target] at hdistance
  have hoperand :
      ((Target.ofArch arch).elementDistance pointee a b).type.isIntegerOperand := by
    rw [Target.elementDistance, Value.ofInt_type]
    cases arch <;> rfl
  have hthere := Target.movePointer_distance heven ha
  have hback := Target.movePointer_distance_back heven hb
  refine ⟨?_, ?_, ?_⟩
  · have hsum := gives_binary rfl hf hdistance (Target.binary_pointer_plus rfl hoperand)
    rwa [target, hthere] at hsum
  · have hsum := gives_binary rfl hdistance hf (Target.binary_plus_pointer hoperand)
    rwa [target, hthere] at hsum
  · have hdifference := gives_binary rfl he hdistance (Target.binary_pointer_minus rfl hoperand)
    rwa [target, hback] at hdifference

/-- Two variables that point to a `char` each, at the ends of a small memory. -/
def apart : EvalContext where
  target := .ofArch .i686
  frame := (Snapshot.empty
    |>.withVariable "p" (.pointer (.scalar .char) 0xFFFFFFFF)
    |>.withVariable "q" (.pointer (.scalar .char) 1)).toFrame

/-- The distance counts as `-2`, and leads from `q` to `p` round memory. -/
theorem difference_returns_apart :
    let difference : Expr := .binary .minus (.var "p") (.var "q")
    apart.Gives (.binary .plus (.var "q") difference) (.pointer (.scalar .char) 0xFFFFFFFF)
      ∧ apart.Gives (.binary .plus difference (.var "q")) (.pointer (.scalar .char) 0xFFFFFFFF)
      ∧ apart.Gives (.binary .minus (.var "p") difference) (.pointer (.scalar .char) 1) := by
  have hp : apart.Gives (.var "p") (.pointer (.scalar .char) 0xFFFFFFFF) := .inl ⟨.none, rfl⟩
  have hq : apart.Gives (.var "q") (.pointer (.scalar .char) 1) := .inl ⟨.none, rfl⟩
  have htarget : apart.target = .ofArch .i686 := rfl
  exact difference_returns htarget hp hq (by decide) (by decide) (by decide) (by decide)

end EvalContext

end Assay
