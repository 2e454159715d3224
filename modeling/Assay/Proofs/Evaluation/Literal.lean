import Assay.Evaluation.Basic
import Assay.Proofs.Ty.Widening
import Mathlib.Algebra.Group.Nat.Defs

/-!
# Types of integer literals

Base and suffix of an integer literal say which types it may have, from short to long: none shorter
than the suffix asks for, signed ones unless the suffix says `U`, and unsigned ones if it does or if
the base is not decimal (`candidates_eq_standard`). The literal has the first of these types that
has room for its value, and `unsigned long long` where none has, so its value is never cut
(`integer_typed`).
-/

namespace Assay

/-- The signed type that a suffix asks for at least. -/
def Length.type : Length → ScalarType
  | .int => .int
  | .long => .long
  | .longLong => .longLong

namespace Target

/-- How many bits of a type are there for integers that are not negative. -/
def valueBits (target : Target) (s : ScalarType) : Nat :=
  target.scalarWidth s - if target.scalarSigned s then 1 else 0

theorem scalarRange_contains_natCast {target : Target} {s : ScalarType} (hb : s ≠ .bool) (n : Nat) :
    (target.scalarRange s).contains n ↔ n < 2 ^ target.valueBits s := by
  -- ranges are computed with `Nat.pow`, which `2 ^ _` is only by definition here
  have hpos : 0 < Nat.pow 2 (target.valueBits s) := Nat.two_pow_pos _
  change _ ↔ n < Nat.pow 2 (target.valueBits s)
  rw [scalarRange, if_neg hb, IntRange.contains_iff]
  unfold valueBits at hpos ⊢
  split <;> simp_all only [IntRange.signed, IntRange.unsigned, ↓reduceIte, Nat.sub_zero] <;> omega

/-- The type is the first of a list with room for a number, or `unsigned long long` where none of
them has room. -/
def FirstWithRoom (target : Target) (types : List ScalarType) (n : Nat) (s : ScalarType) : Prop :=
  (∃ before after, types = before ++ s :: after ∧ n < 2 ^ target.valueBits s
      ∧ ∀ t ∈ before, ¬ n < 2 ^ target.valueBits t)
    ∨ s = .unsignedLongLong ∧ ∀ t ∈ types, ¬ n < 2 ^ target.valueBits t

end Target

namespace IntegerLiteral

/-- The types from `int` on by rank, of each rank the signed one first. -/
def ranked : List ScalarType :=
  [.int, .unsignedInt, .long, .unsignedLong, .longLong, .unsignedLongLong]

/-- Whether the base and the suffix of a literal let it have a type. -/
def allows (literal : IntegerLiteral) (s : ScalarType) : Bool :=
  literal.length.type.rank ≤ s.rank &&
    if s = s.unsignedCounterpart then literal.isUnsigned || literal.base != .decimal
    else !literal.isUnsigned

variable {literal : IntegerLiteral} {target : Target}

theorem candidates_eq_standard (literal : IntegerLiteral) :
    literal.candidates = ranked.filter literal.allows := by
  obtain ⟨value, base, length, isUnsigned⟩ := literal
  cases base <;> cases length <;> cases isUnsigned <;> rfl

theorem facts_of_mem_candidates {s : ScalarType} (h : s ∈ literal.candidates) :
    s.IsPromoted ∧ literal.length.type.rank ≤ s.rank
      ∧ (literal.isUnsigned → s = s.unsignedCounterpart) := by
  rw [candidates_eq_standard, List.mem_filter] at h
  obtain ⟨hs, hallows⟩ := h
  rw [allows, Bool.and_eq_true, decide_eq_true_iff] at hallows
  refine ⟨?_, hallows.1, fun hu => ?_⟩
  · have hall : ∀ s ∈ ranked, ScalarType.int.rank ≤ s.rank ∧ s.isIntegral := by decide
    exact ⟨(hall s hs).1, (hall s hs).2⟩
  · by_contra hne
    simp [hne, hu] at hallows

theorem firstWithRoom_type (literal : IntegerLiteral) (target : Target) :
    target.FirstWithRoom literal.candidates literal.value.toNat (literal.type target) := by
  have hroom {s : ScalarType} (hs : s ∈ literal.candidates) :
      (target.scalarRange s).contains literal.value.toNat ↔
        literal.value.toNat < 2 ^ target.valueBits s :=
    Target.scalarRange_contains_natCast (facts_of_mem_candidates hs).1.ne_bool _
  rw [type]
  cases hfind : literal.candidates.find? fun s =>
    (target.scalarRange s).contains literal.value.toNat with
  | some s =>
    obtain ⟨hs, before, after, hsplit, hbefore⟩ := List.find?_eq_some_iff_append.mp hfind
    have hmem {t : ScalarType} (ht : t ∈ before ++ s :: after) : t ∈ literal.candidates :=
      hsplit ▸ ht
    refine .inl ⟨before, after, hsplit, (hroom (hmem (by simp))).mp hs, fun t ht => ?_⟩
    rw [← hroom (hmem (by simp [ht]))]
    simpa using hbefore t ht
  | none =>
    refine .inr ⟨rfl, fun t ht => ?_⟩
    rw [← hroom ht]
    exact List.find?_eq_none.mp hfind t ht

theorem facts_of_type (literal : IntegerLiteral) (target : Target) :
    (literal.type target).IsPromoted ∧ literal.length.type.rank ≤ (literal.type target).rank
      ∧ (literal.isUnsigned → literal.type target = (literal.type target).unsignedCounterpart)
      ∧ literal.value.toNat < 2 ^ target.valueBits (literal.type target) := by
  obtain ⟨before, after, hsplit, hroom, -⟩ | ⟨htype, -⟩ := literal.firstWithRoom_type target
  · have hmem : literal.type target ∈ literal.candidates := by
      rw [hsplit]
      simp
    obtain ⟨hpromoted, hrank, hunsigned⟩ := facts_of_mem_candidates hmem
    exact ⟨hpromoted, hrank, hunsigned, hroom⟩
  · rw [htype]
    refine ⟨⟨by decide, rfl⟩, ?_, fun _ => rfl, literal.value.toNat_lt⟩
    cases literal.length <;> decide

end IntegerLiteral

namespace EvalContext

variable {cx : EvalContext}

theorem evaluateIn_integer (cx : EvalContext) (session : Session) (literal : IntegerLiteral) :
    (cx.evaluateIn session (.integer literal)).1 = .ok ⟨literal.toValue cx.target, .none⟩ :=
  rfl

/-- An integer literal has the value it is written with. Its type is no shorter than its suffix asks
for and unsigned if the suffix says so; it is the first of those that base and suffix allow with
room for the value, or else `unsigned long long`. -/
theorem integer_typed {arch : Arch} (target : cx.target = .ofArch arch) (session : Session)
    (literal : IntegerLiteral) :
    ∃ s v, (cx.evaluateIn session (.integer literal)).1 = .ok ⟨v, .none⟩
      ∧ v.toInt? = some (literal.value.toNat : Int)
      ∧ v.type = .scalar s ∧ v.WellFormed cx.target
      ∧ literal.length.type.rank ≤ s.rank
      ∧ (literal.isUnsigned → cx.target.scalarSigned s = false)
      ∧ cx.target.FirstWithRoom (IntegerLiteral.ranked.filter literal.allows) literal.value.toNat
          s := by
  have hw : cx.target.FitsWord := by
    rw [target]
    exact Target.fitsWord_ofArch arch
  obtain ⟨hpromoted, hrank, hunsigned, hroom⟩ := literal.facts_of_type cx.target
  refine ⟨literal.type cx.target, literal.toValue cx.target, cx.evaluateIn_integer session literal,
    ?_, Value.ofInt_type _ _, (Value.isResidue_ofInt hw hpromoted _).wellFormed, hrank,
    fun hu => ?_, ?_⟩
  · refine Value.toInt?_ofInt_of_contains hw hpromoted.ne_bool ?_
    exact (Target.scalarRange_contains_natCast hpromoted.ne_bool _).mpr hroom
  · rw [hunsigned hu]
    exact Target.scalarSigned_unsignedCounterpart hpromoted
  · rw [← literal.candidates_eq_standard]
    exact literal.firstWithRoom_type cx.target

/-- Nothing is declared, and `long` has 32 bits. -/
def bareWindows : EvalContext where
  target := .ofArch .x86_64Windows
  frame := Snapshot.empty.toFrame

/-- `2147483648` fits neither `int` nor `long`, and stays signed. -/
theorem integer_typed_past_long :
    let v : Value := ⟨.scalar .longLong, .signed 2147483648⟩
    (bareWindows.evaluateIn {} (.integer { value := 2147483648 })).1 = .ok ⟨v, .none⟩
      ∧ v.toInt? = some 2147483648 ∧ v.WellFormed bareWindows.target
      ∧ bareWindows.target.FirstWithRoom [.int, .long, .longLong] 2147483648 .longLong := by
  intro v
  have htarget : bareWindows.target = .ofArch .x86_64Windows := rfl
  have hrun : (bareWindows.evaluateIn {} (.integer { value := 2147483648 })).1 =
    .ok ⟨v, .none⟩ := rfl
  obtain ⟨s, w, hw, hvalue, htype, hwellFormed, -, -, hfirst⟩ :=
    integer_typed htarget {} { value := 2147483648 }
  obtain ⟨rfl, -⟩ := Evaluation.mk.inj (Except.ok.inj (hrun.symm.trans hw))
  obtain rfl : ScalarType.longLong = s := Ty.scalar.inj htype
  exact ⟨hrun, hvalue, hwellFormed, hfirst⟩

end EvalContext

end Assay
