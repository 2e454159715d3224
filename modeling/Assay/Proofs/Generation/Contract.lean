import Assay.Generation.Generator
import Assay.Generation.Script
import Assay.Proofs.Binary64.Order
import Assay.Proofs.Generation.Weights
import Assay.Proofs.Yields

/-!
# The contract of samplers

An honest sampler answers a request for an operator from the mask, for a kind with one of positive
weight, and for a number with one in range; it may always answer none where none is an answer. A
valid configuration makes proper requests only (`Config.integer_proper`, `Config.double_proper`).
-/

namespace Assay

namespace Request

/-- Ranges are not empty, and those of doubles have finite bounds. -/
def Proper : {α : Type} → Request α → Prop
  | _, integer min max => min ≤ max
  | _, double min max => min.isFinite ∧ max.isFinite ∧ min.le max
  | _, _ => True

/-- Whether an honest sampler may give the answer. -/
def permits : {α : Type} → Request α → α → Bool
  | _, binaryOp mask, op => op.all mask.contains
  | _, unaryOp mask, op => op.all mask.contains
  | _, exprKind weights, kind => kind.all fun kind => Binary64.lt 0 (weights kind)
  | _, typeKind weights, kind => kind.all fun kind => Binary64.lt 0 (weights kind)
  | _, integer min max, n => min ≤ n && n ≤ max
  | _, double min max, x => min.le x && (x.lt max || x == min)
  | _, flag _, _ => true
  | _, qualifiers .., _ => true

theorem permits_of_accepts {α : Type} {request : Request α} {answer : α}
    (h : request.accepts answer) : request.permits answer := by
  cases request with
  | binaryOp | unaryOp | exprKind | typeKind =>
    cases answer with
    | none => rfl
    | some a => exact h
  | integer | double | flag | qualifiers => exact h

end Request

/-- The sampler answers proper requests with what they permit. -/
structure Sampler.Honest {σ : Type} (sampler : Sampler σ) : Prop where
  permits : ∀ {α : Type} (request : Request α) (s : σ), request.Proper →
    request.permits (sampler.answer request s).1

theorem Request.lt_of_mem_viableKinds {κ : Type} [Kind κ] {weights : κ → Binary64} {kind : κ}
    (h : kind ∈ viableKinds weights) : Binary64.lt 0 (weights kind) :=
  (List.mem_filter.mp h).2

theorem Request.simplestKind?_viable {κ : Type} [Kind κ] (weights : κ → Binary64) :
    (simplestKind? weights).all fun kind => Binary64.lt 0 (weights kind) := by
  rw [Option.all_eq_true]
  intro kind hk
  simp only [simplestKind?, Option.orElse_eq_orElse, Option.orElse_eq_or] at hk
  rcases Option.or_eq_some_iff.mp hk with hk | ⟨-, hk⟩
  · exact lt_of_mem_viableKinds (List.mem_of_find?_eq_some hk)
  · exact lt_of_mem_viableKinds (List.mem_of_head? hk)

theorem Mask.head?_toList_contains {α : Type} [Enumerated α] (mask : Mask α) :
    mask.toList.head?.all mask.contains := by
  rw [Option.all_eq_true]
  exact fun a ha => mem_toList.mp (List.mem_of_head? ha)

/-- The simplest answer is a valid one. -/
theorem Request.permits_simplest {α : Type} {request : Request α} (h : request.Proper) :
    request.permits request.simplest := by
  cases request with
  | binaryOp mask | unaryOp mask => exact mask.head?_toList_contains
  | exprKind weights | typeKind weights => exact simplestKind?_viable weights
  | integer min max =>
    simp only [permits, simplest, Bool.and_eq_true]
    exact ⟨decide_eq_true (UInt64.le_refl min), decide_eq_true h⟩
  | double min max =>
    obtain ⟨n, hn, -⟩ := Binary64.rank?_of_isFinite h.1
    have hle : min.le min := (Binary64.le_iff hn hn).mpr (Int.le_refl n)
    have heq : (min == min) = true := (Binary64.beq_iff hn hn).mpr rfl
    simp [permits, simplest, hle, heq]
  | flag | qualifiers => rfl

/-- A script answers honestly, whatever its choices are. -/
theorem Script.sampler_honest : Script.sampler.Honest where
  permits := by
    intro α request script hp
    rcases script with ⟨_ | ⟨choice, rest⟩, mismatches⟩
    · exact Request.permits_simplest hp
    · simp only [Script.sampler]
      cases hv : validAnswer? request choice with
      | none => exact Request.permits_simplest hp
      | some answer =>
        exact Request.permits_of_accepts (Option.filter_eq_some_iff.mp hv).2

namespace Config

variable {config : Config}

theorem problem?_eq_none_iff : config.problem? = none ↔
    config.integerProblem? = none ∧ config.doubleProblem? = none
      ∧ config.probabilityProblem? = none ∧ config.exprWeights.problem? = none
      ∧ config.typeWeights.problem? = none ∧ config.terminalProblem? = none
      ∧ config.operatorProblem? = none ∧ config.fieldProblem? = none
      ∧ config.terminalTypeProblem? = none ∧ config.tagProblem? = none := by
  simp [problem?]

theorem integer_proper (h : config.problem? = none) :
    (Request.integer config.integerMin config.integerMax).Proper := by
  obtain ⟨hi, -⟩ := problem?_eq_none_iff.mp h
  unfold integerProblem? at hi
  split at hi
  · cases hi
  · rename_i hlt
    exact UInt64.not_lt.mp hlt

theorem double_proper (h : config.problem? = none) :
    (Request.double config.doubleMin config.doubleMax).Proper := by
  obtain ⟨-, hd, -⟩ := problem?_eq_none_iff.mp h
  simp only [doubleProblem?] at hd
  split at hd
  · cases hd
  · rename_i hbad
    simp only [Bool.or_eq_true, not_or, Bool.not_eq_true, Bool.not_eq_false'] at hbad
    obtain ⟨⟨⟨hmin, hmax⟩, hlt⟩, -⟩ := hbad
    exact ⟨hmin, hmax, Binary64.le_of_not_lt hmin hmax hlt⟩

/-- A kind with a positive weight at some depth has one at the root. -/
theorem enables_of_pos (h : config.problem? = none) {depth : Nat} {kind : ExprKind}
    (hpos : Binary64.lt 0 (config.exprWeightsAt depth kind)) : config.enables kind := by
  obtain ⟨-, -, -, hexprs, -⟩ := problem?_eq_none_iff.mp h
  exact WeightTable.initial_pos_of_atDepth_pos hexprs hpos

end Config

namespace Generator

variable {σ α : Type} {g : Generator σ}

theorem ask_yields (h : g.sampler.Honest) {request : Request α} (hp : request.Proper) :
    Yields (g.ask request) fun a => request.permits a := by
  intro s a ha
  have : (g.sampler.answer request s).1 = a := Except.ok.inj ha
  rw [← this]
  exact h.permits request s hp

theorem askFor_yields (h : g.sampler.Honest) (request : Request (Option α)) (hp : request.Proper)
    (e : GenError) : Yields (g.askFor request e) fun a => request.permits (some a) := by
  refine (ask_yields h hp).bind fun answer hanswer => ?_
  cases answer with
  | none => exact yields_throw e
  | some a => exact yields_pure hanswer

end Generator

end Assay
