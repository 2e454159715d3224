import Assay.Generation.Script
import Assay.Proofs.Generation.Contract
import Assay.Proofs.Generation.Production
import Assay.Proofs.Generation.Weights

/-!
# Kinds to choose from

With a valid configuration there is a kind to choose at the root, and if some enabled kind that ends
the recursion never fades, there is one at every depth, and generation never ends for want of a kind
(`viable_of_steady`). Where all such kinds fade, there may be none (`stuck_of_fading`).
-/

namespace Assay

/-- The sampler gives a kind wherever one has a positive weight. -/
structure Sampler.Responsive {σ : Type} (sampler : Sampler σ) : Prop where
  exprKind : ∀ (weights : ExprKind → Binary64) (s : σ), (∃ kind, Binary64.lt 0 (weights kind)) →
    (sampler.answer (.exprKind weights) s).1.isSome
  typeKind : ∀ (weights : TypeKind → Binary64) (s : σ), (∃ kind, Binary64.lt 0 (weights kind)) →
    (sampler.answer (.typeKind weights) s).1.isSome

theorem Request.simplestKind?_isSome {κ : Type} [Kind κ] {weights : κ → Binary64}
    (h : ∃ kind, Binary64.lt 0 (weights kind)) : (simplestKind? weights).isSome := by
  obtain ⟨kind, hk⟩ := h
  have hmem : kind ∈ viableKinds weights := List.mem_filter.mpr ⟨Enumerated.mem_all kind, hk⟩
  have hhead : (viableKinds weights).head?.isSome :=
    List.isSome_head?.mpr (List.ne_nil_of_mem hmem)
  simp only [simplestKind?, Option.orElse_eq_orElse, Option.orElse_eq_or, Option.isSome_or, hhead,
    Bool.or_true]

/-- A kind that ends the recursion is simpler than any other. -/
theorem Request.simplestKind?_terminal {κ : Type} [Kind κ] {weights : κ → Binary64} {kind : κ}
    (h : ∃ kind, Kind.isRecursive kind = false ∧ Binary64.lt 0 (weights kind))
    (hk : simplestKind? weights = some kind) : Kind.isRecursive kind = false := by
  obtain ⟨terminal, ht, hpos⟩ := h
  have hmem : terminal ∈ viableKinds weights :=
    List.mem_filter.mpr ⟨Enumerated.mem_all terminal, hpos⟩
  simp only [simplestKind?, Option.orElse_eq_orElse, Option.orElse_eq_or] at hk
  rcases Option.or_eq_some_iff.mp hk with hk | ⟨hnone, -⟩
  · simpa using List.find?_some hk
  · have hall := List.find?_eq_none.mp hnone terminal hmem
    rw [ht] at hall
    cases hall rfl

theorem Mask.not_contains_of_head? {α : Type} [Enumerated α] {mask : Mask α}
    (h : mask.toList.head? = none) (a : α) : mask.contains a = false := by
  have hnil : mask.toList = [] := List.head?_eq_none_iff.mp h
  rw [Bool.eq_false_iff, ne_eq, ← mem_toList, hnil]
  exact List.not_mem_nil

/-- Where the simplest answer is none, so is every other one. -/
theorem Request.eq_simplest_of_unlogged {α : Type} {request : Request α}
    (h : request.log? request.simplest = none) {other : α} (hp : request.permits other) :
    other = request.simplest := by
  cases request with
  | binaryOp mask | unaryOp mask =>
    have hs : mask.toList.head? = none := Option.map_eq_none_iff.mp h
    rcases other with _ | op
    · exact hs.symm
    · simp [permits, Mask.not_contains_of_head? hs op] at hp
  | exprKind weights | typeKind weights =>
    simp only [log?, simplest, Option.map_eq_none_iff] at h ⊢
    rcases other with _ | kind
    · exact h.symm
    · have hsome := simplestKind?_isSome ⟨kind, hp⟩
      rw [h] at hsome
      cases hsome
  | integer | double | flag | qualifiers => cases h

theorem Script.answer_isSome {α : Type} {request : Request (Option α)}
    (hsimplest : request.simplest.isSome)
    (hread : ∀ choice answer, request.read? choice = some answer → answer.isSome) (s : Script) :
    (Script.sampler.answer request s).1.isSome := by
  rcases s with ⟨_ | ⟨choice, rest⟩, mismatches⟩
  · exact hsimplest
  · simp only [Script.sampler]
    cases hv : validAnswer? request choice with
    | none => exact hsimplest
    | some answer => exact hread choice answer (Option.filter_eq_some_iff.mp hv).1

theorem Script.sampler_responsive : Script.sampler.Responsive where
  exprKind weights s hk := by
    have hs : (Request.exprKind weights).simplest.isSome := Request.simplestKind?_isSome hk
    refine Script.answer_isSome hs (fun choice answer h => ?_) s
    cases choice <;> cases h
    rfl
  typeKind weights s hk := by
    have hs : (Request.typeKind weights).simplest.isSome := Request.simplestKind?_isSome hk
    refine Script.answer_isSome hs (fun choice answer h => ?_) s
    cases choice <;> cases h
    rfl

namespace Config

variable {config : Config}

/-- At every depth some kind that ends the recursion has a positive weight. -/
def AlwaysEnds (config : Config) : Prop :=
  ∀ depth, ∃ kind, Kind.isRecursive kind = false ∧ Binary64.lt 0 (config.exprWeightsAt depth kind)

theorem AlwaysEnds.exists_simplest (ends : config.AlwaysEnds) (depth : Nat) :
    ∃ kind, Request.simplestKind? (config.exprWeightsAt depth) = some kind := by
  obtain ⟨kind, -, hpos⟩ := ends depth
  exact Option.isSome_iff_exists.mp (Request.simplestKind?_isSome ⟨kind, hpos⟩)

theorem alwaysEnds_of_steady (h : config.problem? = none) (hsteady : config.exprWeights.Steady) :
    config.AlwaysEnds := by
  obtain ⟨-, -, -, hexprs, -⟩ := problem?_eq_none_iff.mp h
  exact hsteady.exists_atDepth_pos hexprs config.maxDepth

theorem exists_terminal (h : config.problem? = none) :
    ∃ kind, Kind.isRecursive kind = false ∧ config.enables kind := by
  obtain ⟨-, -, -, -, -, ht, -⟩ := problem?_eq_none_iff.mp h
  unfold terminalProblem? at ht
  split at ht
  · rename_i hany
    obtain ⟨kind, -, hk⟩ := List.any_eq_true.mp hany
    rw [Bool.and_eq_true, Bool.not_eq_true'] at hk
    exact ⟨kind, hk⟩
  · cases ht

theorem exists_terminalType (h : config.problem? = none) (hany : ∃ kind, config.enablesType kind) :
    ∃ kind, Kind.isRecursive kind = false ∧ config.enablesType kind := by
  obtain ⟨-, -, -, -, -, -, -, -, ht, -⟩ := problem?_eq_none_iff.mp h
  obtain ⟨kind, hk⟩ := hany
  have hall : (Enumerated.all : List TypeKind).any config.enablesType :=
    List.any_eq_true.mpr ⟨kind, Enumerated.mem_all kind, hk⟩
  simp only [terminalTypeProblem?, hall, Bool.true_and] at ht
  split at ht
  · cases ht
  · rename_i hterminal
    rw [Bool.not_eq_true, Bool.not_eq_false', Bool.or_eq_true] at hterminal
    rcases hterminal with hs | ht
    · exact ⟨.scalar, rfl, hs⟩
    · exact ⟨.tagged, rfl, ht⟩

theorem fieldNames_ne_nil (h : config.problem? = none) {kind : ExprKind}
    (hk : kind = .member ∨ kind = .memberOfPointer) (hen : config.enables kind) :
    config.fieldNames.isEmpty = false := by
  obtain ⟨-, -, -, -, -, -, -, hf, -⟩ := problem?_eq_none_iff.mp h
  have hmem : kind ∈ [ExprKind.member, .memberOfPointer] := by simpa using hk
  have hnone := List.findSome?_eq_none_iff.mp hf kind hmem
  rw [hen, Bool.true_and] at hnone
  rw [← Bool.not_eq_true]
  intro hempty
  rw [if_pos hempty] at hnone
  cases hnone

end Config

theorem isSome_getElem?_toNat {α : Type} {items : List α} (h : items.isEmpty = false)
    {i : UInt64} (hi : i ≤ UInt64.ofNat (items.length - 1)) : items[i.toNat]?.isSome := by
  have hpos : 0 < items.length :=
    List.length_pos_iff.mpr (List.isEmpty_eq_false_iff.mp h)
  have hle : i.toNat ≤ items.length - 1 := by
    refine (UInt64.le_iff_toNat_le.mp hi).trans ?_
    rw [UInt64.toNat_ofNat']
    exact Nat.mod_le _ _
  have hlt : i.toNat < items.length := by omega
  rw [List.getElem?_eq_getElem hlt]
  rfl

theorem TypeKind.ne_reference {kind : TypeKind} (h : Kind.isRecursive kind = false) :
    kind ≠ .reference := by
  rintro rfl
  cases h

namespace Generator

variable {σ : Type} {g : Generator σ} {E : GenError → Prop}

theorem ask_failsWith {α : Type} (request : Request α) : FailsWith (g.ask request) E := by
  intro s e h
  cases h

theorem askFor_failsWith {α : Type} {request : Request (Option α)} {e : GenError} (he : E e) :
    FailsWith (g.askFor request e) E := by
  refine (ask_failsWith request).bind fun answer => ?_
  cases answer with
  | none => exact failsWith_throw he
  | some a => exact failsWith_pure a

/-- A request that has an answer in every state does not fail. -/
theorem askFor_failsWith_of_isSome {α : Type} {request : Request (Option α)}
    (h : ∀ s, (g.sampler.answer request s).1.isSome) (e : GenError) :
    FailsWith (g.askFor request e) E := by
  intro s e' he
  obtain ⟨a, ha⟩ := Option.isSome_iff_exists.mp (h s)
  rw [run_askFor, ha] at he
  cases he

theorem pick?_failsWith {α : Type} (items : List α) : FailsWith (g.pick? items) E := by
  unfold pick?
  split
  · exact failsWith_pure none
  · exact (ask_failsWith _).bind fun i => failsWith_pure _

theorem pickName_failsWith {names : List String} {what : String} (he : E (.noNames what)) :
    FailsWith (g.pickName names what) E := by
  refine (pick?_failsWith names).bind fun picked => ?_
  cases picked with
  | none => exact failsWith_throw he
  | some name => exact failsWith_pure name

section Nodes

variable (hop : ∀ kind, E (.noOperator kind)) (hnames : ∀ what, E (.noNames what))

include hop hnames in
theorem production_failsWith {child : Gen σ Expr} (hchild : FailsWith child E) (kind : ExprKind) :
    FailsWith (g.production child kind) E := by
  cases kind with
  | integer | double | boolean => exact (ask_failsWith _).bind fun a => failsWith_pure _
  | var | addressOf => exact failsWith_pure _
  | unary =>
    exact (askFor_failsWith (hop _)).bind fun op => hchild.bind fun operand => failsWith_pure _
  | binary =>
    exact (askFor_failsWith (hop _)).bind fun op =>
      hchild.bind fun lhs => hchild.bind fun rhs => failsWith_pure _
  | member | memberOfPointer =>
    exact (pickName_failsWith (hnames _)).bind fun field => failsWith_pure _
  | index => exact hchild.bind fun index => failsWith_pure _
  | conditional =>
    exact hchild.bind fun cond => hchild.bind fun lhs => hchild.bind fun rhs => failsWith_pure _

include hop hnames in
theorem exprAt_failsWith (hdeep : E .tooDeep)
    (hkind : ∀ depth, FailsWith
      (g.askFor (.exprKind (g.config.exprWeightsAt depth)) (.noExprKind depth)) E)
    (fuel depth : Nat) : FailsWith (g.exprAt fuel depth) E := by
  induction fuel generalizing depth with
  | zero => exact failsWith_throw hdeep
  | succ fuel ih =>
    rw [exprAt_succ]
    refine (hkind depth).bind fun kind => ?_
    refine (production_failsWith hop hnames (ih (depth + 1)) kind).bind fun e => ?_
    exact (ask_failsWith _).bind fun paren => failsWith_pure _

include hnames in
theorem typeProduction_failsWith {child : Gen σ SourceType} (hchild : FailsWith child E)
    (kind : TypeKind) : FailsWith (g.typeProduction child kind) E := by
  cases kind with
  | scalar =>
    exact (pick?_failsWith _).bind fun scalar => (ask_failsWith _).bind fun cv => failsWith_pure _
  | tagged =>
    exact (pickName_failsWith (hnames _)).bind fun name =>
      (ask_failsWith _).bind fun cv => failsWith_pure _
  | pointer => exact hchild.bind fun pointee => (ask_failsWith _).bind fun cv => failsWith_pure _
  | reference => exact hchild.bind fun referee => failsWith_pure _

include hnames in
theorem typeAt_failsWith (hdeep : E .tooDeep)
    (hkind : ∀ allowReference depth, FailsWith
      (g.askFor (.typeKind (g.typeWeights allowReference depth)) (.noTypeKind depth)) E)
    (fuel depth : Nat) (allowReference : Bool) :
    FailsWith (g.typeAt fuel depth allowReference) E := by
  induction fuel generalizing depth allowReference with
  | zero => exact failsWith_throw hdeep
  | succ fuel ih =>
    rw [typeAt_succ]
    refine (hkind allowReference depth).bind fun kind => ?_
    exact typeProduction_failsWith hnames (ih (depth + 1) false) kind

end Nodes

theorem typeWeights_of_ne_reference {kind : TypeKind} (h : kind ≠ .reference)
    (allowReference : Bool) (depth : Nat) :
    g.typeWeights allowReference depth kind = g.config.typeWeightsAt depth kind := by
  rw [typeWeights, decide_eq_false h, Bool.and_false]
  rfl

section Responsive

variable (responsive : g.sampler.Responsive)

include responsive

theorem expr_not_stuck
    (viable : ∀ depth, ∃ kind, Binary64.lt 0 (g.config.exprWeightsAt depth kind)) (s : σ)
    (depth : Nat) : (g.expr.run s).1 ≠ .error (.noExprKind depth) := by
  intro hr
  have hfails : FailsWith g.expr fun e => ∀ depth, e ≠ .noExprKind depth :=
    exprAt_failsWith (fun _ _ => nofun) (fun _ _ => nofun) nofun (fun depth =>
      askFor_failsWith_of_isSome (fun s => responsive.exprKind _ s (viable depth)) _) _ _
  exact hfails s _ hr depth rfl

/-- Below the root a reference is no choice, so another kind has to be one. -/
theorem type_not_stuck
    (viable : ∀ depth, ∃ kind ≠ .reference, Binary64.lt 0 (g.config.typeWeightsAt depth kind))
    (s : σ) (depth : Nat) : (g.type.run s).1 ≠ .error (.noTypeKind depth) := by
  intro hr
  have hanswers (allowReference : Bool) (depth : Nat) (s : σ) :
      (g.sampler.answer (.typeKind (g.typeWeights allowReference depth)) s).1.isSome := by
    obtain ⟨kind, hk, hpos⟩ := viable depth
    rw [← typeWeights_of_ne_reference hk allowReference depth] at hpos
    exact responsive.typeKind _ s ⟨kind, hpos⟩
  have hfails : FailsWith g.type fun e => ∀ depth, e ≠ .noTypeKind depth :=
    typeAt_failsWith (fun _ _ => nofun) nofun (fun allowReference depth =>
      askFor_failsWith_of_isSome (hanswers allowReference depth) _) _ _ _
  exact hfails s _ hr depth rfl

/-- A valid configuration has a kind to choose at the root. If some enabled kind that ends the
recursion never fades, it has one at every depth, and generation does not fail for want of one. -/
theorem viable_of_steady (valid : g.config.problem? = none) :
    (∃ kind, Binary64.lt 0 (g.config.exprWeightsAt 0 kind))
      ∧ (g.config.exprWeights.Steady →
        (∀ depth, ∃ kind, Binary64.lt 0 (g.config.exprWeightsAt depth kind))
          ∧ ∀ s depth, (g.expr.run s).1 ≠ .error (.noExprKind depth))
      ∧ ((∃ kind, g.config.enablesType kind) →
        ∃ kind ≠ .reference, Binary64.lt 0 (g.config.typeWeightsAt 0 kind))
      ∧ (g.config.typeWeights.Steady →
        (∀ depth, ∃ kind ≠ .reference, Binary64.lt 0 (g.config.typeWeightsAt depth kind))
          ∧ ∀ s depth, (g.type.run s).1 ≠ .error (.noTypeKind depth)) := by
  obtain ⟨-, -, -, hexprs, htypes, -⟩ := Config.problem?_eq_none_iff.mp valid
  refine ⟨?_, fun hsteady => ?_, fun hany => ?_, fun hsteady => ?_⟩
  · obtain ⟨kind, hk, hpos⟩ := Config.exists_terminal valid
    exact ⟨kind, WeightTable.atDepth_zero_pos hexprs hk hpos⟩
  · have hviable (depth : Nat) : ∃ kind, Binary64.lt 0 (g.config.exprWeightsAt depth kind) := by
      obtain ⟨kind, -, hpos⟩ := hsteady.exists_atDepth_pos hexprs g.config.maxDepth depth
      exact ⟨kind, hpos⟩
    exact ⟨hviable, expr_not_stuck responsive hviable⟩
  · obtain ⟨kind, hk, hpos⟩ := Config.exists_terminalType valid hany
    exact ⟨kind, TypeKind.ne_reference hk, WeightTable.atDepth_zero_pos htypes hk hpos⟩
  · have hviable (depth : Nat) :
        ∃ kind ≠ .reference, Binary64.lt 0 (g.config.typeWeightsAt depth kind) := by
      obtain ⟨kind, hk, hpos⟩ := hsteady.exists_atDepth_pos htypes g.config.maxDepth depth
      exact ⟨kind, TypeKind.ne_reference hk, hpos⟩
    exact ⟨hviable, type_not_stuck responsive hviable⟩

end Responsive

theorem viable_of_steady_default :
    let g : Generator Script := { config := {}, sampler := Script.sampler }
    (∀ depth, ∃ kind, Binary64.lt 0 (g.config.exprWeightsAt depth kind))
      ∧ (∀ s depth, (g.expr.run s).1 ≠ .error (.noExprKind depth))
      ∧ (∀ depth, ∃ kind ≠ .reference, Binary64.lt 0 (g.config.typeWeightsAt depth kind))
      ∧ ∀ s depth, (g.type.run s).1 ≠ .error (.noTypeKind depth) := by
  intro g
  have hexprs : g.config.exprWeights.Steady :=
    ⟨.integer, rfl, by decide +kernel, by decide +kernel⟩
  have htypes : g.config.typeWeights.Steady :=
    ⟨.scalar, rfl, by decide +kernel, by decide +kernel⟩
  obtain ⟨-, he, -, ht⟩ :=
    viable_of_steady (g := g) Script.sampler_responsive (by decide +kernel)
  exact ⟨(he hexprs).1, (he hexprs).2, (ht htypes).1, (ht htypes).2⟩

end Generator

/-- Integers and scalars are the only kinds that end the recursion, and they are gone below the
root. -/
def Config.fading : Config where
  exprWeights := (WeightTable.zeroed.set .integer ⟨1, 1⟩).set .unary ⟨1, 0⟩
  typeWeights := (WeightTable.zeroed.set .scalar ⟨1, 1⟩).set .pointer ⟨1, 0⟩
  maxDepth := some 1

/-- A valid configuration under which an operand of an operator, or what a pointer points to, has no
kind to choose. -/
theorem stuck_of_fading :
    let g : Generator Script := { config := .fading, sampler := Script.sampler }
    g.config.problem? = none ∧ g.sampler.Responsive
      ∧ (∀ kind, Binary64.lt 0 (g.config.exprWeightsAt 1 kind) = false)
      ∧ (g.expr.run ⟨[.exprKind .unary], 0⟩).1 = .error (.noExprKind 1)
      ∧ g.config.enablesType .scalar
      ∧ (∀ kind, Binary64.lt 0 (g.config.typeWeightsAt 1 kind) = false)
      ∧ (g.type.run ⟨[.typeKind .pointer], 0⟩).1 = .error (.noTypeKind 1) := by
  intro g
  refine ⟨by decide +kernel, Script.sampler_responsive, fun kind => ?_, by decide +kernel,
    by decide +kernel, fun kind => ?_, by decide +kernel⟩
  · cases kind <;> decide +kernel
  · cases kind <;> decide +kernel

end Assay
