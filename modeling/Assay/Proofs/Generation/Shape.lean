import Assay.Proofs.Generation.Equipped
import Assay.Proofs.Generation.Readable

/-!
# The shape of generated types

Below the root references weigh nothing, so a node there gives a type without references
(`typeAt_yields_plain`), however many pointers it goes through. At the root a reference may stand on
top of such a type, and has no qualifiers (`type_yields`). So a generated type is a reference at its
outermost level or nowhere (`type_shaped`).
-/

namespace Assay

namespace SourceType

/-- The kind of the outermost level. -/
def kind : SourceType → TypeKind
  | scalar .. => .scalar
  | tagged .. => .tagged
  | pointer .. => .pointer
  | reference .. => .reference

/-- What a pointer points to or a reference refers to. -/
def inner? : SourceType → Option SourceType
  | scalar .. | tagged .. => none
  | pointer inner _ | reference inner _ => some inner

/-- The type and everything that it points or refers to, the outermost first. -/
def nodes : SourceType → List SourceType
  | scalar s cv => [.scalar s cv]
  | tagged name cv => [.tagged name cv]
  | pointer inner cv => .pointer inner cv :: inner.nodes
  | reference inner cv => .reference inner cv :: inner.nodes

theorem mem_nodes_self (type : SourceType) : type ∈ type.nodes := by
  cases type <;> exact List.mem_cons_self

theorem nodes_eq_cons_tail (type : SourceType) : type.nodes = type :: type.nodes.tail := by
  cases type <;> rfl

/-- What a level points or refers to is a level further in. -/
theorem inner_mem_tail {type node inner : SourceType} (hnode : node ∈ type.nodes)
    (hinner : inner ∈ node.inner?) : inner ∈ type.nodes.tail := by
  induction type with
  | scalar s cv | tagged name cv =>
    cases List.mem_singleton.mp hnode
    cases hinner
  | pointer below cv ih | reference below cv ih =>
    rcases List.mem_cons.mp hnode with rfl | hbelow
    · cases hinner
      exact mem_nodes_self _
    · exact List.mem_of_mem_tail (ih hbelow)

/-- What a configuration lets the levels of a type be. -/
structure Shaped (config : Config) (type : SourceType) : Prop where
  /-- There is no more than one reference. -/
  once : type.nodes.countP isReference ≤ 1
  /-- A reference stands nowhere but outermost. -/
  outermost : ∀ node ∈ type.nodes.tail, node.isReference = false
  /-- Nothing points or refers to a reference. -/
  direct : ∀ node ∈ type.nodes, ∀ inner ∈ node.inner?, inner.isReference = false
  /-- A reference has no qualifiers. -/
  bare : ∀ node ∈ type.nodes, node.isReference → node.qualifiers = .none
  /-- The names are among the configured ones. -/
  known : ∀ name cv, .tagged name cv ∈ type.nodes → name ∈ config.tagNames
  /-- A kind whose initial weight is not positive does not occur. -/
  enabled : ∀ node ∈ type.nodes, config.enablesType node.kind

/-- The types that a configuration allows below the root: pointers to pointers down to a base. -/
inductive Plain (config : Config) : SourceType → Prop
  | scalar {s : ScalarType} {cv : Qualifiers} (enabled : config.enablesType .scalar) :
    Plain config (.scalar s cv)
  | tagged {name : String} {cv : Qualifiers} (enabled : config.enablesType .tagged)
    (known : name ∈ config.tagNames) : Plain config (.tagged name cv)
  | pointer {pointee : SourceType} {cv : Qualifiers} (enabled : config.enablesType .pointer)
    (inner : Plain config pointee) : Plain config (.pointer pointee cv)

/-- The types that a configuration allows at the root. -/
inductive Rooted (config : Config) : SourceType → Prop
  | plain {type : SourceType} (plain : Plain config type) : Rooted config type
  | reference {referee : SourceType} (enabled : config.enablesType .reference)
    (inner : Plain config referee) : Rooted config (.reference referee .none)

variable {config : Config} {type : SourceType}

/-- What is inside a plain type is plain. -/
theorem Plain.of_mem_nodes (h : Plain config type) : ∀ node ∈ type.nodes, Plain config node := by
  induction h with
  | scalar enabled => exact List.forall_mem_singleton.mpr (.scalar enabled)
  | tagged enabled known => exact List.forall_mem_singleton.mpr (.tagged enabled known)
  | pointer enabled inner ih => exact List.forall_mem_cons.mpr ⟨.pointer enabled inner, ih⟩

theorem Plain.isReference_eq (h : Plain config type) : type.isReference = false := by
  cases h <;> rfl

theorem Plain.enabled (h : Plain config type) : config.enablesType type.kind := by
  cases h <;> assumption

theorem Rooted.plain_of_mem_tail (h : Rooted config type) :
    ∀ node ∈ type.nodes.tail, Plain config node := by
  cases h with
  | plain plain => exact fun node hn => plain.of_mem_nodes node (List.mem_of_mem_tail hn)
  | reference enabled inner => exact inner.of_mem_nodes

/-- Every level of an allowed type is itself allowed at the root. -/
theorem Rooted.of_mem_nodes (h : Rooted config type) : ∀ node ∈ type.nodes, Rooted config node := by
  intro node hn
  rw [nodes_eq_cons_tail] at hn
  rcases List.mem_cons.mp hn with rfl | htail
  · exact h
  · exact .plain (h.plain_of_mem_tail node htail)

theorem Rooted.bare (h : Rooted config type) (href : type.isReference) :
    type.qualifiers = .none := by
  cases h with
  | plain plain =>
    rw [plain.isReference_eq] at href
    cases href
  | reference enabled inner => rfl

theorem Rooted.known {name : String} {cv : Qualifiers} (h : Rooted config (.tagged name cv)) :
    name ∈ config.tagNames := by
  cases h with
  | plain plain =>
    cases plain with
    | tagged enabled known => exact known

theorem Rooted.enabled (h : Rooted config type) : config.enablesType type.kind := by
  cases h with
  | plain plain => exact plain.enabled
  | reference enabled inner => exact enabled

theorem Rooted.shaped (h : Rooted config type) : type.Shaped config where
  once := by
    have hnone : type.nodes.tail.countP isReference = 0 :=
      List.countP_eq_zero.mpr fun node hn => by
        rw [(h.plain_of_mem_tail node hn).isReference_eq]
        exact Bool.false_ne_true
    rw [nodes_eq_cons_tail, List.countP_cons, hnone, Nat.zero_add]
    split <;> omega
  outermost node hn := (h.plain_of_mem_tail node hn).isReference_eq
  direct _ hn inner hi := (h.plain_of_mem_tail inner (inner_mem_tail hn hi)).isReference_eq
  bare node hn := (h.of_mem_nodes node hn).bare
  known _ _ hn := (h.of_mem_nodes _ hn).known
  enabled node hn := (h.of_mem_nodes node hn).enabled

end SourceType

namespace Generator

open SourceType (Plain Rooted)

variable {σ : Type} {g : Generator σ}

/-- A production whose operand is plain gives an allowed type, a plain one if it is not that of
references. -/
theorem typeProduction_yields {child : Gen σ SourceType}
    (hchild : Yields child (Plain g.config)) {kind : TypeKind} (hen : g.config.enablesType kind) :
    Yields (g.typeProduction child kind) fun type =>
      Rooted g.config type ∧ (kind ≠ .reference → Plain g.config type) := by
  have hplain {type : SourceType} (h : Plain g.config type) :
      Rooted g.config type ∧ (kind ≠ .reference → Plain g.config type) :=
    ⟨.plain h, fun _ => h⟩
  cases kind with
  | scalar =>
    exact (yields_true _).bind fun scalar _ => (yields_true _).bind fun cv _ =>
      yields_pure (hplain (.scalar hen))
  | tagged =>
    exact (pickName_yields_mem _ _).bind fun name hname => (yields_true _).bind fun cv _ =>
      yields_pure (hplain (.tagged hen hname))
  | pointer =>
    exact hchild.bind fun pointee hp => (yields_true _).bind fun cv _ =>
      yields_pure (hplain (.pointer hen hp))
  | reference =>
    exact hchild.bind fun referee hr => yields_pure ⟨.reference hen hr, fun h => absurd rfl h⟩

section Weighted

variable (weighted : g.sampler.Weighted) (valid : g.config.problem? = none)

include weighted valid

/-- The kinds that are gone on with weigh something at the root, and are not references where those
may not stand. -/
theorem askFor_typeKind_yields (depth : Nat) (allowReference : Bool) :
    Yields (g.askFor (.typeKind (g.typeWeights allowReference depth)) (.noTypeKind depth))
      fun kind => g.config.enablesType kind ∧ (allowReference = false → kind ≠ .reference) := by
  refine (askFor_yields_all (weighted.typeKind _) _).imp fun kind hpos => ?_
  refine ⟨Config.enablesType_of_pos valid (pos_of_typeWeights hpos), ?_⟩
  rintro rfl rfl
  have hzero : g.typeWeights false depth .reference = 0 := rfl
  rw [hzero, Binary64.not_zero_lt_self] at hpos
  cases hpos

theorem typeAt_yields_plain (fuel depth : Nat) :
    Yields (g.typeAt fuel depth false) (Plain g.config) := by
  induction fuel generalizing depth with
  | zero => exact yields_throw _
  | succ fuel ih =>
    rw [typeAt_succ]
    refine (askFor_typeKind_yields weighted valid depth false).bind fun kind hkind => ?_
    exact (typeProduction_yields (ih (depth + 1)) hkind.1).imp fun type htype =>
      htype.2 (hkind.2 rfl)

theorem typeAt_yields_rooted (fuel depth : Nat) (allowReference : Bool) :
    Yields (g.typeAt fuel depth allowReference) (Rooted g.config) := by
  cases fuel with
  | zero => exact yields_throw _
  | succ fuel =>
    rw [typeAt_succ]
    refine (askFor_typeKind_yields weighted valid depth allowReference).bind fun kind hkind => ?_
    -- below this step no reference is allowed, so what it builds on is plain
    have hbelow := typeAt_yields_plain weighted valid fuel (depth + 1)
    exact (typeProduction_yields hbelow hkind.1).imp fun type htype => htype.1

theorem type_yields_shaped : Yields g.type fun type => type.Shaped g.config :=
  (typeAt_yields_rooted weighted valid g.fuel 0 true).imp fun _ => Rooted.shaped

/-- A generated type has a reference outermost or nowhere, without qualifiers, and consists of
enabled kinds and configured names only. So has that of a declaration, which is one of the
configured variable. -/
theorem shape_of_generated :
    (∀ s type, (g.type.run s).1 = .ok type → type.Shaped g.config)
      ∧ ∀ s decl, (g.declaration.run s).1 = .ok decl →
          decl.type.Shaped g.config ∧ decl.name = g.config.varName := by
  have htype := type_yields_shaped weighted valid
  have hdeclaration : Yields g.declaration fun decl =>
      decl.type.Shaped g.config ∧ decl.name = g.config.varName :=
    htype.bind fun type h => yields_pure ⟨h, rfl⟩
  exact ⟨htype, hdeclaration⟩

end Weighted

/-- Types are classes, pointers and references, and the last two never fade. -/
def classesOnly : Generator Script where
  config := {
    typeWeights := ((WeightTable.zeroed.set .tagged ⟨1, 0⟩).set .pointer ⟨1, 0⟩).set
      .reference ⟨1, 0⟩
    tagNames := ["S", "T"]
    varName := "r" }
  sampler := Script.sampler

/-- The script asks for another reference behind the first one, and gets a class. -/
theorem shape_of_generated_classes :
    let s : Script := ⟨[.typeKind .reference, .typeKind .pointer, .typeKind .reference, .integer 1,
      .qualifiers ⟨true, false⟩, .qualifiers ⟨false, true⟩], 0⟩
    let type : SourceType := .reference (.pointer (.tagged "T" ⟨true, false⟩) ⟨false, true⟩) .none
    ((classesOnly.type.run s).1 = .ok type ∧ type.Shaped classesOnly.config)
      ∧ (classesOnly.declaration.run s).1 = .ok ⟨type, "r"⟩
      ∧ type.Shaped classesOnly.config ∧ "r" = classesOnly.config.varName := by
  intro s type
  have hshape := shape_of_generated (g := classesOnly) Script.sampler_honest.weighted
    (by decide +kernel)
  have htype : (classesOnly.type.run s).1 = .ok type := by decide +kernel
  have hdeclaration : (classesOnly.declaration.run s).1 = .ok ⟨type, "r"⟩ := by decide +kernel
  exact ⟨⟨htype, hshape.1 s _ htype⟩, hdeclaration, hshape.2 s _ hdeclaration⟩

end Generator

end Assay
