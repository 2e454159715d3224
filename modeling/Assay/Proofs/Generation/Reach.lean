import Assay.Proofs.Generation.Grammar
import Assay.Proofs.Generation.Scripted

/-!
# What scripts reach

The expressions that a configuration allows at a depth, where every kind has the weight it has there
(`Config.Derives`). The generator gives nothing else (`derives_of_exprAt`), and each of them has a
script that makes the generator give it: the choices in the order of the requests, those of an
operand between the operator and the parentheses around the whole (`Config.Node.exists_script`). So
scripts reach exactly the configured grammar (`Config.derives_iff_exists_script`).
-/

namespace Assay

namespace Config

/-- Whether a kind can be chosen at a depth. -/
def offers (config : Config) (depth : Nat) (kind : ExprKind) : Bool :=
  Binary64.lt 0 (config.exprWeightsAt depth kind)

/-- The expressions of a kind that a configuration allows at a depth. Operands stand one level
deeper. Each of them may be in parentheses, and is where precedence needs them. -/
inductive Node (config : Config) : (depth : Nat) → Expr → Prop
  | integer {depth : Nat} {n : UInt64} (offered : config.offers depth .integer)
      (lower : config.integerMin ≤ n) (upper : n ≤ config.integerMax) :
      Node config depth (.integer ⟨n, .decimal, .int, false⟩)
  | double {depth : Nat} {x : Binary64} (offered : config.offers depth .double)
      (unsigned : x.isNegative = false) (range : config.InDoubleRange x) :
      Node config depth (.floating ⟨x, false⟩)
  /-- The sign belongs to the constant: it need not be in the mask, and the literal is not a level
  deeper. -/
  | negativeDouble {depth : Nat} {x : Binary64} (offered : config.offers depth .double)
      (negative : x.isNegative) (range : config.InDoubleRange x) :
      Node config depth (.unary .neg (.floating ⟨-x, false⟩))
  | boolean {depth : Nat} {value : Bool} (offered : config.offers depth .boolean) :
      Node config depth (.boolean value)
  | var {depth : Nat} (offered : config.offers depth .var) :
      Node config depth (.var config.varName)
  | unary {depth : Nat} {op : UnaryOp} {e : Expr} {paren : Bool}
      (offered : config.offers depth .unary) (mem : config.unaryOps.contains op)
      (operand : Node config (depth + 1) e)
      (needed : Expr.unaryPrecedence < e.precedence → paren) :
      Node config depth (.unary op (e.parenIf paren))
  | binary {depth : Nat} {op : BinaryOp} {e f : Expr} {left right : Bool}
      (offered : config.offers depth .binary) (mem : config.binaryOps.contains op)
      (lhs : Node config (depth + 1) e) (leftNeeded : op.precedence < e.precedence → left)
      (rhs : Node config (depth + 1) f) (rightNeeded : op.precedence ≤ f.precedence → right) :
      Node config depth (.binary op (e.parenIf left) (f.parenIf right))
  | addressOf {depth : Nat} (offered : config.offers depth .addressOf) :
      Node config depth (.addressOf (.var config.varName))
  | member {depth : Nat} {field : String} (offered : config.offers depth .member)
      (mem : field ∈ config.fieldNames) :
      Node config depth (.member (.var config.structName) field)
  | memberOfPointer {depth : Nat} {field : String} (offered : config.offers depth .memberOfPointer)
      (mem : field ∈ config.fieldNames) :
      Node config depth (.memberOfPointer (.var config.structPointerName) field)
  | index {depth : Nat} {e : Expr} {paren : Bool} (offered : config.offers depth .index)
      (position : Node config (depth + 1) e) :
      Node config depth (.index (.var config.arrayName) (e.parenIf paren))
  | conditional {depth : Nat} {e f g : Expr} {first second third : Bool}
      (offered : config.offers depth .conditional) (cond : Node config (depth + 1) e)
      (needed : Expr.conditionalPrecedence ≤ e.precedence → first)
      (lhs : Node config (depth + 1) f) (rhs : Node config (depth + 1) g) :
      Node config depth (.conditional (e.parenIf first) (f.parenIf second) (g.parenIf third))

/-- The expressions that a configuration allows at a depth, in parentheses or not. -/
def Derives (config : Config) (depth : Nat) (e : Expr) : Prop :=
  ∃ inner paren, config.Node depth inner ∧ e = inner.parenIf paren

end Config

namespace Expr

/-- Parentheses that precedence needs are added only where there are none. -/
theorem parenIf_parenIf (e : Expr) (paren : Bool) (needed : Nat → Bool)
    (h : needed primaryPrecedence = false) :
    (e.parenIf paren).parenIf (needed (e.parenIf paren).precedence) =
      e.parenIf (paren || needed e.precedence) := by
  cases paren
  · rfl
  · change (paren e).parenIf (needed primaryPrecedence) = paren e
    rw [h]
    rfl

/-- Parentheses that stand where precedence needs them are all that it needs. -/
theorem or_needed {paren : Bool} {p : Prop} [Decidable p] (needed : p → paren) :
    (paren || decide p) = paren := by
  cases paren
  · exact decide_eq_false fun h => Bool.false_ne_true (needed h)
  · rfl

theorem depth_le_parenIf (paren : Bool) (e : Expr) : e.depth ≤ (e.parenIf paren).depth := by
  cases paren
  · exact Nat.le_refl _
  · exact Nat.le_add_left _ 1

end Expr

namespace Generator

open Assay.Expr

theorem unaryNode_parenIf (op : UnaryOp) (e : Expr) (paren : Bool) :
    unaryNode op (e.parenIf paren) =
      .unary op (e.parenIf (paren || decide (unaryPrecedence < e.precedence))) := by
  rw [unaryNode]
  exact congrArg _ (e.parenIf_parenIf paren (fun n => decide (unaryPrecedence < n)) rfl)

theorem binaryNode_parenIf (op : BinaryOp) (e f : Expr) (left right : Bool) :
    binaryNode op (e.parenIf left) (f.parenIf right) =
      .binary op (e.parenIf (left || decide (op.precedence < e.precedence)))
        (f.parenIf (right || decide (op.precedence ≤ f.precedence))) := by
  have hright : decide (op.precedence ≤ primaryPrecedence) = false := by cases op <;> rfl
  rw [binaryNode, e.parenIf_parenIf left (fun n => decide (op.precedence < n)) rfl,
    f.parenIf_parenIf right (fun n => decide (op.precedence ≤ n)) hright]

theorem conditionalNode_parenIf (e f g : Expr) (paren : Bool) :
    conditionalNode (e.parenIf paren) f g =
      .conditional (e.parenIf (paren || decide (conditionalPrecedence ≤ e.precedence))) f g := by
  rw [conditionalNode, e.parenIf_parenIf paren (fun n => decide (conditionalPrecedence ≤ n)) rfl]

/-! ## The generator gives nothing else -/

section Honest

variable {σ : Type} {g : Generator σ} (honest : g.sampler.Honest)
  (valid : g.config.problem? = none)

include honest in
theorem exprKind_yields_offered (depth : Nat) :
    Yields (g.askFor (.exprKind (g.config.exprWeightsAt depth)) (.noExprKind depth)) fun kind =>
      g.config.offers depth kind :=
  askFor_yields honest (.exprKind (g.config.exprWeightsAt depth)) trivial _

include honest valid

theorem doubleConstant_yields_node {depth : Nat} (offered : g.config.offers depth .double) :
    Yields g.doubleConstant (g.config.Node depth) := by
  refine (ask_yields honest (Config.double_proper valid)).bind fun x hx => yields_pure ?_
  have hrange : g.config.InDoubleRange x := by
    rwa [Request.permits, Bool.and_eq_true, Bool.or_eq_true] at hx
  cases hs : x.isNegative with
  | false => exact .double offered hs hrange
  | true => exact .negativeDouble offered hs hrange

theorem production_yields_node {depth : Nat} {child : Gen σ Expr} (kind : ExprKind)
    (offered : g.config.offers depth kind) (hchild : Yields child (g.config.Derives (depth + 1))) :
    Yields (g.production child kind) (g.config.Node depth) := by
  cases kind with
  | integer =>
    refine (ask_yields honest (Config.integer_proper valid)).bind fun n hn => yields_pure ?_
    rw [Request.permits, Bool.and_eq_true, decide_eq_true_eq, decide_eq_true_eq] at hn
    exact .integer offered hn.1 hn.2
  | double => exact doubleConstant_yields_node honest valid offered
  | boolean => exact (yields_true _).bind fun b _ => yields_pure (.boolean offered)
  | var => exact yields_pure (.var offered)
  | unary =>
    refine (askFor_yields honest (.unaryOp g.config.unaryOps) trivial _).bind fun op hop => ?_
    refine hchild.bind fun operand he => yields_pure ?_
    obtain ⟨e, paren, he, rfl⟩ := he
    rw [unaryNode_parenIf]
    exact .unary offered hop he fun h => by rw [decide_eq_true h, Bool.or_true]
  | binary =>
    refine (askFor_yields honest (.binaryOp g.config.binaryOps) trivial _).bind fun op hop => ?_
    refine hchild.bind fun lhs he => hchild.bind fun rhs hf => yields_pure ?_
    obtain ⟨e, left, he, rfl⟩ := he
    obtain ⟨f, right, hf, rfl⟩ := hf
    rw [binaryNode_parenIf]
    exact .binary offered hop he (fun h => by rw [decide_eq_true h, Bool.or_true]) hf
      fun h => by rw [decide_eq_true h, Bool.or_true]
  | addressOf => exact yields_pure (.addressOf offered)
  | member =>
    exact (pickName_yields_mem _ _).bind fun field hf => yields_pure (.member offered hf)
  | memberOfPointer =>
    exact (pickName_yields_mem _ _).bind fun field hf => yields_pure (.memberOfPointer offered hf)
  | index =>
    refine hchild.bind fun position he => yields_pure ?_
    obtain ⟨e, paren, he, rfl⟩ := he
    exact .index offered he
  | conditional =>
    refine hchild.bind fun cond he => hchild.bind fun lhs hf => hchild.bind fun rhs hh =>
      yields_pure ?_
    obtain ⟨e, first, he, rfl⟩ := he
    obtain ⟨f, second, hf, rfl⟩ := hf
    obtain ⟨h, third, hh, rfl⟩ := hh
    rw [conditionalNode_parenIf]
    exact .conditional offered he (fun h => by rw [decide_eq_true h, Bool.or_true]) hf hh

/-- What the generator gives at a depth the configuration allows there. -/
theorem derives_of_exprAt (fuel depth : Nat) :
    Yields (g.exprAt fuel depth) (g.config.Derives depth) := by
  induction fuel generalizing depth with
  | zero => exact yields_throw _
  | succ fuel ih =>
    rw [exprAt_succ]
    refine (exprKind_yields_offered honest depth).bind fun kind offered => ?_
    refine (production_yields_node honest valid kind offered (ih (depth + 1))).bind fun e he => ?_
    exact (yields_true _).bind fun paren _ => yields_pure ⟨e, paren, he, rfl⟩

end Honest

/-! ## Scripts for all of it -/

section Plays

variable {α β : Type}

/-- With these choices, and no more, the computation gives the value. -/
def Plays (choices : List Choice) (x : Gen Script α) (a : α) : Prop :=
  ∀ rest mismatches, x.run ⟨choices ++ rest, mismatches⟩ = (.ok a, ⟨rest, mismatches⟩)

theorem plays_pure (a : α) : Plays [] (pure a) a := fun _ _ => rfl

theorem Plays.bind {choices choices' : List Choice} {x : Gen Script α} {f : α → Gen Script β}
    {a : α} {b : β} (hx : Plays choices x a) (hf : Plays choices' (f a) b) :
    Plays (choices ++ choices') (x >>= f) b := by
  intro rest mismatches
  rw [run_bind, List.append_assoc, hx]
  exact hf rest mismatches

/-- A value made from the result takes no further choice. -/
theorem Plays.last {choices : List Choice} {x : Gen Script α} {f : α → Gen Script β} {a : α} {b : β}
    (hx : Plays choices x a) (hf : f a = pure b) : Plays choices (x >>= f) b := by
  rw [← choices.append_nil]
  exact hx.bind (hf ▸ plays_pure b)

variable {config : Config} {limit : Nat}

theorem ask_plays {request : Request α} {a : α} {choice : Choice}
    (h : request.log? a = some choice) (hp : request.permits a) :
    Plays [choice] ((config.scripted limit).ask request) a := by
  intro rest mismatches
  have hanswer : (config.scripted limit).sampler.answer request ⟨choice :: rest, mismatches⟩ =
    (a, ⟨rest, mismatches⟩) := Script.answer_logged h hp rest mismatches
  rw [run_ask, List.singleton_append, hanswer]

theorem askFor_plays {request : Request (Option α)} {a : α} {choice : Choice} (e : GenError)
    (h : request.log? (some a) = some choice) (hp : request.permits (some a)) :
    Plays [choice] ((config.scripted limit).askFor request e) a :=
  (ask_plays h hp).last rfl

theorem pickName_plays {names : List String} {name : String} (what : String) (mem : name ∈ names)
    (hlength : names.length ≤ UInt64.size) :
    ∃ i, ∀ limit, Plays [.integer i] ((config.scripted limit).pickName names what) name := by
  obtain ⟨i, hi, rfl⟩ := List.mem_iff_getElem.mp mem
  have hempty : names.isEmpty = false := List.isEmpty_eq_false_iff.mpr (List.ne_nil_of_mem mem)
  have hindex : (UInt64.ofNat i).toNat = i := UInt64.toNat_ofNat_of_lt' (by omega)
  have hlast : (UInt64.ofNat (names.length - 1)).toNat = names.length - 1 :=
    UInt64.toNat_ofNat_of_lt' (by omega)
  have hle : UInt64.ofNat i ≤ UInt64.ofNat (names.length - 1) := by
    rw [UInt64.le_iff_toNat_le, hindex, hlast]
    omega
  have hpermits : (Request.integer 0 (UInt64.ofNat (names.length - 1))).permits (.ofNat i) := by
    rw [Request.permits, Bool.and_eq_true]
    exact ⟨decide_eq_true UInt64.zero_le, decide_eq_true hle⟩
  have hpick (limit : Nat) : Plays [.integer (.ofNat i)] ((config.scripted limit).pick? names)
      (some names[i]) := by
    rw [pick?, hempty]
    exact (ask_plays rfl hpermits).last (by rw [hindex, List.getElem?_eq_getElem hi])
  exact ⟨.ofNat i, fun limit => (hpick limit).last rfl⟩

end Plays

section Node

variable {config : Config}

/-- Some script makes the generator give the expression at the depth, with parentheses around it or
without, as the last choice says. -/
def HasScript (config : Config) (depth : Nat) (e : Expr) : Prop :=
  ∃ script, ∀ limit fuel paren, e.depth ≤ fuel →
    Plays (script ++ [.flag paren]) ((config.scripted limit).exprAt fuel depth) (e.parenIf paren)

theorem hasScript_of_production {depth : Nat} {kind : ExprKind} {e : Expr} (script : List Choice)
    (offered : config.offers depth kind)
    (h : ∀ limit fuel, e.depth ≤ fuel + 1 → Plays script
      ((config.scripted limit).production ((config.scripted limit).exprAt fuel (depth + 1)) kind)
      e) : HasScript config depth e := by
  refine ⟨.exprKind kind :: script, fun limit fuel paren hfuel => ?_⟩
  have hpos : 0 < e.depth := by cases e <;> simp only [Expr.depth] <;> omega
  obtain ⟨fuel, rfl⟩ := Nat.exists_eq_add_of_le' (hpos.trans_le hfuel)
  have hkind : Plays [.exprKind kind] ((config.scripted limit).askFor
      (.exprKind (config.exprWeightsAt depth)) (.noExprKind depth)) kind :=
    askFor_plays _ rfl offered
  have hparen : Plays [.flag paren] ((config.scripted limit).maybeParen e) (e.parenIf paren) :=
    (ask_plays rfl rfl).last rfl
  rw [exprAt_succ]
  exact hkind.bind ((h limit fuel hfuel).bind hparen)

theorem hasScript_unary {depth : Nat} {op : UnaryOp} {e : Expr} {paren : Bool}
    (offered : config.offers depth .unary) (mem : config.unaryOps.contains op)
    (operand : HasScript config (depth + 1) e) (needed : unaryPrecedence < e.precedence → paren) :
    HasScript config depth (.unary op (e.parenIf paren)) := by
  obtain ⟨script, hscript⟩ := operand
  refine hasScript_of_production ([.unaryOp op] ++ (script ++ [.flag paren])) offered
    fun limit fuel hfuel => ?_
  have hop : Plays [.unaryOp op] ((config.scripted limit).askFor (.unaryOp config.unaryOps)
      (.noOperator "unary")) op := askFor_plays _ rfl mem
  have hdepth : e.depth ≤ fuel := by
    have hle := e.depth_le_parenIf paren
    rw [Expr.depth] at hfuel
    omega
  refine hop.bind ((hscript limit fuel paren hdepth).last ?_)
  rw [unaryNode_parenIf, or_needed needed]

theorem hasScript_binary {depth : Nat} {op : BinaryOp} {e f : Expr} {left right : Bool}
    (offered : config.offers depth .binary) (mem : config.binaryOps.contains op)
    (lhs : HasScript config (depth + 1) e) (leftNeeded : op.precedence < e.precedence → left)
    (rhs : HasScript config (depth + 1) f) (rightNeeded : op.precedence ≤ f.precedence → right) :
    HasScript config depth (.binary op (e.parenIf left) (f.parenIf right)) := by
  obtain ⟨script, hscript⟩ := lhs
  obtain ⟨script', hscript'⟩ := rhs
  refine hasScript_of_production
    ([.binaryOp op] ++ ((script ++ [.flag left]) ++ (script' ++ [.flag right]))) offered
    fun limit fuel hfuel => ?_
  have hop : Plays [.binaryOp op] ((config.scripted limit).askFor (.binaryOp config.binaryOps)
      (.noOperator "binary")) op := askFor_plays _ rfl mem
  have hdepth : e.depth ≤ fuel ∧ f.depth ≤ fuel := by
    have hle := e.depth_le_parenIf left
    have hle' := f.depth_le_parenIf right
    rw [Expr.depth] at hfuel
    omega
  refine hop.bind ((hscript limit fuel left hdepth.1).bind
    ((hscript' limit fuel right hdepth.2).last ?_))
  rw [binaryNode_parenIf, or_needed leftNeeded, or_needed rightNeeded]

theorem hasScript_index {depth : Nat} {e : Expr} {paren : Bool}
    (offered : config.offers depth .index) (position : HasScript config (depth + 1) e) :
    HasScript config depth (.index (.var config.arrayName) (e.parenIf paren)) := by
  obtain ⟨script, hscript⟩ := position
  refine hasScript_of_production (script ++ [.flag paren]) offered fun limit fuel hfuel => ?_
  have hdepth : e.depth ≤ fuel := by
    have hle := e.depth_le_parenIf paren
    rw [Expr.depth] at hfuel
    omega
  exact (hscript limit fuel paren hdepth).last rfl

theorem hasScript_conditional {depth : Nat} {e f g : Expr} {first second third : Bool}
    (offered : config.offers depth .conditional) (cond : HasScript config (depth + 1) e)
    (needed : conditionalPrecedence ≤ e.precedence → first)
    (lhs : HasScript config (depth + 1) f) (rhs : HasScript config (depth + 1) g) :
    HasScript config depth
      (.conditional (e.parenIf first) (f.parenIf second) (g.parenIf third)) := by
  obtain ⟨script, hscript⟩ := cond
  obtain ⟨script', hscript'⟩ := lhs
  obtain ⟨script'', hscript''⟩ := rhs
  refine hasScript_of_production ((script ++ [.flag first]) ++
    ((script' ++ [.flag second]) ++ (script'' ++ [.flag third]))) offered fun limit fuel hfuel => ?_
  have hdepth : e.depth ≤ fuel ∧ f.depth ≤ fuel ∧ g.depth ≤ fuel := by
    have hle := e.depth_le_parenIf first
    have hle' := f.depth_le_parenIf second
    have hle'' := g.depth_le_parenIf third
    rw [Expr.depth] at hfuel
    omega
  refine (hscript limit fuel first hdepth.1).bind ((hscript' limit fuel second hdepth.2.1).bind
    ((hscript'' limit fuel third hdepth.2.2).last ?_))
  rw [conditionalNode_parenIf, or_needed needed]

/-- The script of a node asks for its kind and then goes through the scripts of its operands. -/
theorem hasScript_of_node (names : config.fieldNames.length ≤ UInt64.size) {depth : Nat} {e : Expr}
    (h : config.Node depth e) : HasScript config depth e := by
  induction h with
  | @integer depth n offered lower upper =>
    have hn : (Request.integer config.integerMin config.integerMax).permits n := by
      rw [Request.permits, Bool.and_eq_true]
      exact ⟨decide_eq_true lower, decide_eq_true upper⟩
    exact hasScript_of_production [.integer n] offered fun limit fuel _ =>
      (ask_plays rfl hn).last rfl
  | @double depth x offered unsigned range =>
    have hx : (Request.double config.doubleMin config.doubleMax).permits x := by
      rwa [Request.permits, Bool.and_eq_true, Bool.or_eq_true]
    exact hasScript_of_production [.double x] offered fun limit fuel _ =>
      (ask_plays rfl hx).last (by rw [unsigned]; rfl)
  | @negativeDouble depth x offered negative range =>
    have hx : (Request.double config.doubleMin config.doubleMax).permits x := by
      rwa [Request.permits, Bool.and_eq_true, Bool.or_eq_true]
    exact hasScript_of_production [.double x] offered fun limit fuel _ =>
      (ask_plays rfl hx).last (by rw [negative]; rfl)
  | @boolean depth value offered =>
    exact hasScript_of_production [.flag value] offered fun limit fuel _ =>
      (ask_plays rfl rfl).last rfl
  | var offered => exact hasScript_of_production [] offered fun limit fuel _ => plays_pure _
  | unary offered mem operand needed ih => exact hasScript_unary offered mem ih needed
  | binary offered mem lhs leftNeeded rhs rightNeeded ihl ihr =>
    exact hasScript_binary offered mem ihl leftNeeded ihr rightNeeded
  | addressOf offered => exact hasScript_of_production [] offered fun limit fuel _ => plays_pure _
  | member offered mem =>
    obtain ⟨i, hi⟩ := pickName_plays "field names" mem names
    exact hasScript_of_production [.integer i] offered fun limit fuel _ => (hi limit).last rfl
  | memberOfPointer offered mem =>
    obtain ⟨i, hi⟩ := pickName_plays "field names" mem names
    exact hasScript_of_production [.integer i] offered fun limit fuel _ => (hi limit).last rfl
  | index offered position ih => exact hasScript_index offered ih
  | conditional offered cond needed lhs rhs ihc ihl ihr =>
    exact hasScript_conditional offered ihc needed ihl ihr

end Node

end Generator

/-- The expressions that the configured grammar allows are those that scripts reach: each has a
script from which generation gives it, without a choice that does not fit or is left over. -/
theorem Config.derives_iff_exists_script {config : Config} (valid : config.problem? = none)
    (names : config.fieldNames.length ≤ UInt64.size) (e : Expr) :
    config.Derives 0 e ↔ ∃ script : List Choice, ∀ limit, e.depth ≤ limit →
      (config.scripted limit).expr.run ⟨script, 0⟩ = (.ok e, ⟨[], 0⟩) := by
  constructor
  · rintro ⟨inner, paren, hnode, rfl⟩
    obtain ⟨script, hscript⟩ := Generator.hasScript_of_node names hnode
    refine ⟨script ++ [.flag paren], fun limit hlimit => ?_⟩
    have hfuel : inner.depth ≤ (config.scripted limit).fuel :=
      (inner.depth_le_parenIf paren).trans (hlimit.trans (Nat.le_add_left _ _))
    have hrun := hscript limit (config.scripted limit).fuel paren hfuel [] 0
    rwa [List.append_nil] at hrun
  · rintro ⟨script, hscript⟩
    have hyields := Generator.derives_of_exprAt (g := config.scripted e.depth)
      Script.sampler_honest valid (config.scripted e.depth).fuel 0
    exact hyields ⟨script, 0⟩ e (congrArg Prod.fst (hscript e.depth (Nat.le_refl _)))

/-- Operators end at depth 2, where doubles may still be negative. -/
def Config.shallow : Config where
  doubleMin := -10
  unaryOps := .ofList [.neg]
  exprWeights := WeightTable.default.set .double ⟨1, 0⟩
  maxDepth := some 2

/-- In `-(x - -2.5)` the first sign is an operator and the second one belongs to the constant. -/
theorem Config.derives_iff_exists_script_sign :
    let e : Expr := .unary .neg (.paren
      (.binary .minus (.var "x") (.unary .neg (.floating ⟨2.5, false⟩))))
    shallow.problem? = none ∧ shallow.fieldNames.length ≤ UInt64.size ∧ shallow.Derives 0 e
      ∧ ∃ script : List Choice, ∀ limit, e.depth ≤ limit →
          (shallow.scripted limit).expr.run ⟨script, 0⟩ = (.ok e, ⟨[], 0⟩) := by
  intro e
  have valid : shallow.problem? = none := by decide +kernel
  have names : shallow.fieldNames.length ≤ UInt64.size := by decide
  have hvar : shallow.Node 2 (.var "x") := .var (by decide +kernel)
  have hconstant : shallow.Node 2 (.unary .neg (.floating ⟨2.5, false⟩)) := by
    rw [← Binary64.neg_neg 2.5]
    exact .negativeDouble (by decide +kernel) (by decide +kernel)
      ⟨by decide +kernel, by decide +kernel⟩
  have hdifference : shallow.Node 1 (.binary .minus ((Expr.var "x").parenIf false)
      ((Expr.unary .neg (.floating ⟨2.5, false⟩)).parenIf false)) :=
    .binary (by decide +kernel) (by decide +kernel) hvar (by decide) hconstant (by decide)
  have hnode : shallow.Node 0 (.unary .neg ((Expr.binary .minus ((Expr.var "x").parenIf false)
      ((Expr.unary .neg (.floating ⟨2.5, false⟩)).parenIf false)).parenIf true)) :=
    .unary (by decide +kernel) (by decide +kernel) hdifference fun _ => rfl
  have hderives : shallow.Derives 0 e := ⟨e, false, hnode, rfl⟩
  exact ⟨valid, names, hderives, (derives_iff_exists_script valid names e).mp hderives⟩

end Assay
