import Assay.Proofs.Generation.Depth
import Assay.Proofs.Generation.Replay
import Assay.Proofs.Mask

/-!
# Generation from a script

A recursive kind is never the simplest one, so it is only chosen where a choice of the script says
so, and the script has one choice less for the operands. So however long the recursion may go,
generation from a script ends (`Generator.nest_settles`, `Config.expr_of_script`), and there are no
more nodes of recursive kinds than choices.
-/

namespace Assay

namespace Choice

def isKind : Choice → Bool
  | exprKind _ => true
  | _ => false

def isRecursive : Choice → Bool
  | exprKind kind => Kind.isRecursive kind
  | _ => false

theorem not_isRecursive {choice : Choice} (h : choice.isKind = false) :
    ¬ choice.isRecursive := by
  cases choice with
  | exprKind kind => cases h
  | binaryOp | unaryOp | typeKind | integer | double | flag | qualifiers => exact Bool.false_ne_true

end Choice

/-- How many expressions were begun with these choices. Each begins with its kind. -/
def entries (log : List Choice) : Nat := log.countP Choice.isKind

/-- How many of the expressions are of recursive kinds. -/
def recursions (log : List Choice) : Nat := log.countP Choice.isRecursive

/-- How many nodes are of a form that only recursive kinds give. The sign of a double literal is
none of them. -/
def Expr.recursiveNodes : Expr → Nat
  | integer _ | floating _ | boolean _ | var _ => 0
  | unary _ (floating _) => 0
  | unary _ e => e.recursiveNodes + 1
  | binary _ e f | index e f => e.recursiveNodes + f.recursiveNodes + 1
  | conditional e f g => e.recursiveNodes + f.recursiveNodes + g.recursiveNodes + 1
  | addressOf e | dereference e | member e _ | memberOfPointer e _ | cast _ e | paren e =>
    e.recursiveNodes

theorem Mask.Legal.isSome_head? {α : Type} [Enumerated α] {mask : Mask α} (h : mask.Legal)
    (hne : mask.isEmpty = false) : mask.toList.head?.isSome := by
  rw [h.isEmpty_eq] at hne
  exact List.isSome_head?.mpr (List.isEmpty_eq_false_iff.mp hne)

theorem Config.isEmpty_ops {config : Config} (h : config.problem? = none) :
    (config.enables .unary → config.unaryOps.isEmpty = false)
      ∧ (config.enables .binary → config.binaryOps.isEmpty = false) := by
  obtain ⟨-, -, -, -, -, -, ho, -⟩ := problem?_eq_none_iff.mp h
  unfold operatorProblem? at ho
  split at ho
  · cases ho
  · split at ho
    · cases ho
    · rename_i hunary hbinary
      simp only [Bool.and_eq_true, not_and, Bool.not_eq_true] at hunary hbinary
      exact ⟨hunary, hbinary⟩

theorem Expr.recursiveNodes_unary_le (op : UnaryOp) (e : Expr) :
    (unary op e).recursiveNodes ≤ e.recursiveNodes + 1 := by
  cases e <;> simp only [recursiveNodes] <;> omega

theorem Expr.recursiveNodes_parenIf (needed : Bool) (e : Expr) :
    (e.parenIf needed).recursiveNodes = e.recursiveNodes := by
  cases needed <;> rfl

namespace Script

/-- The script has an operator for every mask that has one. -/
theorem unaryOp_isSome {mask : Mask UnaryOp} (legal : mask.Legal) (hne : mask.isEmpty = false)
    (s : Script) : (Script.sampler.answer (.unaryOp mask) s).1.isSome := by
  have hsimplest : (Request.unaryOp mask).simplest.isSome := legal.isSome_head? hne
  refine answer_isSome hsimplest (fun choice answer h => ?_) s
  cases choice <;> cases h
  rfl

theorem binaryOp_isSome {mask : Mask BinaryOp} (legal : mask.Legal) (hne : mask.isEmpty = false)
    (s : Script) : (Script.sampler.answer (.binaryOp mask) s).1.isSome := by
  have hsimplest : (Request.binaryOp mask).simplest.isSome := legal.isSome_head? hne
  refine answer_isSome hsimplest (fun choice answer h => ?_) s
  cases choice <;> cases h
  rfl

theorem length_answer_le {α : Type} (request : Request α) (s : Script) :
    (Script.sampler.answer request s).2.choices.length ≤ s.choices.length := by
  rw [choices_answer, List.length_tail]
  exact Nat.sub_le _ _

/-- The script gives a recursive kind for a choice only. -/
theorem answer_exprKind {weights : ExprKind → Binary64}
    (h : ∃ kind, Kind.isRecursive kind = false ∧ Binary64.lt 0 (weights kind)) (s : Script) :
    ∃ kind, (Script.sampler.answer (.exprKind weights) s).1 = some kind
      ∧ Binary64.lt 0 (weights kind)
      ∧ (Kind.isRecursive kind).toNat
          + (Script.sampler.answer (.exprKind weights) s).2.choices.length ≤ s.choices.length := by
  obtain ⟨simplest, hs⟩ := Option.isSome_iff_exists.mp
    (Request.simplestKind?_isSome (h.imp fun _ hk => hk.2))
  have hterminal := Request.simplestKind?_terminal h hs
  have hpos := Request.simplestKind?_viable weights
  rw [hs, Option.all_some] at hpos
  rcases s with ⟨_ | ⟨choice, rest⟩, mismatches⟩
  · refine ⟨simplest, hs, hpos, ?_⟩
    rw [hterminal]
    exact Nat.zero_add _ |>.le
  · cases hv : validAnswer? (.exprKind weights) choice with
    | none =>
      simp only [sampler, hv]
      refine ⟨simplest, hs, hpos, ?_⟩
      rw [hterminal, Bool.toNat_false, List.length_cons]
      omega
    | some answer =>
      simp only [sampler, hv]
      obtain ⟨hread, haccepts⟩ := Option.filter_eq_some_iff.mp hv
      cases choice <;> cases hread
      rename_i kind
      refine ⟨kind, rfl, haccepts, ?_⟩
      have hle := Bool.toNat_le (Kind.isRecursive kind)
      rw [List.length_cons]
      omega

end Script

/-- The generator that answers from a script. -/
def Config.scripted (config : Config) (limit : Nat) : Generator Script :=
  ⟨config, Script.sampler, limit⟩

namespace Generator

variable {α β : Type}

/-- With at most `n` choices left, both computations give the same value, for which `P` holds with
how many recursive kinds, and how many kinds at all, they log. The script loses a choice for each
of the former. -/
def Settles (n : Nat) (P : α → Nat → Nat → Prop) (x y : Gen (Recording Script) α) : Prop :=
  ∀ s, s.inner.choices.length ≤ n → ∃ a after log,
    x.run s = (.ok a, after) ∧ y.run s = (.ok a, after) ∧ after.choices = s.choices ++ log
      ∧ recursions log + after.inner.choices.length ≤ s.inner.choices.length
      ∧ P a (recursions log) (entries log)

/-- `R` holds, and no kind is logged. -/
def Kindless (R : α → Prop) (a : α) (m k : Nat) : Prop := R a ∧ m = 0 ∧ k = 0

namespace Settles

variable {n : Nat} {P : α → Nat → Nat → Prop} {Q : β → Nat → Nat → Prop}
  {x y : Gen (Recording Script) α}

theorem mono (h : Settles n P x y) {n' : Nat} (hn : n' ≤ n) : Settles n' P x y :=
  fun s hs => h s (hs.trans hn)

theorem imp (h : Settles n P x y) {P' : α → Nat → Nat → Prop}
    (hP : ∀ a m k, P a m k → P' a m k) : Settles n P' x y := by
  intro s hs
  obtain ⟨a, after, log, hx, hy, hlog, hle, ha⟩ := h s hs
  exact ⟨a, after, log, hx, hy, hlog, hle, hP _ _ _ ha⟩

theorem pure {a : α} (h : P a 0 0) : Settles n P (Pure.pure a) (Pure.pure a) :=
  fun s _ => ⟨a, s, [], rfl, rfl, (List.append_nil _).symm, by simp [recursions], h⟩

theorem bind {f f' : α → Gen (Recording Script) β} (h : Settles n P x y)
    (hf : ∀ a m k, P a m k → m ≤ n →
      Settles (n - m) (fun b m' k' => Q b (m + m') (k + k')) (f a) (f' a)) :
    Settles n Q (x >>= f) (y >>= f') := by
  intro s hs
  obtain ⟨a, after, log, hx, hy, hlog, hle, ha⟩ := h s hs
  obtain ⟨b, last, log', hx', hy', hlog', hle', hb⟩ :=
    hf a _ _ ha (by omega) after (by omega)
  refine ⟨b, last, log ++ log', ?_, ?_, ?_, ?_, ?_⟩
  · rw [run_bind, hx]
    exact hx'
  · rw [run_bind, hy]
    exact hy'
  · rw [hlog', hlog, List.append_assoc]
  · rw [recursions, List.countP_append]
    rw [recursions] at hle hle'
    omega
  · rw [recursions, entries, List.countP_append, List.countP_append]
    exact hb

/-- Where the bound need not be kept. -/
theorem bind_of_le {f f' : α → Gen (Recording Script) β} (h : Settles n P x y)
    (hf : ∀ a m k, P a m k →
      Settles n (fun b m' k' => Q b (m + m') (k + k')) (f a) (f' a)) :
    Settles n Q (x >>= f) (y >>= f') :=
  h.bind fun a m k ha _ => (hf a m k ha).mono (Nat.sub_le n m)

/-- What logs no kind costs nothing. -/
theorem bind_kindless {R : α → Prop} {f f' : α → Gen (Recording Script) β}
    (h : Settles n (Kindless R) x y) (hf : ∀ a, R a → Settles n Q (f a) (f' a)) :
    Settles n Q (x >>= f) (y >>= f') := by
  refine h.bind_of_le fun a m k ha => ?_
  obtain ⟨hR, rfl, rfl⟩ := ha
  simpa only [Nat.zero_add] using hf a hR

end Settles

section Scripted

variable {config : Config} {limit : Nat} {n : Nat}

theorem ask_settles (request : Request α)
    (hlog : ∀ a choice, request.log? a = some choice → choice.isKind = false) :
    Settles n (Kindless fun a => ∃ s, (Script.sampler.answer request s).1 = a)
      ((config.scripted limit).recording.ask request)
      ((config.scripted limit).recording.ask request) := by
  intro s _
  let a := (Script.sampler.answer request s.inner).1
  have hkind : ∀ choice ∈ (request.log? a).toList, choice.isKind = false :=
    fun choice hc => hlog a choice (Option.mem_toList.mp hc)
  have hentries : entries (request.log? a).toList = 0 :=
    List.countP_eq_zero.mpr fun choice hc => by simp [hkind choice hc]
  have hrecursions : recursions (request.log? a).toList = 0 :=
    List.countP_eq_zero.mpr fun choice hc => Choice.not_isRecursive (hkind choice hc)
  refine ⟨a, _, (request.log? a).toList, rfl, rfl, rfl, ?_, ⟨s.inner, rfl⟩, hrecursions, hentries⟩
  rw [hrecursions, Nat.zero_add]
  exact Script.length_answer_le request s.inner

theorem askFor_settles (request : Request (Option α)) (e : GenError)
    (hlog : ∀ a choice, request.log? a = some choice → choice.isKind = false)
    (hsome : ∀ s, (Script.sampler.answer request s).1.isSome) :
    Settles n (Kindless fun _ => True) ((config.scripted limit).recording.askFor request e)
      ((config.scripted limit).recording.askFor request e) := by
  refine (ask_settles request hlog).bind_kindless fun answer ha => ?_
  obtain ⟨s, hs⟩ := ha
  obtain ⟨a, ha⟩ := Option.isSome_iff_exists.mp (hsome s)
  obtain rfl : some a = answer := ha.symm.trans hs
  exact .pure ⟨trivial, rfl, rfl⟩

theorem pick?_settles {items : List α} (h : items.isEmpty = false) :
    Settles n (Kindless fun item => item.isSome) ((config.scripted limit).recording.pick? items)
      ((config.scripted limit).recording.pick? items) := by
  rw [pick?, h]
  refine (ask_settles _ fun _ _ hc => by cases hc; rfl).bind_kindless fun i hi => ?_
  obtain ⟨s, hs⟩ := hi
  have hrange := Script.sampler_honest.permits (.integer 0 (UInt64.ofNat (items.length - 1))) s
    UInt64.zero_le
  rw [hs, Request.permits, Bool.and_eq_true] at hrange
  exact .pure ⟨isSome_getElem?_toNat h (of_decide_eq_true hrange.2), rfl, rfl⟩

theorem pickName_settles {names : List String} (h : names.isEmpty = false) (what : String) :
    Settles n (Kindless fun _ => True) ((config.scripted limit).recording.pickName names what)
      ((config.scripted limit).recording.pickName names what) := by
  refine (pick?_settles h).bind_kindless fun picked hp => ?_
  obtain ⟨name, rfl⟩ := Option.isSome_iff_exists.mp hp
  exact .pure ⟨trivial, rfl, rfl⟩

theorem kind_settles (ends : config.AlwaysEnds) (depth : Nat) (e : GenError) :
    Settles n (fun kind m k => Binary64.lt 0 (config.exprWeightsAt depth kind)
        ∧ m = (Kind.isRecursive kind).toNat ∧ k = 1)
      ((config.scripted limit).recording.askFor (.exprKind (config.exprWeightsAt depth)) e)
      ((config.scripted limit).recording.askFor (.exprKind (config.exprWeightsAt depth)) e) := by
  rintro ⟨script, before⟩ _
  obtain ⟨kind, hk, hpos, hle⟩ := Script.answer_exprKind (ends depth) script
  have hanswer : ((config.scripted limit).sampler.answer
      (.exprKind (config.exprWeightsAt depth)) script).1 = some kind := hk
  have hrecursions : recursions [.exprKind kind] = (Kind.isRecursive kind).toNat := by
    cases hr : Kind.isRecursive kind <;> simp [recursions, Choice.isRecursive, hr]
  have hrun : ((config.scripted limit).recording.askFor
      (.exprKind (config.exprWeightsAt depth)) e).run ⟨script, before⟩ = (.ok kind,
        ⟨(Script.sampler.answer (.exprKind (config.exprWeightsAt depth)) script).2,
          before ++ [.exprKind kind]⟩) := by
    rw [run_askFor, answer_recording, hanswer]
    rfl
  exact ⟨kind, _, [.exprKind kind], hrun, hrun, rfl, by rw [hrecursions]; exact hle, hpos,
    hrecursions, rfl⟩

theorem maybeParen_settles (e : Expr) :
    Settles n (Kindless fun e' => e'.recursiveNodes = e.recursiveNodes)
      ((config.scripted limit).recording.maybeParen e)
      ((config.scripted limit).recording.maybeParen e) :=
  (ask_settles _ fun _ _ hc => by cases hc; rfl).bind_kindless fun paren _ =>
    .pure ⟨Expr.recursiveNodes_parenIf paren e, rfl, rfl⟩

variable (valid : config.problem? = none)

include valid

theorem terminal_settles {kind : ExprKind} (hk : Kind.isRecursive kind = false)
    (hen : config.enables kind) (child child' : Gen (Recording Script) Expr) :
    Settles n (Kindless fun e => e.recursiveNodes = 0)
      ((config.scripted limit).recording.production child kind)
      ((config.scripted limit).recording.production child' kind) := by
  cases kind with
  | integer | boolean =>
    exact (ask_settles _ fun _ _ hc => by cases hc; rfl).bind_kindless fun a _ =>
      .pure ⟨rfl, rfl, rfl⟩
  | double =>
    refine (ask_settles _ fun _ _ hc => by cases hc; rfl).bind_kindless fun x _ =>
      .pure ⟨?_, rfl, rfl⟩
    split <;> rfl
  | var | addressOf => exact .pure ⟨rfl, rfl, rfl⟩
  | member | memberOfPointer =>
    have hnames := Config.fieldNames_ne_nil valid (by simp) hen
    exact (pickName_settles hnames _).bind_kindless fun field _ => .pure ⟨rfl, rfl, rfl⟩
  | unary | binary | index | conditional => cases hk

/-- What is kept of an expression, the recursive kinds and all kinds that were chosen for it. -/
structure Grown (e : Expr) (m k : Nat) : Prop where
  nodes : e.recursiveNodes ≤ m
  kinds : k ≤ 3 * m + 1

theorem unaryOp_settles (legal : config.unaryOps.Legal) (hen : config.enables .unary)
    (e : GenError) : Settles n (Kindless fun _ => True)
      ((config.scripted limit).recording.askFor (.unaryOp config.unaryOps) e)
      ((config.scripted limit).recording.askFor (.unaryOp config.unaryOps) e) := by
  refine askFor_settles _ e (fun answer choice hc => ?_)
    (Script.unaryOp_isSome legal ((Config.isEmpty_ops valid).1 hen))
  obtain ⟨op, -, rfl⟩ := Option.map_eq_some_iff.mp hc
  rfl

theorem binaryOp_settles (legal : config.binaryOps.Legal) (hen : config.enables .binary)
    (e : GenError) : Settles n (Kindless fun _ => True)
      ((config.scripted limit).recording.askFor (.binaryOp config.binaryOps) e)
      ((config.scripted limit).recording.askFor (.binaryOp config.binaryOps) e) := by
  refine askFor_settles _ e (fun answer choice hc => ?_)
    (Script.binaryOp_isSome legal ((Config.isEmpty_ops valid).2 hen))
  obtain ⟨op, -, rfl⟩ := Option.map_eq_some_iff.mp hc
  rfl

theorem recursive_settles (unaryLegal : config.unaryOps.Legal)
    (binaryLegal : config.binaryOps.Legal) {kind : ExprKind} (hk : Kind.isRecursive kind)
    (hen : config.enables kind) {child child' : Gen (Recording Script) Expr}
    (hchild : Settles n Grown child child') :
    Settles n (fun e m k => e.recursiveNodes ≤ m + 1 ∧ k ≤ 3 * m + 3)
      ((config.scripted limit).recording.production child kind)
      ((config.scripted limit).recording.production child' kind) := by
  cases kind with
  | integer | double | boolean | var | addressOf | member | memberOfPointer => cases hk
  | unary =>
    refine (unaryOp_settles valid unaryLegal hen _).bind_kindless fun op _ =>
      hchild.bind_of_le fun e m k he => .pure ?_
    have hnodes := he.nodes
    have hkinds := he.kinds
    have hle := Expr.recursiveNodes_unary_le op (e.parenIf (Expr.unaryPrecedence < e.precedence))
    rw [Expr.recursiveNodes_parenIf] at hle
    rw [unaryNode]
    omega
  | binary =>
    refine (binaryOp_settles valid binaryLegal hen _).bind_kindless fun op _ =>
      hchild.bind_of_le fun e m k he => hchild.bind_of_le fun f m' k' hf => .pure ?_
    have hnodes := he.nodes
    have hnodes' := hf.nodes
    have hkinds := he.kinds
    have hkinds' := hf.kinds
    rw [binaryNode, Expr.recursiveNodes, Expr.recursiveNodes_parenIf, Expr.recursiveNodes_parenIf]
    omega
  | index =>
    refine hchild.bind_of_le fun e m k he => .pure ?_
    have hnodes := he.nodes
    have hkinds := he.kinds
    simp only [Expr.recursiveNodes]
    omega
  | conditional =>
    refine hchild.bind_of_le fun e m k he => hchild.bind_of_le fun f m' k' hf =>
      hchild.bind_of_le fun h m'' k'' hh => .pure ?_
    have hnodes := he.nodes
    have hnodes' := hf.nodes
    have hnodes'' := hh.nodes
    have hkinds := he.kinds
    have hkinds' := hf.kinds
    have hkinds'' := hh.kinds
    rw [conditionalNode, Expr.recursiveNodes, Expr.recursiveNodes_parenIf]
    omega

section Ends

variable (unaryLegal : config.unaryOps.Legal) (binaryLegal : config.binaryOps.Legal)
  (ends : config.AlwaysEnds)

include unaryLegal binaryLegal ends

/-- The operands of a node have a choice less to go on. -/
theorem exprNode_settles (depth : Nat) {child child' : Gen (Recording Script) Expr}
    (hchild : 0 < n → Settles (n - 1) Grown child child') :
    Settles n Grown ((config.scripted limit).recording.exprNode depth child)
      ((config.scripted limit).recording.exprNode depth child') := by
  refine (kind_settles ends depth _).bind fun kind m k hkind hle => ?_
  obtain ⟨hpos, hm, rfl⟩ := hkind
  have hen := Config.enables_of_pos valid hpos
  cases hr : Kind.isRecursive kind with
  | false =>
    obtain rfl : m = 0 := by rw [hm, hr, Bool.toNat_false]
    refine (terminal_settles valid hr hen child child').bind_kindless fun e he => ?_
    refine (maybeParen_settles e).imp fun e' m' k' he' => ?_
    obtain ⟨he', rfl, rfl⟩ := he'
    constructor <;> omega
  | true =>
    obtain rfl : m = 1 := by rw [hm, hr, Bool.toNat_true]
    refine (recursive_settles valid unaryLegal binaryLegal hr hen (hchild hle)).bind_of_le
      fun e m k he => ?_
    refine (maybeParen_settles e).imp fun e' m' k' he' => ?_
    obtain ⟨he', rfl, rfl⟩ := he'
    constructor <;> omega

/-- The recursion gets no further down than there are choices, so what stands there is no matter. -/
theorem nest_settles (below below' : Gen (Recording Script) Expr) {levels levels' : Nat}
    (hlevels : n < levels) (hlevels' : n < levels') (depth : Nat) :
    Settles n Grown (nest (config.scripted limit).recording.exprNode below levels depth)
      (nest (config.scripted limit).recording.exprNode below' levels' depth) := by
  induction n generalizing levels levels' depth with
  | zero =>
    obtain ⟨l, rfl⟩ := Nat.exists_eq_succ_of_ne_zero (Nat.ne_of_gt hlevels)
    obtain ⟨l', rfl⟩ := Nat.exists_eq_succ_of_ne_zero (Nat.ne_of_gt hlevels')
    exact exprNode_settles valid unaryLegal binaryLegal ends depth nofun
  | succ n ih =>
    obtain ⟨l, rfl⟩ := Nat.exists_eq_succ_of_ne_zero (Nat.ne_zero_of_lt hlevels)
    obtain ⟨l', rfl⟩ := Nat.exists_eq_succ_of_ne_zero (Nat.ne_zero_of_lt hlevels')
    exact exprNode_settles valid unaryLegal binaryLegal ends depth fun _ =>
      ih (Nat.lt_of_succ_lt_succ hlevels) (Nat.lt_of_succ_lt_succ hlevels') (depth + 1)

theorem expr_settles {limit' : Nat} (hlimit : n < limit) (hlimit' : n < limit') :
    Settles n Grown (config.scripted limit).recording.expr
      (config.scripted limit').recording.expr := by
  have hfuel {l : Nat} (h : n < l) : n < (config.scripted l).recording.fuel :=
    Nat.lt_add_left _ h
  rw [expr, expr, exprAt_eq_nest, exprAt_eq_nest]
  exact nest_settles valid unaryLegal binaryLegal ends _ _ (hfuel hlimit) (hfuel hlimit') 0

end Ends

end Scripted

end Generator

/-- Generation from a script gives an expression, the same one for every limit of the recursion that
is greater than the number of choices. With `n` choices it begins no more than `3 * n + 1`
expressions, no more than `n` of them of recursive kinds. -/
theorem Config.expr_of_script {config : Config} (valid : config.problem? = none)
    (unaryLegal : config.unaryOps.Legal) (binaryLegal : config.binaryOps.Legal)
    (ends : config.AlwaysEnds) (script : Script) :
    ∃ (e : Expr) (after : Script) (log : List Choice),
      (∀ limit, script.choices.length < limit →
        (config.scripted limit).expr.run script = (.ok e, after)
          ∧ (config.scripted limit).recording.expr.run ⟨script, []⟩ = (.ok e, ⟨after, log⟩))
      ∧ entries log ≤ 3 * script.choices.length + 1
      ∧ recursions log ≤ script.choices.length
      ∧ e.recursiveNodes ≤ recursions log := by
  have hsettles {limit : Nat} (hlimit : script.choices.length < limit) :=
    Generator.expr_settles valid unaryLegal binaryLegal ends
      (Nat.lt_succ_self script.choices.length) hlimit ⟨script, []⟩ (Nat.le_refl _)
  obtain ⟨e, ⟨after, log⟩, log', hrun, -, hlog, hle, hnodes, hentries⟩ :=
    hsettles (Nat.lt_succ_self script.choices.length)
  obtain rfl : log = log' := hlog
  simp only [] at hle
  refine ⟨e, after, log, fun limit hlimit => ?_, by omega, by omega, hnodes⟩
  obtain ⟨e', after', -, hrun', hlimited, -⟩ := hsettles hlimit
  rw [← hrun', hrun] at hlimited
  -- recording does not change what is recorded
  obtain ⟨_, hrec, -⟩ := (Generator.replays_relates (g := config.scripted limit)
    Script.sampler_honest).exprAt valid (config.scripted limit).fuel 0 script
  obtain ⟨hresult, hstate⟩ := Prod.mk.inj ((hrec []).symm.trans hlimited)
  exact ⟨Prod.ext hresult (Recording.mk.inj hstate).1, hlimited⟩

/-- Of three choices only the first one fits, and it is that of a conditional expression. -/
theorem Config.expr_of_script_conditional :
    let config : Config := { exprWeights := WeightTable.default.set .conditional ⟨1, 0⟩ }
    let script : Script := ⟨[.exprKind .conditional, .flag true, .typeKind .scalar], 0⟩
    let zero : Expr := .integer { value := 0 }
    config.problem? = none ∧ config.unaryOps.Legal ∧ config.binaryOps.Legal ∧ config.AlwaysEnds
      ∧ ∀ limit, 3 < limit →
          ((config.scripted limit).expr.run script).1 = .ok (.conditional zero zero zero) := by
  intro config script zero
  have hvalid : config.problem? = none := by decide +kernel
  have hends : config.AlwaysEnds := alwaysEnds_of_steady hvalid
    ⟨.integer, rfl, by decide +kernel, by decide +kernel⟩
  refine ⟨hvalid, Mask.full_legal, Mask.full_legal, hends, fun limit hlimit => ?_⟩
  obtain ⟨e, after, log, hrun, -⟩ :=
    expr_of_script hvalid Mask.full_legal Mask.full_legal hends script
  have hfour : ((config.scripted 4).expr.run script).1 = .ok (.conditional zero zero zero) := by
    decide +kernel
  rw [(hrun 4 (by decide)).1] at hfour
  rw [(hrun limit hlimit).1, hfour]

end Assay
