import Assay.Proofs.Generation.NodeCount
import Assay.Proofs.Generation.Replay
import Assay.Proofs.Generation.Viable

/-!
# Replaying a part of a recording

A script that ends early leaves the rest to the simplest answers. Up to the request at which it ends
the replay is as the run was, and the nodes that are still open get leaves for operands
(`Generator.Shrinks`). A leaf may have two nodes, so the replay of a part may be larger than what
was recorded (`Generator.truncated_grows`), but never more than twice as large
(`Generator.nodeCount_truncated`).
-/

namespace Assay

/-- The first element is one that comes before all others. -/
theorem Mask.exists_head?_of_contains {α : Type} [Enumerated α] {R : α → α → Prop}
    (hall : (Enumerated.all : List α).Pairwise R) (hrefl : ∀ a, R a a) {mask : Mask α} {a : α}
    (h : mask.contains a) : ∃ first, mask.toList.head? = some first ∧ R first a := by
  have hmem : a ∈ mask.toList := mem_toList.mpr h
  have hsorted : mask.toList.Pairwise R := hall.filter _
  rcases hlist : mask.toList with _ | ⟨first, rest⟩ <;> rw [hlist] at hmem hsorted
  · cases hmem
  · refine ⟨first, rfl, ?_⟩
    rcases List.mem_cons.mp hmem with rfl | hrest
    · exact hrefl a
    · exact (List.pairwise_cons.mp hsorted).1 a hrest

/-- The operators are numbered by their precedence. -/
theorem BinaryOp.pairwise_all :
    (Enumerated.all : List BinaryOp).Pairwise (·.precedence ≤ ·.precedence) := by
  decide

/-- The size of the simplest expression of a kind that ends the recursion. -/
def Config.leafSize (config : Config) : ExprKind → Nat
  | .integer | .var | .boolean => 1
  | .double => if config.doubleMin.isNegative then 2 else 1
  | _ => 2

/-- No expression that stands in for what a script no longer says has more than `c` nodes. -/
structure Config.LeavesWithin (config : Config) (c : Nat) : Prop where
  simplest : ∀ {depth kind}, Request.simplestKind? (config.exprWeightsAt depth) = some kind →
    config.leafSize kind ≤ c
  double : config.enables .double → config.leafSize .double ≤ c

theorem Config.leavesWithin_two (config : Config) : config.LeavesWithin 2 := by
  have hle (kind : ExprKind) : config.leafSize kind ≤ 2 := by
    unfold leafSize
    split
    · exact Nat.le_succ 1
    · exact Nat.le_succ 1
    · exact Nat.le_succ 1
    · split <;> decide
    · exact Nat.le_refl 2
  exact ⟨fun {_ kind} _ => hle kind, fun _ => hle _⟩

/-- Integers are the simplest kind of all. -/
theorem Config.leavesWithin_one {config : Config} (valid : config.problem? = none)
    (hen : config.enables .integer)
    (hsteady : ((config.exprWeights.weight .integer).dampening == 0) = true)
    (hmin : config.doubleMin.isNegative = false) : config.LeavesWithin 1 where
  simplest {depth kind} hs := by
    obtain ⟨-, -, -, hexprs, -⟩ := problem?_eq_none_iff.mp valid
    have hpos : Binary64.lt 0 (config.exprWeightsAt depth .integer) := by
      rw [exprWeightsAt, WeightTable.atDepth_terminal rfl,
        Weight.atDepth_of_steady (WeightTable.initial_of_problem? hexprs .integer).1 hsteady]
      exact hen
    have hviable : Request.viableKinds (config.exprWeightsAt depth) = .integer :: _ :=
      List.filter_cons_of_pos hpos
    rw [Request.simplestKind?, hviable] at hs
    cases hs
    exact Nat.le_refl 1
  double _ := by rw [leafSize, hmin, if_neg Bool.false_ne_true]

namespace Generator

open Assay.Expr

section Truncated

variable {σ α β : Type} {g : Generator σ} {P : α → Prop} {Q : β → Prop}

/-- From an empty script the computation gives a value that satisfies `P`. -/
def Bottoms (z : Gen Script α) (P : α → Prop) : Prop :=
  ∀ mismatches, ∃ a, z.run ⟨[], mismatches⟩ = (.ok a, ⟨[], mismatches⟩) ∧ P a

namespace Bottoms

theorem pure {a : α} (ha : P a) : Bottoms (Pure.pure a) P := fun _ => ⟨a, rfl, ha⟩

theorem bind {z : Gen Script α} {f : α → Gen Script β} (hz : Bottoms z P)
    (hf : ∀ a, P a → Bottoms (f a) Q) : Bottoms (z >>= f) Q := by
  intro mismatches
  obtain ⟨a, hr, ha⟩ := hz mismatches
  rw [run_bind, hr]
  exact hf a ha mismatches

theorem imp {z : Gen Script α} {P' : α → Prop} (hz : Bottoms z P) (h : ∀ a, P a → P' a) :
    Bottoms z P' := by
  intro mismatches
  obtain ⟨a, hr, ha⟩ := hz mismatches
  exact ⟨a, hr, h a ha⟩

end Bottoms

theorem ask_bottoms (request : Request α) :
    Bottoms (g.replaying.ask request) (· = request.simplest) :=
  fun _ => ⟨_, rfl, rfl⟩

theorem askFor_bottoms {request : Request (Option α)} {a : α} (h : request.simplest = some a)
    (e : GenError) : Bottoms (g.replaying.askFor request e) (· = a) := by
  refine (ask_bottoms request).bind fun answer ha => ?_
  rw [ha, h]
  exact .pure rfl

theorem pick?_bottoms {items : List α} (h : items.isEmpty = false) :
    Bottoms (g.replaying.pick? items) fun item => item.isSome := by
  rw [pick?, h]
  refine (ask_bottoms _).bind fun i hi => .pure (isSome_getElem?_toNat h ?_)
  rw [hi]
  exact UInt64.zero_le

theorem pickName_bottoms {names : List String} (h : names.isEmpty = false) (what : String) :
    Bottoms (g.replaying.pickName names what) fun _ => True := by
  refine (pick?_bottoms h).bind fun name hname => ?_
  obtain ⟨name, rfl⟩ := Option.isSome_iff_exists.mp hname
  exact .pure trivial

/-- Where the first computation gives a value, the second gives a related one from an empty
script. -/
def Below (R : α → α → Prop) (x : Gen σ α) (z : Gen Script α) : Prop :=
  Yields x fun a => Bottoms z (R · a)

namespace Below

variable {R : α → α → Prop} {S : β → β → Prop} {x : Gen σ α} {z : Gen Script α}

theorem pure {a a' : α} (h : R a' a) : Below R (Pure.pure a : Gen σ α) (Pure.pure a') :=
  yields_pure (.pure h)

theorem bind {f : α → Gen σ β} {f'' : α → Gen Script β} (hx : Below R x z)
    (hf : ∀ a a', R a' a → Below S (f a) (f'' a')) : Below S (x >>= f) (z >>= f'') := by
  intro s b hb
  rw [run_bind] at hb
  rcases hr : x.run s with ⟨e | a, after⟩ <;> rw [hr] at hb
  · cases hb
  · exact (hx s a (by rw [hr])).bind fun a' ha' => hf a a' ha' after b hb

end Below

/-- From a state in which the first computation gives a value, the second logs choices with which
the third gives the same value; with the first of them only it gives a related one. -/
def Shrinks (R : α → α → Prop) (x : Gen σ α) (y : Gen (Recording σ) α) (z : Gen Script α) : Prop :=
  ∀ s a after, x.run s = (.ok a, after) → ∃ log : List Choice,
    (∀ before, y.run ⟨s, before⟩ = (.ok a, ⟨after, before ++ log⟩))
      ∧ (∀ rest mismatches, z.run ⟨log ++ rest, mismatches⟩ = (.ok a, ⟨rest, mismatches⟩))
      ∧ ∀ part, part <+: log → part ≠ log → ∀ mismatches, ∃ a',
          z.run ⟨part, mismatches⟩ = (.ok a', ⟨[], mismatches⟩) ∧ R a' a

theorem isPrefix_append_cases {part log log' : List α} (h : part <+: log ++ log') :
    part <+: log ∧ part ≠ log ∨ ∃ part', part = log ++ part' ∧ part' <+: log' := by
  obtain ⟨rest, hrest⟩ := h
  rcases List.append_eq_append_iff.mp hrest with ⟨left, rfl, -⟩ | ⟨part', rfl, rfl⟩
  · rcases left with _ | ⟨choice, left⟩
    · exact .inr ⟨[], by simp⟩
    · exact .inl ⟨List.prefix_append _ _, by simp⟩
  · exact .inr ⟨part', rfl, List.prefix_append _ _⟩

namespace Shrinks

variable {R : α → α → Prop} {S : β → β → Prop} {x : Gen σ α} {y : Gen (Recording σ) α}
  {z : Gen Script α}

/-- Of what logs no more than one choice, only the empty part is left. -/
theorem of_replays (hreplays : Replays x y z) (hbelow : Below R x z)
    (hlen : ∀ s, (y.run ⟨s, []⟩).2.choices.length ≤ 1) : Shrinks R x y z := by
  intro s a after hr
  obtain ⟨log, hy, hz⟩ := hreplays s
  rw [hr] at hy hz
  refine ⟨log, hy, hz nofun, fun part hpart hne mismatches => ?_⟩
  have hlog := hlen s
  rw [hy, List.nil_append] at hlog
  have hlt : part.length < log.length :=
    lt_of_le_of_ne hpart.length_le fun h => hne (hpart.eq_of_length h)
  obtain rfl : part = [] := List.length_eq_zero_iff.mp (by simp only [] at hlog; omega)
  exact hbelow s a (by rw [hr]) mismatches

theorem pure (a : α) :
    Shrinks R (Pure.pure a : Gen σ α) (Pure.pure a) (Pure.pure a) := by
  intro s b after hr
  cases hr
  refine ⟨[], fun before => ?_, fun _ _ => rfl, fun part hpart hne => ?_⟩
  · rw [List.append_nil]
    rfl
  · exact absurd (List.prefix_nil.mp hpart) hne

theorem throw (e : GenError) :
    Shrinks R (MonadExcept.throw e : Gen σ α) (MonadExcept.throw e) (MonadExcept.throw e) := by
  intro s a after hr
  cases hr

/-- A script that ends within the first part has nothing left for the rest. -/
theorem bind_of_yields {f : α → Gen σ β} {f' : α → Gen (Recording σ) β}
    {f'' : α → Gen Script β} (hx : Shrinks R x y z) (hP : Yields x P)
    (hf : ∀ a, P a → Shrinks S (f a) (f' a) (f'' a))
    (hcut : ∀ a a', P a → R a' a → Below S (f a) (f'' a')) :
    Shrinks S (x >>= f) (y >>= f') (z >>= f'') := by
  intro s b last hr
  rw [run_bind] at hr
  rcases hx' : x.run s with ⟨e | a, after⟩ <;> rw [hx'] at hr
  · cases hr
  have hb : ((f a).run after).1 = .ok b := congrArg (·.1) hr
  have ha : P a := hP s a (by rw [hx'])
  obtain ⟨log, hy, hz, hpart⟩ := hx s a after hx'
  obtain ⟨log', hy', hz', hpart'⟩ := hf a ha after b last hr
  refine ⟨log ++ log', fun before => ?_, fun rest mismatches => ?_,
    fun part hp hne mismatches => ?_⟩
  · rw [run_bind, hy]
    simp only []
    rw [hy', List.append_assoc]
  · rw [run_bind, List.append_assoc, hz]
    exact hz' rest mismatches
  · rcases isPrefix_append_cases hp with ⟨hp, hne⟩ | ⟨part', rfl, hp'⟩
    · obtain ⟨a', hra, ha'⟩ := hpart part hp hne mismatches
      rw [run_bind, hra]
      exact hcut a a' ha ha' after b hb mismatches
    · rw [run_bind, hz]
      exact hpart' part' hp' (fun h => hne (by rw [h])) mismatches

theorem bind {f : α → Gen σ β} {f' : α → Gen (Recording σ) β} {f'' : α → Gen Script β}
    (hx : Shrinks R x y z) (hf : ∀ a, Shrinks S (f a) (f' a) (f'' a))
    (hcut : ∀ a a', R a' a → Below S (f a) (f'' a')) :
    Shrinks S (x >>= f) (y >>= f') (z >>= f'') :=
  hx.bind_of_yields (yields_true x) (fun a _ => hf a) fun a a' _ => hcut a a'

end Shrinks

section Leaves

variable (valid : g.config.problem? = none)

include valid

theorem production_bottoms {kind : ExprKind}
    (hk : Kind.isRecursive kind = false) (hen : g.config.enables kind) (z : Gen Script Expr) :
    Bottoms (g.replaying.production z kind) fun e =>
      e.nodeCount ≤ g.config.leafSize kind ∧ e.precedence ≤ unaryPrecedence := by
  cases kind with
  | integer | boolean => exact (ask_bottoms _).bind fun a _ => .pure ⟨Nat.le_refl 1, Nat.zero_le _⟩
  | double =>
    refine (ask_bottoms _).bind fun x hx => .pure ?_
    obtain rfl : x = g.config.doubleMin := hx
    rw [Config.leafSize]
    split
    · exact ⟨Nat.le_refl 2, Nat.le_refl 3⟩
    · exact ⟨Nat.le_refl 1, Nat.zero_le _⟩
  | var => exact .pure ⟨Nat.le_refl 1, Nat.zero_le _⟩
  | addressOf => exact .pure ⟨Nat.le_refl 2, Nat.le_refl 3⟩
  | member | memberOfPointer =>
    have hnames := Config.fieldNames_ne_nil valid (by simp) hen
    exact (pickName_bottoms hnames _).bind fun field _ => .pure ⟨Nat.le_refl 2, Nat.le_succ 2⟩
  | unary | binary | index | conditional => cases hk

variable {c : Nat} (within : g.config.LeavesWithin c) (ends : g.config.AlwaysEnds)

include within ends

/-- What stands in for an expression of which the script says nothing. -/
theorem node_bottoms {depth : Nat} {kind : ExprKind}
    (hs : Request.simplestKind? (g.config.exprWeightsAt depth) = some kind) (z : Gen Script Expr) :
    Bottoms (g.replaying.production z kind >>= g.replaying.maybeParen) fun e =>
      e.nodeCount ≤ c ∧ e.precedence ≤ unaryPrecedence := by
  have hk := Request.simplestKind?_terminal (ends depth) hs
  have hpos := Request.simplestKind?_viable (g.config.exprWeightsAt depth)
  rw [hs] at hpos
  have hen := Config.enables_of_pos valid hpos
  refine (production_bottoms valid hk hen z).bind fun e he =>
    (ask_bottoms _).bind fun paren hp => ?_
  rw [hp]
  exact .pure ⟨he.1.trans (within.simplest hs), he.2⟩

theorem exprAt_below (fuel depth : Nat) :
    Below (Slight c) (g.exprAt fuel depth) (g.replaying.exprAt fuel depth) := by
  cases fuel with
  | zero => exact yields_throw _
  | succ fuel =>
    intro s e _
    obtain ⟨kind, hs⟩ := ends.exists_simplest depth
    have hanswer : (Request.exprKind (g.config.exprWeightsAt depth)).simplest = some kind := hs
    rw [exprAt_succ]
    refine (askFor_bottoms hanswer _).bind fun kind' hk => ?_
    rw [hk]
    exact (node_bottoms valid within ends hs _).imp fun e' h => slight_of_le h.1 h.2 e

end Leaves

theorem maybeParen_below {c : Nat} (hc : 0 < c) {e e' : Expr} (he : e'.Smaller c e) :
    Below (Smaller c) (g.maybeParen e) (g.replaying.maybeParen e') := by
  refine (yields_true _).bind fun paren _ => yields_pure ?_
  refine (ask_bottoms _).bind fun paren' hp => .pure ?_
  rw [hp]
  exact he.of_parenIf hc paren

theorem length_log?_le (request : Request α) (answer : α) :
    (request.log? answer).toList.length ≤ 1 := by
  cases request.log? answer <;> simp

section Honest

variable (honest : g.sampler.Honest)

include honest

theorem ask_shrinks (request : Request α) (hp : request.Proper)
    (hlog : ∀ a, (request.log? a).isSome) :
    Shrinks (fun a' _ => a' = request.simplest) (g.ask request) (g.recording.ask request)
      (g.replaying.ask request) :=
  .of_replays (ask_replays honest request hp hlog) (fun _ _ _ => ask_bottoms request)
    fun _ => length_log?_le request _

theorem askFor_shrinks {R : α → α → Prop} (request : Request (Option α)) (hp : request.Proper)
    (hlog : ∀ a, (request.log? a).isSome = a.isSome) {e : GenError} (he : e.isUnanswered)
    (h : ∀ a, request.permits (some a) → ∃ a', request.simplest = some a' ∧ R a' a) :
    Shrinks R (g.askFor request e) (g.recording.askFor request e)
      (g.replaying.askFor request e) := by
  refine .of_replays (askFor_replays honest request hp hlog he) (fun s a ha => ?_) fun s => ?_
  · obtain ⟨a', hs, hR⟩ := h a (askFor_yields honest request hp e s a ha)
    exact (askFor_bottoms hs e).imp fun b hb => hb ▸ hR
  · rw [run_askFor, answer_recording]
    exact length_log?_le request _

theorem pick?_shrinks (items : List α) :
    Shrinks (fun item _ => item.isSome) (g.pick? items) (g.recording.pick? items)
      (g.replaying.pick? items) := by
  unfold pick?
  split
  · exact .pure none
  · rename_i h
    refine (ask_shrinks honest (.integer 0 _) UInt64.zero_le fun _ => rfl).bind
      (fun i => .pure _) fun i i' hi => .pure (isSome_getElem?_toNat (Bool.not_eq_true _ ▸ h) ?_)
    rw [hi]
    exact UInt64.zero_le

theorem pickName_shrinks (names : List String) (what : String) :
    Shrinks (fun _ _ => True) (g.pickName names what) (g.recording.pickName names what)
      (g.replaying.pickName names what) := by
  refine (pick?_shrinks honest names).bind (fun picked => ?_) fun picked picked' hp => ?_
  · cases picked with
    | none => exact .throw _
    | some name => exact .pure name
  · obtain ⟨name, rfl⟩ := Option.isSome_iff_exists.mp hp
    cases picked with
    | none => exact yields_throw _
    | some name => exact .pure trivial

section Within

variable {c : Nat} (hc : 0 < c) (valid : g.config.problem? = none)

include hc

theorem maybeParen_shrinks (e : Expr) :
    Shrinks (Smaller c) (g.maybeParen e) (g.recording.maybeParen e) (g.replaying.maybeParen e) :=
  (ask_shrinks honest (.flag g.config.parenProbability) trivial fun _ => rfl).bind
    (fun paren => .pure _) fun paren paren' hp =>
      .pure (by rw [hp]; exact (Smaller.refl hc e).of_parenIf hc paren)

include valid

theorem production_shrinks {x : Gen σ Expr} {y : Gen (Recording σ) Expr} {z : Gen Script Expr}
    (hx : Shrinks (Smaller c) x y z) (hbelow : Below (Slight c) x z) {kind : ExprKind}
    (hdouble : kind = .double → g.config.leafSize .double ≤ c) :
    Shrinks (Smaller c) (g.production x kind) (g.recording.production y kind)
      (g.replaying.production z kind) := by
  have hbelow' : Below (Smaller c) x z := fun s a ha => (hbelow s a ha).imp fun a' h => h.smaller
  cases kind with
  | integer =>
    refine (ask_shrinks honest _ (Config.integer_proper valid) fun _ => rfl).bind
      (fun n => .pure _) fun n n' _ => .pure ?_
    have hslight : (Expr.integer { value := n' }).Slight c (.integer { value := n }) :=
      slight_of_le hc (Nat.zero_le _) _
    exact hslight.smaller
  | double =>
    refine (ask_shrinks honest _ (Config.double_proper valid) fun _ => rfl).bind
      (fun x => .pure _) fun x x' hx' => .pure ?_
    have hle := hdouble rfl
    obtain rfl : x' = g.config.doubleMin := hx'
    refine (slight_of_le ?_ ?_ _).smaller
    · rw [Config.leafSize] at hle
      split <;> simp_all [nodeCount]
    · split
      · exact Nat.le_refl 3
      · exact Nat.zero_le _
  | boolean =>
    refine (ask_shrinks honest (.flag 0.5) trivial fun _ => rfl).bind
      (fun b => .pure _) fun b b' _ => .pure ?_
    have hslight : (Expr.boolean b').Slight c (.boolean b) :=
      slight_of_le hc (Nat.zero_le _) _
    exact hslight.smaller
  | var | addressOf => exact .pure _
  | unary =>
    refine (askFor_shrinks (R := fun _ _ => True) honest (.unaryOp g.config.unaryOps) trivial
      (fun _ => Option.isSome_map) rfl fun op hop => ?_).bind
        (fun op => hx.bind (fun e => .pure _) fun e e' he => .pure ?_)
        fun op op' _ => hbelow'.bind fun e e' he => .pure ?_
    · have hany : (Enumerated.all : List UnaryOp).Pairwise fun _ _ => True := by decide
      exact Mask.exists_head?_of_contains hany (fun _ => trivial) hop
    · exact (unaryNode_slight hc op op he).smaller
    · exact (unaryNode_slight hc op op' he).smaller
  | binary =>
    refine (askFor_shrinks (R := fun op' op => op'.precedence ≤ op.precedence) honest
      (.binaryOp g.config.binaryOps) trivial (fun _ => Option.isSome_map) rfl fun op hop => ?_).bind
        (fun op => hx.bind (fun e => hx.bind (fun f => .pure _) fun f f' hf => .pure ?_)
          fun e e' he => hbelow'.bind fun f f' hf => .pure ?_)
        fun op op' hop => hbelow.bind fun e e' he => hbelow.bind fun f f' hf => .pure ?_
    · exact Mask.exists_head?_of_contains BinaryOp.pairwise_all (fun _ => Nat.le_refl _) hop
    · exact binaryNode_smaller hc (Nat.le_refl _) (.refl hc e) hf (.inl rfl)
    · exact binaryNode_smaller hc (Nat.le_refl _) he hf (.inl rfl)
    · exact binaryNode_smaller hc hop he.smaller hf.smaller
        (.inr ⟨he.precedence_le, hf.precedence_le⟩)
  | member | memberOfPointer =>
    refine (pickName_shrinks honest _ _).bind (fun field => .pure _) fun field field' _ => .pure ?_
    exact Slight.smaller ⟨Nat.le_mul_of_pos_left _ hc, Nat.le_succ 2⟩
  | index =>
    refine hx.bind (fun e => .pure _) fun e e' he => .pure ?_
    have hle := he.nodeCount_le
    refine Slight.smaller ⟨?_, Nat.le_succ 2⟩
    simp only [nodeCount, Nat.mul_add]
    omega
  | conditional =>
    refine hx.bind (fun e => hx.bind (fun f => hx.bind (fun h => .pure _) fun h h' hh => .pure ?_)
      fun f f' hf => hbelow'.bind fun h h' hh => .pure ?_)
      fun e e' he => hbelow'.bind fun f f' hf => hbelow'.bind fun h h' hh => .pure ?_
    · exact conditionalNode_smaller hc (.refl hc e) (.refl hc f) hh
    · exact conditionalNode_smaller hc (.refl hc e) hf hh
    · exact conditionalNode_smaller hc he hf hh

variable (within : g.config.LeavesWithin c) (ends : g.config.AlwaysEnds)

include within ends

theorem exprAt_shrinks (fuel depth : Nat) :
    Shrinks (Smaller c) (g.exprAt fuel depth) (g.recording.exprAt fuel depth)
      (g.replaying.exprAt fuel depth) := by
  induction fuel generalizing depth with
  | zero => exact .throw _
  | succ fuel ih =>
    obtain ⟨simplest, hs⟩ := ends.exists_simplest depth
    rw [exprAt_succ, exprAt_succ, exprAt_succ]
    refine (askFor_shrinks (R := fun kind' _ => kind' = simplest) honest
      (.exprKind (g.config.exprWeightsAt depth)) trivial (fun _ => Option.isSome_map) rfl
      fun _ _ => ⟨simplest, hs, rfl⟩).bind_of_yields
        (askFor_yields honest (.exprKind (g.config.exprWeightsAt depth)) trivial _)
        (fun kind hk => ?_) fun kind kind' _ hk' => ?_
    · have hdouble (h : kind = .double) : g.config.leafSize .double ≤ c := by
        subst h
        exact within.double (Config.enables_of_pos valid hk)
      exact (production_shrinks honest hc valid (ih (depth + 1))
        (exprAt_below valid within ends fuel (depth + 1)) hdouble).bind
          (fun e => maybeParen_shrinks honest hc e) fun e e' he => maybeParen_below hc he
    · rw [hk']
      exact fun s e _ => (node_bottoms valid within ends hs _).imp
        fun e' h => (slight_of_le h.1 h.2 e).smaller

theorem expr_smaller {s : σ} {e : Expr} {part : List Choice}
    (h : (g.recording.expr.run ⟨s, []⟩).1 = .ok e)
    (hpart : part <+: (g.recording.expr.run ⟨s, []⟩).2.choices) :
    ∃ e', g.replaying.expr.run ⟨part, 0⟩ = (.ok e', ⟨[], 0⟩) ∧ e'.Smaller c e := by
  obtain ⟨_, hrec, -⟩ := (replays_relates honest).exprAt valid g.fuel 0 s
  have hr : (g.expr.run s).1 = .ok e := (congrArg (·.1) (hrec [])).symm.trans h
  obtain ⟨log, hrec', hrep, hcut⟩ :=
    exprAt_shrinks honest hc valid within ends g.fuel 0 s e _ (Prod.ext hr rfl)
  have hlog : (g.recording.expr.run ⟨s, []⟩).2.choices = log := congrArg (·.2.choices) (hrec' [])
  rw [hlog] at hpart
  by_cases hfull : part = log
  · have hall := hrep [] 0
    rw [List.append_nil, ← hfull] at hall
    exact ⟨e, hall, .refl hc e⟩
  · exact hcut part hpart hfull 0

end Within

/-- A part of the choices that an expression was recorded with is a script of another expression,
all of which fits. That has at most twice as many nodes, and no more of them than the first if a
single node stands in wherever the script says no more. -/
theorem nodeCount_truncated (valid : g.config.problem? = none) (ends : g.config.AlwaysEnds)
    {s : σ} {e : Expr} (h : (g.recording.expr.run ⟨s, []⟩).1 = .ok e) {part : List Choice}
    (hpart : part <+: (g.recording.expr.run ⟨s, []⟩).2.choices) :
    ∃ e', g.replaying.expr.run ⟨part, 0⟩ = (.ok e', ⟨[], 0⟩)
      ∧ e'.nodeCount ≤ 2 * e.nodeCount
      ∧ (g.config.LeavesWithin 1 → e'.nodeCount ≤ e.nodeCount) := by
  obtain ⟨e', hr, hle⟩ :=
    expr_smaller honest Nat.two_pos valid g.config.leavesWithin_two ends h hpart
  refine ⟨e', hr, hle.nodeCount_le, fun within => ?_⟩
  obtain ⟨e'', hr', hle'⟩ := expr_smaller honest Nat.one_pos valid within ends h hpart
  obtain rfl : e' = e'' := Except.ok.inj (Prod.mk.inj (hr.symm.trans hr')).1
  exact hle'.nodeCount_le.trans_eq (Nat.one_mul _)

end Honest

end Truncated

end Generator

/-- A valid configuration under which `&x` is simpler than `false`, which has fewer nodes. -/
def Config.addressFirst : Config where
  exprWeights := (WeightTable.zeroed.set .addressOf ⟨1, 0⟩).set .boolean ⟨1, 0⟩

namespace Generator

/-- Of `(7 || x)` with nothing but its first choice, `0 * 0` is left. -/
theorem nodeCount_truncated_disjunction :
    let g : Generator Script := { config := {}, sampler := Script.sampler }
    let choices : List Choice := [.exprKind .binary, .binaryOp .logicalOr, .exprKind .integer,
      .integer 7, .flag false, .exprKind .var, .flag false, .flag true]
    let e : Expr := .paren (.binary .logicalOr (.integer { value := 7 }) (.var "x"))
    let e' : Expr := .binary .mul (.integer { value := 0 }) (.integer { value := 0 })
    (g.recording.expr.run ⟨⟨choices, 0⟩, []⟩).1 = .ok e
      ∧ [.exprKind .binary] <+: (g.recording.expr.run ⟨⟨choices, 0⟩, []⟩).2.choices
      ∧ (g.replaying.expr.run ⟨[.exprKind .binary], 0⟩).1 = .ok e'
      ∧ e'.nodeCount ≤ e.nodeCount := by
  intro g choices e e'
  have hvalid : g.config.problem? = none := by decide +kernel
  have hends : g.config.AlwaysEnds := Config.alwaysEnds_of_steady hvalid
    ⟨.integer, rfl, by decide +kernel, by decide +kernel⟩
  have hwithin : g.config.LeavesWithin 1 :=
    Config.leavesWithin_one hvalid (by decide +kernel) (by decide +kernel) (by decide +kernel)
  have h : (g.recording.expr.run ⟨⟨choices, 0⟩, []⟩).1 = .ok e := by decide +kernel
  have hpart : [.exprKind .binary] <+: (g.recording.expr.run ⟨⟨choices, 0⟩, []⟩).2.choices := by
    decide +kernel
  have hcut : (g.replaying.expr.run ⟨[.exprKind .binary], 0⟩).1 = .ok e' := by decide +kernel
  obtain ⟨e'', hr, -, hle⟩ :=
    nodeCount_truncated Script.sampler_honest hvalid hends h hpart
  rw [hr] at hcut
  obtain rfl : e'' = e' := Except.ok.inj hcut
  exact ⟨h, hpart, by rw [hr], hle hwithin⟩

/-- Of `true` without its choices, `&x` is left. -/
theorem truncated_grows :
    let g : Generator Script := { config := .addressFirst, sampler := Script.sampler }
    let choices : List Choice := [.exprKind .boolean, .flag true, .flag false]
    g.config.problem? = none ∧ g.config.AlwaysEnds ∧ g.sampler.Honest
      ∧ (g.recording.expr.run ⟨⟨choices, 0⟩, []⟩).1 = .ok (.boolean true)
      ∧ (g.recording.expr.run ⟨⟨choices, 0⟩, []⟩).2.choices = choices
      ∧ (g.replaying.expr.run ⟨[], 0⟩).1 = .ok (.addressOf (.var "x"))
      ∧ (Expr.boolean true).nodeCount < (Expr.addressOf (.var "x")).nodeCount := by
  intro g choices
  have hvalid : g.config.problem? = none := by decide +kernel
  have hends : g.config.AlwaysEnds := Config.alwaysEnds_of_steady hvalid
    ⟨.addressOf, rfl, by decide +kernel, by decide +kernel⟩
  exact ⟨hvalid, hends, Script.sampler_honest, by decide +kernel, by decide +kernel,
    by decide +kernel, by decide⟩

end Generator

end Assay
