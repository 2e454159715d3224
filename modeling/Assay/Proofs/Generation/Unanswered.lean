import Assay.Proofs.Generation.Replay
import Assay.Proofs.Generation.Viable

/-!
# Replaying past a missing answer

A request that has no answer is not logged, and yet a script loses a choice to it. So the replay of
a run follows it up to the first answer that is missing, and then skips the choice that was recorded
next: there it falls out of step, unless nothing was recorded any more
(`run_replaying_unanswered`).
-/

namespace Assay

/-- The sampler is honest, and gives the answer that is not logged only where there is no other. -/
structure Sampler.Exact {σ : Type} (sampler : Sampler σ) : Prop extends sampler.Honest where
  only : ∀ {α : Type} (request : Request α) (s : σ),
    request.log? (sampler.answer request s).1 = none →
      ∀ other, request.permits other → other = (sampler.answer request s).1

namespace Request

variable {α : Type} {request : Request α} {answer : α} {choice : Choice}

theorem log?_read? (h : request.read? choice = some answer) :
    request.log? answer = some choice := by
  cases request <;> cases choice <;> cases h <;> rfl

end Request

namespace Script

/-- The script without its next choice, which did not fit. -/
def skip : Script → Script
  | ⟨[], mismatches⟩ => ⟨[], mismatches⟩
  | ⟨_ :: rest, mismatches⟩ => ⟨rest, mismatches + 1⟩

/-- What is left of a script once a computation has given a result. -/
def pass {α : Type} (script : Script) : Except GenError α → Script
  | .ok _ => script
  | .error e => if e.isUnanswered then script.skip else script

theorem pass_nil {α : Type} (mismatches : Nat) (result : Except GenError α) :
    Script.pass ⟨[], mismatches⟩ result = ⟨[], mismatches⟩ := by
  cases result with
  | ok a => rfl
  | error e => exact ite_self _

theorem pass_of_answered {α : Type} {result : Except GenError α} (h : Answered result)
    (script : Script) : script.pass result = script := by
  cases result with
  | ok a => rfl
  | error e => rw [pass, h e rfl, if_neg Bool.false_ne_true]

theorem pass_of_not_answered {α : Type} {result : Except GenError α} (h : ¬ Answered result)
    (script : Script) : script.pass result = script.skip := by
  cases result with
  | ok a => exact absurd (fun e he => by cases he) h
  | error e =>
    refine if_pos ?_
    by_contra he
    exact h fun e' he' => by
      cases he'
      exact Bool.not_eq_true _ ▸ he

/-- No choice can be the answer none, which costs the script one. -/
theorem answer_unlogged {α : Type} {request : Request α} {answer : α} (hp : request.Proper)
    (h : request.log? answer = none) (honly : ∀ other, request.permits other → other = answer)
    (s : Script) : Script.sampler.answer request s = (answer, s.skip) := by
  have hs : request.simplest = answer := honly _ (Request.permits_simplest hp)
  rcases s with ⟨_ | ⟨choice, rest⟩, mismatches⟩
  · simp only [sampler, hs, skip]
  · have hv : validAnswer? request choice = none := by
      rw [Option.eq_none_iff_forall_ne_some]
      intro a ha
      obtain ⟨hread, haccepts⟩ := Option.filter_eq_some_iff.mp ha
      rw [honly a (Request.permits_of_accepts haccepts)] at hread
      rw [Request.log?_read? hread] at h
      cases h
    simp only [sampler, hv, hs, skip]

theorem sampler_exact : Script.sampler.Exact where
  toHonest := sampler_honest
  only := by
    intro α request s h other hp
    have hs : (Script.sampler.answer request s).1 = request.simplest := by
      rcases s with ⟨_ | ⟨choice, rest⟩, mismatches⟩
      · rfl
      · cases hv : validAnswer? request choice with
        | none => simp only [sampler, hv]
        | some a =>
          simp only [sampler, hv] at h
          rw [Request.log?_read? (Option.filter_eq_some_iff.mp hv).1] at h
          cases h
    rw [hs] at h ⊢
    exact Request.eq_simplest_of_unlogged h hp

theorem mismatches_le_answer {α : Type} (request : Request α) (s : Script) :
    s.mismatches ≤ (Script.sampler.answer request s).2.mismatches := by
  rcases s with ⟨_ | ⟨choice, rest⟩, mismatches⟩
  · exact Nat.le_refl mismatches
  · cases hv : validAnswer? request choice <;> simp only [sampler, hv]
    · exact Nat.le_succ mismatches
    · exact Nat.le_refl mismatches

end Script

namespace Generator

variable {σ α β : Type}

/-- From a state, the second computation does as the first and logs the answers, and the third does
as the first when it gets the logged answers; it skips a choice where an answer is missing. -/
def InStepFrom (s : σ) (x : Gen σ α) (y : Gen (Recording σ) α) (z : Gen Script α) : Prop :=
  ∃ log : List Choice,
    (∀ before, y.run ⟨s, before⟩ = ((x.run s).1, ⟨(x.run s).2, before ++ log⟩))
      ∧ ∀ rest mismatches, z.run ⟨log ++ rest, mismatches⟩ =
          ((x.run s).1, Script.pass ⟨rest, mismatches⟩ (x.run s).1)

/-- So it is from every state. -/
def InStep (x : Gen σ α) (y : Gen (Recording σ) α) (z : Gen Script α) : Prop :=
  ∀ s, InStepFrom s x y z

theorem Replays.inStepFrom {x : Gen σ α} {y : Gen (Recording σ) α} {z : Gen Script α}
    (h : Replays x y z) {s : σ} (hans : Answered (x.run s).1) : InStepFrom s x y z := by
  obtain ⟨log, hy, hz⟩ := h s
  refine ⟨log, hy, fun rest mismatches => ?_⟩
  rw [hz hans, Script.pass_of_answered hans]

namespace InStep

theorem pure (a : α) : InStep (σ := σ) (Pure.pure a) (Pure.pure a) (Pure.pure a) :=
  fun _ => (Replays.pure a).inStepFrom nofun

theorem throw {e : GenError} (he : e.isUnanswered = false) :
    InStep (MonadExcept.throw e : Gen σ α) (MonadExcept.throw e) (MonadExcept.throw e) := by
  refine fun s => (Replays.throw e).inStepFrom fun e' h => ?_
  cases h
  exact he

theorem bind {x : Gen σ α} {y : Gen (Recording σ) α} {z : Gen Script α} {f : α → Gen σ β}
    {f' : α → Gen (Recording σ) β} {f'' : α → Gen Script β} (hx : InStep x y z)
    (hf : ∀ a, InStep (f a) (f' a) (f'' a)) : InStep (x >>= f) (y >>= f') (z >>= f'') := by
  intro s
  obtain ⟨log, hy, hz⟩ := hx s
  rw [InStepFrom, run_bind]
  rcases hr : x.run s with ⟨e | a, after⟩ <;> rw [hr] at hy hz <;> simp only [] at hy hz ⊢
  · refine ⟨log, fun before => ?_, fun rest mismatches => ?_⟩
    · rw [run_bind, hy]
    · rw [run_bind, hz]
      rfl
  · obtain ⟨log', hy', hz'⟩ := hf a after
    refine ⟨log ++ log', fun before => ?_, fun rest mismatches => ?_⟩
    · rw [run_bind, hy]
      simp only []
      rw [hy', List.append_assoc]
    · rw [run_bind, List.append_assoc, hz]
      exact hz' rest mismatches

end InStep

variable {g : Generator σ}

section Exact

variable (hexact : g.sampler.Exact)

include hexact

theorem ask_inStep (request : Request α) (hp : request.Proper)
    (hlog : ∀ a, (request.log? a).isSome) :
    InStep (g.ask request) (g.recording.ask request) (g.replaying.ask request) :=
  fun _ => (ask_replays hexact.toHonest request hp hlog).inStepFrom nofun

theorem askFor_inStep (request : Request (Option α)) (hp : request.Proper)
    (hlog : ∀ a, (request.log? a).isSome = a.isSome) {e : GenError} (he : e.isUnanswered) :
    InStep (g.askFor request e) (g.recording.askFor request e)
      (g.replaying.askFor request e) := by
  intro s
  rcases ha : (g.sampler.answer request s).1 with _ | a
  · have hc : request.log? none = none :=
      Option.isNone_iff_eq_none.mp (Option.isSome_eq_false_iff.mp (hlog none))
    have honly := hexact.only request s (ha ▸ hc)
    rw [ha] at honly
    refine ⟨[], fun before => ?_, fun rest mismatches => ?_⟩
    · rw [run_askFor, run_askFor, answer_recording, ha, hc, Option.toList_none]
    · have hz : g.replaying.sampler.answer request ⟨rest, mismatches⟩ = _ :=
        Script.answer_unlogged hp hc honly _
      rw [List.nil_append, run_askFor, run_askFor, ha, hz, Option.elim_none, Script.pass, if_pos he]
  · refine (askFor_replays hexact.toHonest request hp hlog he).inStepFrom ?_
    rw [run_askFor, ha]
    nofun

theorem inStep_relates : g.Relates g.sampler.recording Script.sampler InStep where
  pure := .pure
  throw := .throw
  bind := .bind
  ask := ask_inStep hexact
  askFor := askFor_inStep hexact

variable (valid : g.config.problem? = none)

include valid

theorem step_inStep (step : Step) :
    InStep (g.step step) (g.recording.step step) (g.replaying.step step) :=
  (inStep_relates hexact).step valid step

theorem run_logs (steps : List Step) (s : σ) : ∃ log : List Choice, ∀ before,
    g.recording.run steps ⟨s, before⟩
      = ((g.run steps s).1, ⟨(g.run steps s).2, before ++ log⟩) := by
  obtain ⟨log, hrec, -⟩ := run_replays hexact.toHonest valid steps s
  exact ⟨log, hrec⟩

/-- Steps that nothing was recorded of need no choices, whatever was missing in them. -/
theorem run_replaying_nil {steps : List Step} {s : σ}
    (h : ∀ before, (g.recording.run steps ⟨s, before⟩).2.choices = before) (mismatches : Nat) :
    g.replaying.run steps ⟨[], mismatches⟩ = ((g.run steps s).1, ⟨[], mismatches⟩) := by
  induction steps generalizing s with
  | nil => rfl
  | cons step steps ih =>
    obtain ⟨log, hrec, hrep⟩ := step_inStep hexact valid step s
    obtain ⟨log', hrec'⟩ := run_logs hexact valid steps ((g.step step).run s).2
    have hnil := h []
    rw [run_cons, hrec, hrec', List.nil_append, List.append_eq_nil_iff] at hnil
    obtain ⟨rfl, rfl⟩ := hnil
    have hstep := hrep [] mismatches
    rw [List.append_nil, Script.pass_nil] at hstep
    rw [run_cons, run_cons, hstep, ih fun before => by rw [hrec', List.append_nil]]

end Exact

theorem run_append (steps steps' : List Step) (s : σ) :
    g.run (steps ++ steps') s = ((g.run steps s).1 ++ (g.run steps' (g.run steps s).2).1,
      (g.run steps' (g.run steps s).2).2) := by
  induction steps generalizing s with
  | nil => rfl
  | cons step steps ih => rw [List.cons_append, run_cons, ih, run_cons, List.cons_append]

/-- A computation takes no mismatch back. -/
def Counts (z : Gen Script α) : Prop := ∀ s, s.mismatches ≤ (z.run s).2.mismatches

theorem Counts.bind {z : Gen Script α} {f : α → Gen Script β} (hz : Counts z)
    (hf : ∀ a, Counts (f a)) : Counts (z >>= f) := by
  intro s
  have hs := hz s
  rw [run_bind]
  rcases hr : z.run s with ⟨e | a, after⟩ <;> rw [hr] at hs
  · exact hs
  · exact hs.trans (hf a after)

theorem counts_ask (request : Request α) : Counts (g.replaying.ask request) :=
  fun s => Script.mismatches_le_answer request s

theorem counts_askFor (request : Request (Option α)) (e : GenError) :
    Counts (g.replaying.askFor request e) := by
  refine (counts_ask request).bind fun answer => ?_
  cases answer <;> exact fun s => Nat.le_refl _

theorem counts_relates : g.Relates g.sampler.recording Script.sampler fun _ _ z => Counts z where
  pure _ _ := Nat.le_refl _
  throw _ _ := Nat.le_refl _
  bind := .bind
  ask request _ _ := counts_ask request
  askFor request _ _ e _ := counts_askFor request e

theorem mismatches_le_run (valid : g.config.problem? = none) (steps : List Step) (s : Script) :
    s.mismatches ≤ (g.replaying.run steps s).2.mismatches := by
  induction steps generalizing s with
  | nil => exact Nat.le_refl _
  | cons step steps ih =>
    have hstep : s.mismatches ≤ ((g.replaying.step step).run s).2.mismatches :=
      counts_relates.step valid step s
    exact hstep.trans (ih _)

/-- The replay of a run, at the first step in which an answer was missing, goes on with the script
less the first choice that was recorded after it. No choice fails to fit only if there is none, and
then the replay is as the run was. -/
theorem run_replaying_unanswered (hexact : g.sampler.Exact) (valid : g.config.problem? = none)
    (before after : List Step) (step : Step) {s : σ}
    (hbefore : ∀ result ∈ (g.run before s).1, Answered result)
    (hstep : ¬ Answered ((g.step step).run (g.run before s).2).1) :
    let recorded := g.recording.run (before ++ step :: after) ⟨s, []⟩
    let stuck := g.recording.run (before ++ [step]) ⟨s, []⟩
    let replayed := g.replaying.run (before ++ step :: after) ⟨recorded.2.choices, 0⟩
    ∃ (results : List (Except GenError Product)) (log : List Choice),
      recorded.1 = stuck.1 ++ results ∧ recorded.2.choices = stuck.2.choices ++ log
        ∧ replayed = (stuck.1 ++ (g.replaying.run after (Script.skip ⟨log, 0⟩)).1,
            (g.replaying.run after (Script.skip ⟨log, 0⟩)).2)
        ∧ (replayed.2.mismatches = 0 ↔ log = [])
        ∧ (log = [] → replayed = (recorded.1, ⟨[], 0⟩)) := by
  intro recorded stuck replayed
  obtain ⟨log, hrec, hrep⟩ := run_replays hexact.toHonest valid before s
  obtain ⟨log', hrec', hrep'⟩ := step_inStep hexact valid step (g.run before s).2
  obtain ⟨log'', hrec''⟩ := run_logs hexact valid after ((g.step step).run (g.run before s).2).2
  have hstuck : stuck = ((g.run before s).1 ++ [((g.step step).run (g.run before s).2).1],
      ⟨((g.step step).run (g.run before s).2).2, log ++ log'⟩) := by
    simp only [stuck, run_append, run_cons, hrec, hrec', List.nil_append]
    rfl
  have hrecorded : recorded = (stuck.1 ++ (g.run after stuck.2.inner).1,
      ⟨(g.run after stuck.2.inner).2, stuck.2.choices ++ log''⟩) := by
    simp only [recorded, hstuck, run_append, run_cons, hrec, hrec', hrec'', List.nil_append,
      List.append_assoc, List.cons_append]
  have hreplayed : replayed = (stuck.1 ++ (g.replaying.run after (Script.skip ⟨log'', 0⟩)).1,
      (g.replaying.run after (Script.skip ⟨log'', 0⟩)).2) := by
    simp only [replayed, hrecorded, hstuck, run_append, run_cons, List.append_assoc,
      hrep hbefore, hrep', Script.pass_of_not_answered hstep, List.nil_append, List.cons_append]
  have hquiet (hnil : log'' = []) : replayed = (recorded.1, ⟨[], 0⟩) := by
    have hafter : g.replaying.run after ⟨[], 0⟩ = ((g.run after stuck.2.inner).1, ⟨[], 0⟩) :=
      run_replaying_nil hexact valid (fun before => by rw [hstuck, hrec'', hnil, List.append_nil]) 0
    rw [hreplayed, hrecorded, hnil, Script.skip, hafter]
  refine ⟨_, log'', congrArg (·.1) hrecorded, congrArg (·.2.choices) hrecorded, hreplayed,
    ⟨fun hzero => ?_, fun hnil => by rw [hquiet hnil]⟩, hquiet⟩
  rcases log'' with _ | ⟨choice, rest⟩
  · rfl
  · -- the choice that is skipped counts as a mismatch from there on
    have hle := mismatches_le_run (g := g) valid after (Script.skip ⟨choice :: rest, 0⟩)
    rw [hreplayed] at hzero
    simp only [Script.skip] at hle hzero
    omega

/-- The generator of a valid configuration under which there are no types. -/
def typeless : Generator Script where
  config := { typeWeights := WeightTable.zeroed }
  sampler := Script.sampler

/-- After the first step no other one is answered, and nothing more is recorded. -/
theorem run_replaying_unanswered_declaration :
    let s : Script := ⟨[.exprKind .unary, .unaryOp .neg], 0⟩
    let recorded := typeless.recording.run [.expr, .type, .declaration] ⟨s, []⟩
    (∀ result ∈ (typeless.run [.expr] s).1, Answered result)
      ∧ ¬ Answered ((typeless.step .type).run (typeless.run [.expr] s).2).1
      ∧ typeless.replaying.run [.expr, .type, .declaration] ⟨recorded.2.choices, 0⟩
        = (recorded.1, ⟨[], 0⟩) := by
  intro s recorded
  have hbefore : ∀ result ∈ (typeless.run [.expr] s).1, Answered result := by decide +kernel
  have hstep : ¬ Answered ((typeless.step .type).run (typeless.run [.expr] s).2).1 := by
    decide +kernel
  have hlog : (typeless.recording.run [.expr, .type, .declaration] ⟨s, []⟩).2.choices
      = (typeless.recording.run [.expr, .type] ⟨s, []⟩).2.choices := by decide +kernel
  obtain ⟨results, log, -, hchoices, -, -, hquiet⟩ := run_replaying_unanswered (g := typeless)
    Script.sampler_exact (by decide +kernel) [.expr] [.declaration] .type hbefore hstep
  simp only [List.cons_append, List.nil_append] at hchoices hquiet
  rw [hlog] at hchoices
  have hnil := List.self_eq_append_right.mp hchoices
  refine ⟨hbefore, hstep, ?_⟩
  simp only [recorded]
  exact hquiet hnil

/-- A type is asked for in vain, and the replay loses the choice of the kind of `7` to that. -/
theorem replay_out_of_step :
    let s : Script := ⟨[.flag true, .exprKind .integer, .integer 7, .flag false], 0⟩
    let recorded := typeless.recording.run [.type, .expr] ⟨s, []⟩
    let seven : Expr := .integer { value := 7 }
    let zero : Expr := .integer { value := 0 }
    typeless.config.problem? = none ∧ typeless.sampler.Exact
      ∧ recorded.1 = [.error (.noTypeKind 0), .ok (.expr seven)]
      ∧ recorded.2.choices = [.exprKind .integer, .integer 7, .flag false]
      ∧ typeless.replaying.run [.type, .expr] ⟨recorded.2.choices, 0⟩
        = ([.error (.noTypeKind 0), .ok (.expr zero)], ⟨[], 3⟩) := by
  intro s recorded seven zero
  exact ⟨by decide +kernel, Script.sampler_exact, by decide +kernel, by decide +kernel,
    by decide +kernel⟩

end Generator

end Assay
