import Assay.Generation.Script
import Assay.Proofs.Generation.Related

/-!
# Recording and replaying a run

A recording generator does what the generator does and logs the answers that it gets. As long as
every request has an answer, a script of the log gives each request its answer again and is used up
at the end (`run_replaying_recorded`).
-/

namespace Assay

namespace Request

variable {α : Type} {request : Request α} {answer : α} {choice : Choice}

theorem read?_log? (h : request.log? answer = some choice) :
    request.read? choice = some answer := by
  cases request with
  | binaryOp | unaryOp | exprKind | typeKind =>
    obtain ⟨a, rfl, rfl⟩ := Option.map_eq_some_iff.mp h
    rfl
  | integer | double | flag | qualifiers =>
    cases h
    rfl

/-- None is the only answer that is permitted and yet not accepted, and it is not logged. -/
theorem accepts_of_permits (h : request.log? answer = some choice) (hp : request.permits answer) :
    request.accepts answer := by
  cases request with
  | binaryOp | unaryOp | exprKind | typeKind =>
    obtain ⟨a, rfl, -⟩ := Option.map_eq_some_iff.mp h
    exact hp
  | integer | double | flag | qualifiers => exact hp

end Request

theorem Script.answer_logged {α : Type} {request : Request α} {answer : α} {choice : Choice}
    (h : request.log? answer = some choice) (hp : request.permits answer) (rest : List Choice)
    (mismatches : Nat) :
    Script.sampler.answer request ⟨choice :: rest, mismatches⟩ = (answer, ⟨rest, mismatches⟩) := by
  have hv : validAnswer? request choice = some answer := by
    rw [validAnswer?, Request.read?_log? h, Option.filter_some,
      Request.accepts_of_permits h hp, if_pos rfl]
  simp only [Script.sampler, hv]

theorem Script.choices_answer {α : Type} (request : Request α) (s : Script) :
    (Script.sampler.answer request s).2.choices = s.choices.tail := by
  rcases s with ⟨_ | ⟨choice, rest⟩, mismatches⟩
  · rfl
  · cases hv : validAnswer? request choice <;> simp only [sampler, hv, List.tail_cons]

/-- No request went without an answer. -/
def Answered {α : Type} (result : Except GenError α) : Prop :=
  ∀ e, result = .error e → e.isUnanswered = false

instance {α : Type} : DecidablePred (Answered : Except GenError α → Prop) := fun
  | .ok _ => isTrue nofun
  | .error e =>
    decidable_of_iff (e.isUnanswered = false)
      ⟨fun h _ he => Except.error.inj he ▸ h, fun h => h e rfl⟩

namespace Generator

variable {σ : Type}

/-- The generator that logs the answers it gets. -/
def recording (g : Generator σ) : Generator (Recording σ) :=
  ⟨g.config, g.sampler.recording, g.recursionLimit⟩

/-- The generator that gets its answers from a script. -/
def replaying (g : Generator σ) : Generator Script :=
  ⟨g.config, Script.sampler, g.recursionLimit⟩

variable {α β : Type}

/-- The second computation does as the first and logs the answers, and the third does as the first
when it gets the logged answers, unless one is missing. -/
def Replays (x : Gen σ α) (y : Gen (Recording σ) α) (z : Gen Script α) : Prop :=
  ∀ s, ∃ log : List Choice,
    (∀ before, y.run ⟨s, before⟩ = ((x.run s).1, ⟨(x.run s).2, before ++ log⟩))
      ∧ (Answered (x.run s).1 → ∀ rest mismatches,
          z.run ⟨log ++ rest, mismatches⟩ = ((x.run s).1, ⟨rest, mismatches⟩))

namespace Replays

theorem pure (a : α) : Replays (σ := σ) (Pure.pure a) (Pure.pure a) (Pure.pure a) := by
  refine fun s => ⟨[], fun before => ?_, fun _ rest mismatches => rfl⟩
  rw [List.append_nil]
  rfl

theorem throw (e : GenError) :
    Replays (MonadExcept.throw e : Gen σ α) (MonadExcept.throw e) (MonadExcept.throw e) := by
  refine fun s => ⟨[], fun before => ?_, fun _ rest mismatches => rfl⟩
  rw [List.append_nil]
  rfl

theorem bind {x : Gen σ α} {y : Gen (Recording σ) α} {z : Gen Script α} {f : α → Gen σ β}
    {f' : α → Gen (Recording σ) β} {f'' : α → Gen Script β} (hx : Replays x y z)
    (hf : ∀ a, Replays (f a) (f' a) (f'' a)) : Replays (x >>= f) (y >>= f') (z >>= f'') := by
  intro s
  obtain ⟨log, hy, hz⟩ := hx s
  rw [run_bind]
  rcases hr : x.run s with ⟨e | a, after⟩ <;> rw [hr] at hy hz <;> simp only [] at hy hz ⊢
  · refine ⟨log, fun before => ?_, fun ha rest mismatches => ?_⟩
    · rw [run_bind, hy]
    · have he : Answered (.error e : Except GenError α) := fun e' h => by
        cases h
        exact ha e rfl
      rw [run_bind, hz he]
  · obtain ⟨log', hy', hz'⟩ := hf a after
    refine ⟨log ++ log', fun before => ?_, fun ha rest mismatches => ?_⟩
    · rw [run_bind, hy]
      simp only []
      rw [hy', List.append_assoc]
    · rw [run_bind, List.append_assoc, hz nofun]
      exact hz' ha rest mismatches

end Replays

variable {g : Generator σ}

theorem run_cons (step : Step) (steps : List Step) (s : σ) :
    g.run (step :: steps) s = (((g.step step).run s).1 :: (g.run steps ((g.step step).run s).2).1,
      (g.run steps ((g.step step).run s).2).2) :=
  rfl

theorem answer_recording (request : Request α) (s : σ) (before : List Choice) :
    g.recording.sampler.answer request ⟨s, before⟩ = ((g.sampler.answer request s).1,
      ⟨(g.sampler.answer request s).2,
        before ++ (request.log? (g.sampler.answer request s).1).toList⟩) :=
  rfl

section Honest

variable (honest : g.sampler.Honest)

include honest

theorem answer_replaying {request : Request α} (hp : request.Proper) {s : σ} {choice : Choice}
    (hc : request.log? (g.sampler.answer request s).1 = some choice) (rest : List Choice)
    (mismatches : Nat) :
    g.replaying.sampler.answer request ⟨choice :: rest, mismatches⟩
      = ((g.sampler.answer request s).1, ⟨rest, mismatches⟩) :=
  Script.answer_logged hc (honest.permits request s hp) rest mismatches

theorem ask_replays (request : Request α) (hp : request.Proper)
    (hlog : ∀ a, (request.log? a).isSome) :
    Replays (g.ask request) (g.recording.ask request) (g.replaying.ask request) := by
  intro s
  obtain ⟨choice, hc⟩ := Option.isSome_iff_exists.mp (hlog (g.sampler.answer request s).1)
  refine ⟨[choice], fun before => ?_, fun _ rest mismatches => ?_⟩
  · rw [run_ask, run_ask, answer_recording, hc, Option.toList_some]
  · rw [run_ask, run_ask, List.singleton_append, answer_replaying honest hp hc]

theorem askFor_replays (request : Request (Option α)) (hp : request.Proper)
    (hlog : ∀ a, (request.log? a).isSome = a.isSome) {e : GenError} (he : e.isUnanswered) :
    Replays (g.askFor request e) (g.recording.askFor request e) (g.replaying.askFor request e) := by
  intro s
  have ho := hlog (g.sampler.answer request s).1
  rcases ha : (g.sampler.answer request s).1 with _ | a <;> rw [ha] at ho
  · -- without an answer nothing is logged, but then the failure is one for want of an answer
    have hc : request.log? none = none :=
      Option.isNone_iff_eq_none.mp (Option.isSome_eq_false_iff.mp ho)
    refine ⟨[], fun before => ?_, fun hans => ?_⟩
    · rw [run_askFor, run_askFor, answer_recording, ha, hc, Option.toList_none]
    · rw [run_askFor, ha] at hans
      rw [hans e rfl] at he
      cases he
  · obtain ⟨choice, hc⟩ := Option.isSome_iff_exists.mp ho
    refine ⟨[choice], fun before => ?_, fun _ rest mismatches => ?_⟩
    · rw [run_askFor, run_askFor, answer_recording, ha, hc, Option.toList_some]
    · rw [run_askFor, run_askFor, List.singleton_append,
        answer_replaying honest hp (by rw [ha, hc])]

theorem replays_relates : g.Relates g.sampler.recording Script.sampler Replays where
  pure := .pure
  throw _ := .throw _
  bind := .bind
  ask := ask_replays honest
  askFor := askFor_replays honest

variable (valid : g.config.problem? = none)

include valid

theorem step_replays (step : Step) :
    Replays (g.step step) (g.recording.step step) (g.replaying.step step) :=
  (replays_relates honest).step valid step

/-- The choices logged over the steps, and what a script of them does. -/
theorem run_replays (steps : List Step) (s : σ) :
    ∃ log : List Choice,
      (∀ before, g.recording.run steps ⟨s, before⟩
        = ((g.run steps s).1, ⟨(g.run steps s).2, before ++ log⟩))
      ∧ ((∀ result ∈ (g.run steps s).1, Answered result) → ∀ rest mismatches,
          g.replaying.run steps ⟨log ++ rest, mismatches⟩
            = ((g.run steps s).1, ⟨rest, mismatches⟩)) := by
  induction steps generalizing s with
  | nil =>
    refine ⟨[], fun before => ?_, fun _ rest mismatches => rfl⟩
    rw [List.append_nil]
    rfl
  | cons step steps ih =>
    -- the log of the first step comes before that of the others, which start where it stops
    obtain ⟨log, hrec, hrep⟩ := step_replays honest valid step s
    obtain ⟨log', hrec', hrep'⟩ := ih ((g.step step).run s).2
    refine ⟨log ++ log', fun before => ?_, fun hans rest mismatches => ?_⟩
    · rw [run_cons, run_cons, hrec, hrec', List.append_assoc]
    · have hfirst : Answered ((g.step step).run s).1 := hans _ List.mem_cons_self
      have hothers : ∀ r ∈ (g.run steps ((g.step step).run s).2).1, Answered r :=
        fun r hr => hans r (List.mem_cons_of_mem _ hr)
      rw [run_cons, run_cons, List.append_assoc, hrep hfirst, hrep' hothers]

/-- Recording does not change a run, and unless an answer was missing in it, the script of the
recorded choices gives the same results, with no choice left over and none that did not fit. -/
theorem run_replaying_recorded (steps : List Step) (s : σ) :
    (g.recording.run steps ⟨s, []⟩).1 = (g.run steps s).1
      ∧ (g.recording.run steps ⟨s, []⟩).2.inner = (g.run steps s).2
      ∧ ((∀ result ∈ (g.run steps s).1, Answered result) →
        g.replaying.run steps ⟨(g.recording.run steps ⟨s, []⟩).2.choices, 0⟩
          = ((g.run steps s).1, ⟨[], 0⟩)) := by
  obtain ⟨log, hrec, hrep⟩ := run_replays honest valid steps s
  rw [hrec]
  refine ⟨rfl, rfl, fun hans => ?_⟩
  have h := hrep hans [] 0
  rw [List.append_nil] at h
  exact h

end Honest

/-- A script of two choices is recorded as the nine that the run makes of it. -/
theorem run_replaying_recorded_scripted :
    let g : Generator Script := { config := {}, sampler := Script.sampler }
    let steps : List Step := [.expr, .declaration]
    let s : Script := ⟨[.exprKind .unary, .unaryOp .neg], 0⟩
    (∀ result ∈ (g.run steps s).1, Answered result)
      ∧ (g.recording.run steps ⟨s, []⟩).2.choices.length = 9
      ∧ (g.recording.run steps ⟨s, []⟩).1 = (g.run steps s).1
      ∧ (g.recording.run steps ⟨s, []⟩).2.inner = (g.run steps s).2
      ∧ g.replaying.run steps ⟨(g.recording.run steps ⟨s, []⟩).2.choices, 0⟩
        = ((g.run steps s).1, ⟨[], 0⟩) := by
  intro g steps s
  have hans : ∀ result ∈ (g.run steps s).1, Answered result := by decide +kernel
  obtain ⟨hresults, hinner, hreplay⟩ :=
    run_replaying_recorded (g := g) Script.sampler_honest (by decide +kernel) steps s
  exact ⟨hans, by decide +kernel, hresults, hinner, hreplay hans⟩

end Generator

end Assay
