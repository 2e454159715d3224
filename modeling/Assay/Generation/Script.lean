import Assay.Generation.Request

/-!
# Scripts and recordings

A script is a list of choices that answers requests in turn. A scripted sampler uses a choice only
where it is valid, and otherwise gives the simplest valid answer, so that a shortened script still
yields a finite expression. A recording sampler logs the answers of another one.
-/

namespace Assay

/-- Choices not used yet, and how many did not fit the request they met. -/
structure Script where
  choices : List Choice
  mismatches : Nat := 0
deriving DecidableEq

namespace Script

/-- The valid answer that a choice gives to a request. -/
def validAnswer? {α : Type} (request : Request α) (choice : Choice) : Option α :=
  (request.read? choice).filter request.accepts

/-- Answers requests from the script, which loses one choice with each request. -/
def sampler : Sampler Script where
  answer request := fun script =>
    match script.choices with
    | [] => (request.simplest, script)
    | choice :: rest =>
      match validAnswer? request choice with
      | some answer => (answer, { script with choices := rest })
      | none => (request.simplest, ⟨rest, script.mismatches + 1⟩)

/-- Answers requests with the choices as they are, valid or not; where a choice has another form,
or none is left, the answer is blank. -/
def uncheckedSampler : Sampler (List Choice) where
  answer request := fun
    | [] => (request.blank, [])
    | choice :: rest => ((request.read? choice).getD request.blank, rest)

end Script

/-- A sampler's state with the choices logged so far. -/
structure Recording (σ : Type) where
  inner : σ
  choices : List Choice := []

/-- The sampler that logs the answers of another one. -/
def Sampler.recording {σ : Type} (sampler : Sampler σ) : Sampler (Recording σ) where
  answer request := fun recording =>
    let (answer, inner) := sampler.answer request recording.inner
    (answer, ⟨inner, recording.choices ++ (request.log? answer).toList⟩)

/-- The logged choices, leaving the log empty. -/
def Recording.takeChoices {σ : Type} (recording : Recording σ) : List Choice × Recording σ :=
  (recording.choices, { recording with choices := [] })

end Assay
