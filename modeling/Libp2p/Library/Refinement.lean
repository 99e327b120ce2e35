import Mathlib.Tactic.Common

/-! # Machines that follow a specification

A partial machine takes commands and gives outputs. It follows a total one when from related states it always takes the
step, with the same output, and the states that are reached are related again.
-/

namespace Libp2p.Library

variable {State Abstract Command Output : Type*}

/-- The state that is reached and the outputs on the way; nothing when a step fails. -/
def runM (step : State → Command → Option (State × Output)) : State → List Command → Option (State × List Output)
  | state, [] => some (state, [])
  | state, command :: rest =>
    (step state command).bind fun (next, output) => (runM step next rest).map fun (final, outputs) => (final, output :: outputs)

def runAll (step : Abstract → Command → Abstract × Output) : Abstract → List Command → Abstract × List Output
  | state, [] => (state, [])
  | state, command :: rest =>
    let (next, output) := step state command
    let (final, outputs) := runAll step next rest
    (final, output :: outputs)

/-- Steps from related states are taken, with the outputs of the specification. -/
def Follows (related : State → Abstract → Prop) (step : State → Command → Option (State × Output))
    (specification : Abstract → Command → Abstract × Output) : Prop :=
  ∀ state abstract, related state abstract → ∀ command, ∃ next,
    step state command = some (next, (specification abstract command).2) ∧ related next (specification abstract command).1

/-- So are whole runs. -/
theorem Follows.run {related : State → Abstract → Prop} {step : State → Command → Option (State × Output)}
    {specification : Abstract → Command → Abstract × Output} (follows : Follows related step specification)
    {state : State} {abstract : Abstract} (start : related state abstract) (commands : List Command) :
    ∃ final, runM step state commands = some (final, (runAll specification abstract commands).2) ∧
      related final (runAll specification abstract commands).1 := by
  induction commands generalizing state abstract with
  | nil => exact ⟨state, rfl, start⟩
  | cons command rest ih =>
    obtain ⟨next, taken, kept⟩ := follows state abstract start command
    obtain ⟨final, ran, holds⟩ := ih kept
    refine ⟨final, ?_, holds⟩
    rw [runM, taken, Option.bind_some]
    dsimp only
    rw [ran]
    rfl

end Libp2p.Library
