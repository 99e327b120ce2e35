import Libp2p.Library.Run
import Mathlib.Logic.Function.Basic

/-! # Parties that take steps in any order

Several parties, each with a transition relation of its own, take their steps one at a time in any order. An event
names the party that it happens to.
-/

namespace Libp2p.Library

variable {Party : Type*} [DecidableEq Party] {State Event : Type*} {step : Party → State → Event → State → Prop}
  {before after : Party → State} {event : Party × Event}

/-- One party takes a step, and the others stay as they are. -/
def Interleaved (step : Party → State → Event → State → Prop) (before : Party → State) (event : Party × Event)
    (after : Party → State) : Prop :=
  ∃ next, step event.1 (before event.1) event.2 next ∧ after = Function.update before event.1 next

/-- The same for parties that follow partial step functions. -/
def interleaveM (step : Party → State → Event → Option State) (before : Party → State) (event : Party × Event) :
    Option (Party → State) :=
  (step event.1 (before event.1) event.2).map (Function.update before event.1)

theorem Interleaved.of_interleaveM {step : Party → State → Event → Option State}
    (taken : interleaveM step before event = some after) :
    Interleaved (fun party before event after => step party before event = some after) before event after := by
  obtain ⟨next, stepped, rfl⟩ := Option.map_eq_some_iff.mp taken
  exact ⟨next, stepped, rfl⟩

/-- A fact about every party is kept if it is kept by the party that takes the step, and by the others, which may rely
on less. -/
theorem Interleaved.forall_party (holds later : Party → State → Prop) (taken : Interleaved step before event after)
    (start : ∀ party, holds party (before party)) (weaker : ∀ party state, holds party state → later party state)
    (kept : ∀ next, step event.1 (before event.1) event.2 next → holds event.1 (before event.1) → later event.1 next) :
    ∀ party, later party (after party) := by
  obtain ⟨next, stepped, rfl⟩ := taken
  intro party
  by_cases same : party = event.1
  · subst same
    rw [Function.update_self]
    exact kept next stepped (start event.1)
  · rw [Function.update_of_ne same]
    exact weaker party _ (start party)

end Libp2p.Library
