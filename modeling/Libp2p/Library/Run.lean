import Mathlib.Data.List.Forall2
import Mathlib.Data.List.Induction

/-! # Finite runs of a labelled transition relation

A run is a finite list of events together with the state it reaches; the newest event is last, so
a history variable over the events grows by appending. Invariants are proved once for a step and
lifted to every run by `Run.preserves`; `Run.preserves_history` lets the invariant mention the
events seen so far.
-/

namespace Libp2p.Library

variable {State Event : Type*}

/-- The states reached from `source` by a finite list of events, in the order they happen. -/
inductive Run (step : State → Event → State → Prop) (source : State) : List Event → State → Prop
  | nil : Run step source [] source
  | snoc {events : List Event} {event : Event} {middle target : State} :
      Run step source events middle → step middle event target →
      Run step source (events ++ [event]) target

namespace Run

variable {step : State → Event → State → Prop} {source middle target : State}
  {first second events : List Event}

/-- A single step is a run of one event. -/
theorem single {event : Event} (taken : step source event target) : Run step source [event] target :=
  .snoc .nil taken

/-- Runs compose at their shared state. -/
theorem append (left : Run step source first middle) (right : Run step middle second target) :
    Run step source (first ++ second) target := by
  induction right with
  | nil => simpa using left
  | snoc _ taken ih => simpa only [List.append_assoc] using ih.snoc taken

/-- An invariant of the step relation that may mention the events seen so far holds along runs. -/
theorem preserves_history (invariant : List Event → State → Prop) (initial : invariant [] source)
    (kept : ∀ events event before after, invariant events before → step before event after →
      invariant (events ++ [event]) after)
    (run : Run step source events target) : invariant events target := by
  induction run with
  | nil => exact initial
  | snoc _ taken ih => exact kept _ _ _ _ ih taken

/-- An invariant of the step relation holds in every state a run reaches. -/
theorem preserves (invariant : State → Prop) (initial : invariant source)
    (kept : ∀ event before after, invariant before → step before event after → invariant after)
    (run : Run step source events target) : invariant target :=
  run.preserves_history (fun _ => invariant) initial fun _ event before after => kept event before after

/-- A list of events that a partial step function can follow is a run. -/
theorem of_foldlM {step : State → Event → Option State} (followed : events.foldlM step source = some target) :
    Run (fun before event after => step before event = some after) source events target := by
  induction events using List.reverseRecOn generalizing target with
  | nil =>
    obtain rfl := Option.some.inj followed
    exact .nil
  | append_singleton events event ih =>
    rw [List.foldlM_append, Option.bind_eq_bind, Option.bind_eq_some_iff] at followed
    obtain ⟨middle, before, taken⟩ := followed
    simp only [List.foldlM_cons, List.foldlM_nil, bind_pure] at taken
    exact .snoc (ih before) taken

/-- A partial step function follows its own runs. -/
theorem to_foldlM {step : State → Event → Option State}
    (run : Run (fun before event after => step before event = some after) source events target) :
    events.foldlM step source = some target := by
  induction run with
  | nil => rfl
  | snoc _ taken ih =>
    rw [List.foldlM_append, ih]
    simpa using taken

/-- The events of a run of a partial step function determine where it leads. -/
theorem unique {step : State → Event → Option State}
    (first : Run (fun before event after => step before event = some after) source events target)
    (second : Run (fun before event after => step before event = some after) source events middle) :
    target = middle :=
  Option.some.inj (first.to_foldlM.symm.trans second.to_foldlM)

/-- A weaker step relation has at least the same runs. -/
theorem mono {other : State → Event → State → Prop}
    (weaker : ∀ event before after, step before event after → other before event after)
    (run : Run step source events target) : Run other source events target := by
  induction run with
  | nil => exact .nil
  | snoc _ taken ih => exact .snoc ih (weaker _ _ _ taken)

/-- The same for steps that are only taken under a condition. -/
theorem of_foldlM_guarded {step : State → Event → Option State} {condition : State → Event → Prop}
    [∀ before event, Decidable (condition before event)]
    (followed : events.foldlM (fun before event => if condition before event then step before event else none) source =
      some target) :
    Run (fun before event after => step before event = some after ∧ condition before event) source events target := by
  refine (of_foldlM followed).mono fun event before after taken => ?_
  obtain ⟨holds, stepped⟩ := Option.ite_none_right_eq_some.mp taken
  exact ⟨stepped, holds⟩

/-- The same for steps that may fail. -/
theorem of_foldlM_except {ε : Type*} {step : State → Event → Except ε State} {condition : State → Event → Prop}
    [∀ before event, Decidable (condition before event)]
    (followed : events.foldlM
      (fun before event => if condition before event then (step before event).toOption else none) source = some target) :
    Run (fun before event after => step before event = .ok after ∧ condition before event) source events target := by
  refine (of_foldlM_guarded followed).mono fun event before after taken => ⟨?_, taken.2⟩
  cases stepped : step before event with
  | error error =>
    rw [stepped] at taken
    cases taken.1
  | ok next =>
    rw [stepped] at taken
    exact congrArg Except.ok (Option.some.inj taken.1)

/-- Two conditions on steps that agree along the runs of a relation select the same runs. -/
theorem and_iff {first second : State → Event → State → Prop}
    (agree : ∀ events event before after, Run step source events before → step before event after →
      (first before event after ↔ second before event after)) :
    Run (fun before event after => step before event after ∧ first before event after) source events target ↔
      Run (fun before event after => step before event after ∧ second before event after) source events target := by
  constructor
  · intro run
    refine run.preserves_history (Run _ source) .nil ?_
    rintro events event before after selected ⟨taken, holds⟩
    exact selected.snoc ⟨taken, (agree _ _ _ _ (selected.mono fun _ _ _ both => both.1) taken).mp holds⟩
  · intro run
    refine run.preserves_history (Run _ source) .nil ?_
    rintro events event before after selected ⟨taken, holds⟩
    exact selected.snoc ⟨taken, (agree _ _ _ _ (selected.mono fun _ _ _ both => both.1) taken).mpr holds⟩

/-- Events that have the same effect may be replaced for one another. -/
theorem replace (related : Event → Event → Prop) {others : List Event}
    (same : ∀ other event before after, related other event → step before event after → step before other after)
    (run : Run step source events target) (all : List.Forall₂ related others events) :
    Run step source others target := by
  induction run generalizing others with
  | nil =>
    rw [List.forall₂_nil_right_iff.mp all]
    exact .nil
  | @snoc events event middle target _ taken ih =>
    have early := List.forall₂_take_append others events [event] all
    have late := List.forall₂_drop_append others events [event] all
    obtain ⟨other, rest, related, ended, last⟩ := List.forall₂_cons_right_iff.mp late
    rw [List.forall₂_nil_right_iff.mp ended] at last
    rw [← List.take_append_drop events.length others, last]
    exact .snoc (ih early) (same other event middle target related taken)

end Run

section Collecting

variable {Note : Type*} {step : State → Event → State → Prop} {yields : State → Event → List Note}

/-- A step relation that also collects, in order, what every step yields. -/
def Collecting (step : State → Event → State → Prop) (yields : State → Event → List Note)
    (before : State × List Note) (event : Event) (after : State × List Note) : Prop :=
  step before.1 event after.1 ∧ after.2 = before.2 ++ yields before.1 event

/-- One step of a partial step function that collects what it yields. -/
def collectM (step : State → Event → Option State) (yields : State → Event → List Note) (before : State × List Note)
    (event : Event) : Option (State × List Note) :=
  (step before.1 event).map fun after => (after, before.2 ++ yields before.1 event)

theorem Run.of_collectM {step : State → Event → Option State} {events : List Event} {source target : State × List Note}
    (followed : events.foldlM (collectM step yields) source = some target) :
    Run (Collecting (fun before event after => step before event = some after) yields) source events target := by
  refine (Run.of_foldlM followed).mono fun event before after taken => ?_
  obtain ⟨next, stepped, rfl⟩ := Option.map_eq_some_iff.mp taken
  exact ⟨stepped, rfl⟩

end Collecting

end Libp2p.Library
