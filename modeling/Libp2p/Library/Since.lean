import Mathlib.Data.List.Induction
import Mathlib.Tactic.Common

/-! # What holds since an event

A history is a list of events, the last one at the end. Something holds when an event of the history began it and no later
one has ended it; whether an event begins or ends it may depend on what had happened before.
-/

namespace Libp2p.Library

variable {Event : Type*}

/-- Some event began it, and none after that has ended it. -/
def Since (begins ends : List Event → Event → Prop) (history : List Event) : Prop :=
  ∃ before event after, history = before ++ event :: after ∧ begins before event ∧
    ∀ middle later rest, after = middle ++ later :: rest → ¬ ends (before ++ event :: middle) later

variable {begins ends : List Event → Event → Prop} {history : List Event} {event : Event}

theorem not_since_nil : ¬ Since begins ends [] := by
  rintro ⟨before, event, after, whole, -⟩
  exact List.append_ne_nil_of_right_ne_nil _ (List.cons_ne_nil _ _) whole.symm

/-- One more event. -/
theorem since_snoc :
    Since begins ends (history ++ [event]) ↔ begins history event ∨ (Since begins ends history ∧ ¬ ends history event) := by
  constructor
  · rintro ⟨before, first, after, whole, began, lasted⟩
    rcases List.eq_nil_or_concat after with rfl | ⟨middle, last, rfl⟩
    · obtain ⟨rfl, same⟩ := List.append_inj' whole rfl
      obtain rfl := List.singleton_inj.mp same
      exact .inl began
    · rw [List.concat_eq_append, ← List.cons_append, ← List.append_assoc] at whole
      obtain ⟨rfl, same⟩ := List.append_inj' whole rfl
      obtain rfl := List.singleton_inj.mp same
      refine .inr ⟨⟨before, first, middle, rfl, began, fun part later rest split => ?_⟩, ?_⟩
      · refine lasted part later (rest ++ [event]) ?_
        rw [List.concat_eq_append, split, List.append_assoc, List.cons_append]
      · exact lasted middle event [] (List.concat_eq_append ..)
  · rintro (began | ⟨⟨before, first, after, rfl, began, lasted⟩, kept⟩)
    · refine ⟨history, event, [], rfl, began, fun middle later rest split => ?_⟩
      exact (List.append_ne_nil_of_right_ne_nil _ (List.cons_ne_nil _ _) split.symm).elim
    · refine ⟨before, first, after ++ [event], by rw [List.append_assoc, List.cons_append], began, ?_⟩
      intro middle later rest split
      rcases List.eq_nil_or_concat rest with rfl | ⟨front, last, rfl⟩
      · obtain ⟨rfl, same⟩ := List.append_inj' split rfl
        obtain rfl := List.singleton_inj.mp same
        exact kept
      · rw [List.concat_eq_append, ← List.cons_append, ← List.append_assoc] at split
        obtain ⟨rfl, -⟩ := List.append_inj' split rfl
        exact lasted middle later front rfl

theorem since_snoc_of_not_begins (quiet : ¬ begins history event) :
    Since begins ends (history ++ [event]) ↔ Since begins ends history ∧ ¬ ends history event :=
  since_snoc.trans (or_iff_right quiet)

/-- Two things that no event begins both, and that every beginning ends, do not hold together. -/
theorem since_exclusive {others : List Event → Event → Prop} {result : Prop}
    (both : ∀ history event, begins history event → others history event → result)
    (first : ∀ history event, begins history event → ends history event)
    (second : ∀ history event, others history event → ends history event)
    (one : Since begins ends history) (other : Since others ends history) : result := by
  induction history using List.reverseRecOn with
  | nil => exact (not_since_nil one).elim
  | append_singleton history event ih =>
    rcases since_snoc.mp one with begun | ⟨earlier, lasted⟩
    · rcases since_snoc.mp other with also | ⟨-, kept⟩
      · exact both history event begun also
      · exact (kept (first history event begun)).elim
    · rcases since_snoc.mp other with also | ⟨before, -⟩
      · exact (lasted (second history event also)).elim
      · exact ih earlier before

end Libp2p.Library
