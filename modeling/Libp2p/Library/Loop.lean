import Mathlib.Logic.Relation

/-! # Loops as chains of steps

A loop over a list is a chain of a step relation when every iteration is. The guard of an iteration may need
facts that earlier iterations keep; they are carried by an invariant, which may also depend on the entries that
are still to come.
-/

namespace Libp2p.Library

open Relation

variable {σ α : Type*} {step : σ → σ → Prop} {body : σ → α → σ} {entries : List α} {state : σ}

/-- An invariant of every step is an invariant of a chain. -/
theorem chain_preserves (invariant : σ → Prop) {before after : σ} (chain : ReflTransGen step before after)
    (kept : ∀ before after, step before after → invariant before → invariant after)
    (initial : invariant before) : invariant after := by
  induction chain with
  | refl => exact initial
  | tail _ taken ih => exact kept _ _ taken ih

/-- The invariant holds with all entries ahead and each iteration hands it on to the rest. -/
theorem chain_foldl_rest (invariant : List α → σ → Prop)
    (iteration : ∀ state entry rest, invariant (entry :: rest) state →
      ReflTransGen step state (body state entry) ∧ invariant rest (body state entry))
    (start : invariant entries state) :
    ReflTransGen step state (entries.foldl body state) ∧ invariant [] (entries.foldl body state) := by
  induction entries generalizing state with
  | nil => exact ⟨.refl, start⟩
  | cons entry entries ih =>
    obtain ⟨first, kept⟩ := iteration state entry entries start
    obtain ⟨rest, final⟩ := ih kept
    exact ⟨first.trans rest, final⟩

/-- The invariant does not depend on the entries that are still to come. -/
theorem chain_foldl (invariant : σ → Prop)
    (iteration : ∀ state, ∀ entry ∈ entries, invariant state →
      ReflTransGen step state (body state entry) ∧ invariant (body state entry))
    (start : invariant state) :
    ReflTransGen step state (entries.foldl body state) ∧ invariant (entries.foldl body state) := by
  have iteration' : ∀ state entry rest, ((∀ other ∈ entry :: rest, other ∈ entries) ∧ invariant state) →
      ReflTransGen step state (body state entry) ∧
        ((∀ other ∈ rest, other ∈ entries) ∧ invariant (body state entry)) := by
    rintro state entry rest ⟨ahead, holds⟩
    obtain ⟨chain, kept⟩ := iteration state entry (ahead entry (by simp)) holds
    exact ⟨chain, fun other member => ahead other (by simp [member]), kept⟩
  obtain ⟨chain, -, final⟩ := chain_foldl_rest
    (fun rest state => (∀ entry ∈ rest, entry ∈ entries) ∧ invariant state) iteration'
    ⟨fun _ member => member, start⟩
  exact ⟨chain, final⟩

/-- A loop whose body is always a chain. -/
theorem chain_foldl_of_body (iteration : ∀ state, ∀ entry ∈ entries, ReflTransGen step state (body state entry)) :
    ReflTransGen step state (entries.foldl body state) :=
  (chain_foldl (fun _ => True) (fun state entry member _ => ⟨iteration state entry member, trivial⟩) trivial).1

/-- An invariant of every iteration is an invariant of the loop. -/
theorem foldl_preserves (invariant : σ → Prop)
    (kept : ∀ state, ∀ entry ∈ entries, invariant state → invariant (body state entry)) (start : invariant state) :
    invariant (entries.foldl body state) :=
  List.foldlRecOn entries body start fun state holds entry member => kept state entry member holds

/-- What every iteration keeps, the loop keeps. -/
theorem foldl_field {β : Type*} (field : σ → β) (kept : ∀ state entry, field (body state entry) = field state) :
    field (entries.foldl body state) = field state := by
  induction entries generalizing state with
  | nil => rfl
  | cons entry entries ih => rw [List.foldl_cons, ih, kept]

end Libp2p.Library
