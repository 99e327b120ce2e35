import Libp2p.Library.Duplex

/-! # Two coroutines on a stream that one of them may reset

The left party may reset the stream at any moment, which fails its pending operation. The right party learns of it later:
until an operation of it fails, too, it takes what is still in flight, and writes what nobody will read.

Where a failed operation ends a party, a reset takes nothing back: `Runs.shadow` compares a run with one in which the
stream is not reset and a party that has failed only stands still.
-/

namespace Libp2p.Library

/-- The state of two parties, and whether the left one has reset their stream. -/
structure Resettable (ε σ τ α : Type) where
  parties : Duplex ε σ τ α
  reset : Bool := false

namespace Resettable

/-- What happens next; the right party fails when it takes notice of the reset. -/
inductive Event where
  | turn (turn : Turn)
  | reset
  | notice
deriving DecidableEq, Repr

variable {ε σ τ α : Type} (leftBody : σ → Coro ε (σ ⊕ α)) (rightBody : τ → Coro ε (τ ⊕ α)) (closed : ε)

/-- One event; `closed` is what operations on a reset stream fail with. -/
def step (state : Resettable ε σ τ α) : Event → Option (Resettable ε σ τ α)
  | .turn (.left count) =>
    if state.reset then none
    else (state.parties.step leftBody rightBody (.left count)).map fun parties => { state with parties }
  | .turn (.right count) =>
    (state.parties.step leftBody rightBody (.right count)).map fun parties => { state with parties }
  | .reset => (advance leftBody state.parties.left (.failed closed)).map fun left =>
      { parties := { state.parties with left }, reset := true }
  | .notice =>
    if state.reset then (advance rightBody state.parties.right (.failed closed)).map fun right =>
      { state with parties := { state.parties with right } }
    else none

abbrev Runs (source : Duplex ε σ τ α) : List Event → Resettable ε σ τ α → Prop :=
  Run (fun before event after => before.step leftBody rightBody closed event = some after) { parties := source }

/-- Nothing can happen any more, unless the left party resets the stream. -/
def Quiet (state : Resettable ε σ τ α) : Prop :=
  ∀ event, event ≠ .reset → state.step leftBody rightBody closed event = none

/-- The parties as they are, and as they were without the reset; the index counts the parties that have failed. -/
inductive Shadow : Resettable ε σ τ α → Duplex ε σ τ α → ℕ → Prop
  | whole (parties : Duplex ε σ τ α) : Shadow { parties } parties 0
  | reset (parties : Duplex ε σ τ α) :
      Shadow { parties := { parties with left := .ret (.error closed) }, reset := true } parties 1
  | noticed (parties : Duplex ε σ τ α) :
      Shadow { parties := { parties with left := .ret (.error closed), right := .ret (.error closed) }, reset := true }
        parties 2

variable {leftBody rightBody closed} {raises raises' : ε → Prop} {post : σ ⊕ α → Prop} {post' : τ ⊕ α → Prop}
  {source parties : Duplex ε σ τ α} {before after state : Resettable ε σ τ α} {events : List Event} {event : Event}
  {failed : ℕ}

/-- A failed operation ends both parties. -/
structure Fragile (raises raises' : ε → Prop) (post : σ ⊕ α → Prop) (post' : τ ⊕ α → Prop)
    (parties : Duplex ε σ τ α) : Prop where
  left : parties.left.Yields raises post
  right : parties.right.Yields raises' post'

theorem Fragile.step {turn : Turn} {next : Duplex ε σ τ α} (fragile : Fragile raises raises' post post' parties)
    (left : ∀ state, (leftBody state).Yields raises post) (right : ∀ state, (rightBody state).Yields raises' post')
    (taken : parties.step leftBody rightBody turn = some next) : Fragile raises raises' post post' next := by
  cases turn with
  | left count =>
    obtain ⟨⟨coro, inbound, outbound⟩, completed, rfl⟩ := Option.map_eq_some_iff.mp taken
    obtain ⟨completion, advanced, sound⟩ := complete_advance completed
    have yields := yields_advance leftBody left fragile.left advanced
    cases completion with
    | failed failure => exact absurd rfl (sound failure)
    | _ => exact ⟨yields, fragile.right⟩
  | right count =>
    obtain ⟨⟨coro, inbound, outbound⟩, completed, rfl⟩ := Option.map_eq_some_iff.mp taken
    obtain ⟨completion, advanced, sound⟩ := complete_advance completed
    have yields := yields_advance rightBody right fragile.right advanced
    cases completion with
    | failed failure => exact absurd rfl (sound failure)
    | _ => exact ⟨fragile.left, yields⟩

/-- The right party moves as it would without the reset. -/
theorem step_right_of_left {left : Coro ε (σ ⊕ α)} {count : ℕ} {next : Duplex ε σ τ α}
    (taken : ({ parties with left } : Duplex ε σ τ α).step leftBody rightBody (.right count) = some next) :
    ∃ other, parties.step leftBody rightBody (.right count) = some other ∧ next = { other with left } := by
  obtain ⟨⟨coro, inbound, outbound⟩, completed, rfl⟩ := Option.map_eq_some_iff.mp taken
  exact ⟨_, Option.map_eq_some_iff.mpr ⟨_, completed, rfl⟩, rfl⟩

/-- One event leaves the shadow alone or is a turn of it; a party that fails is counted. -/
theorem Shadow.step (shadow : Shadow closed before parties failed) (fragile : Fragile raises raises' post post' parties)
    (left : ∀ state, (leftBody state).Yields raises post) (right : ∀ state, (rightBody state).Yields raises' post')
    (taken : before.step leftBody rightBody closed event = some after) :
    Shadow closed after parties (failed + 1) ∨
      ∃ turn next, parties.step leftBody rightBody turn = some next ∧ Shadow closed after next failed := by
  cases event with
  | turn turn =>
    right
    cases turn with
    | left count =>
      obtain ⟨open_, stepped⟩ := Option.ite_none_left_eq_some.mp taken
      obtain ⟨next, moved, rfl⟩ := Option.map_eq_some_iff.mp stepped
      cases shadow with
      | whole => exact ⟨_, next, moved, .whole next⟩
      | reset => exact absurd rfl open_
      | noticed => exact absurd rfl open_
    | right count =>
      obtain ⟨next, moved, rfl⟩ := Option.map_eq_some_iff.mp taken
      cases shadow with
      | whole => exact ⟨_, next, moved, .whole next⟩
      | reset =>
        obtain ⟨other, alone, rfl⟩ := step_right_of_left moved
        exact ⟨_, other, alone, .reset other⟩
      | noticed =>
        simp [Duplex.step, complete] at moved
  | reset =>
    obtain ⟨coro, advanced, rfl⟩ := Option.map_eq_some_iff.mp taken
    cases shadow with
    | whole =>
      have ended : coro = .ret (.error closed) := yields_advance leftBody left fragile.left advanced
      rw [ended]
      exact .inl (.reset parties)
    | reset => cases advanced
    | noticed => cases advanced
  | notice =>
    obtain ⟨reset, moved⟩ := Option.ite_none_right_eq_some.mp taken
    obtain ⟨coro, advanced, rfl⟩ := Option.map_eq_some_iff.mp moved
    cases shadow with
    | whole => cases reset
    | reset =>
      have ended : coro = .ret (.error closed) := yields_advance rightBody right fragile.right advanced
      rw [ended]
      exact .inl (.noticed parties)
    | noticed => cases advanced

/-- A run is one of parties whose stream is not reset, but for the failures, of which there are at most two. -/
theorem Runs.shadow (fragile : Fragile raises raises' post post' source)
    (left : ∀ state, (leftBody state).Yields raises post) (right : ∀ state, (rightBody state).Yields raises' post')
    (run : Runs leftBody rightBody closed source events state) :
    ∃ turns parties failed, Duplex.Runs leftBody rightBody source turns parties ∧ Shadow closed state parties failed ∧
      Fragile raises raises' post post' parties ∧ events.length = turns.length + failed := by
  induction run with
  | nil => exact ⟨[], source, 0, .nil, .whole source, fragile, rfl⟩
  | snoc _ taken ih =>
    obtain ⟨turns, parties, failed, ran, shadow, fragile, length⟩ := ih
    rcases shadow.step fragile left right taken with fails | ⟨turn, next, moved, shadow⟩
    · exact ⟨turns, parties, failed + 1, ran, fails, fragile, by rw [List.length_append, length]; rfl⟩
    · refine ⟨turns ++ [turn], next, failed, ran.snoc moved, shadow, fragile.step left right moved, ?_⟩
      simp only [List.length_append, List.length_singleton]
      omega

end Resettable

end Libp2p.Library
