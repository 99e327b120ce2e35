import Libp2p.Library.Coroutine
import Libp2p.Library.Run
import Mathlib.Order.RelClasses

/-! # Two coroutines joined by a pair of reliable byte pipes

Each pipe is first in, first out and loses nothing; it remembers everything ever sent and how much
of it has been taken. A scheduling event names a party and the number of bytes its pending read or
write moves, so the runs of the system are all interleavings under all fragmentations.

`Duplex.Coherent` is the invariant that ties a state to the two party-local histories: what one
party has read is an initial part of what the other has written.
-/

namespace Libp2p.Library

theorem bounded_empty : 0 ≤ ([] : List UInt8).length := Nat.zero_le _

/-- A pipe with its complete history; the bytes after `taken` are in flight. -/
structure Pipe where
  sent : List UInt8 := []
  taken : ℕ := 0
  bounded : taken ≤ sent.length := by first | exact bounded_empty | simp

namespace Pipe

/-- The bytes that were sent and not yet taken. -/
def pending (pipe : Pipe) : List UInt8 := pipe.sent.drop pipe.taken

/-- The bytes that were already taken. -/
def received (pipe : Pipe) : List UInt8 := pipe.sent.take pipe.taken

theorem received_append_pending (pipe : Pipe) : pipe.received ++ pipe.pending = pipe.sent :=
  List.take_append_drop ..

/-- Append bytes at the sending end. -/
def put (pipe : Pipe) (data : List UInt8) : Pipe where
  sent := pipe.sent ++ data
  taken := pipe.taken
  bounded := by have := pipe.bounded; simp only [List.length_append]; omega

/-- Remove `count` of the pending bytes at the receiving end. -/
def take (pipe : Pipe) (count : ℕ) (available : count ≤ pipe.pending.length) : Pipe where
  sent := pipe.sent
  taken := pipe.taken + count
  bounded := by
    have := pipe.bounded
    simp only [pending, List.length_drop] at available
    omega

@[simp] theorem received_put (pipe : Pipe) (data : List UInt8) :
    (pipe.put data).received = pipe.received :=
  List.take_append_of_le_length pipe.bounded

@[simp] theorem sent_put (pipe : Pipe) (data : List UInt8) : (pipe.put data).sent = pipe.sent ++ data := rfl

@[simp] theorem sent_take (pipe : Pipe) (count : ℕ) (available : count ≤ pipe.pending.length) :
    (pipe.take count available).sent = pipe.sent := rfl

@[simp] theorem received_take (pipe : Pipe) (count : ℕ) (available : count ≤ pipe.pending.length) :
    (pipe.take count available).received = pipe.received ++ pipe.pending.take count := by
  simp only [received, take, pending, List.take_add]

end Pipe

/-- The party whose pending operation completes, and the number of bytes it moves. -/
inductive Turn where
  | left (count : ℕ)
  | right (count : ℕ)
deriving DecidableEq, Repr

section

variable {ε σ τ α : Type}

/-- Complete one pending operation of a party: it takes from `inbound` or gives to `outbound`. -/
def complete (body : σ → Coro ε (σ ⊕ α)) (coro : Coro ε (σ ⊕ α)) (inbound outbound : Pipe)
    (count : ℕ) : Option (Coro ε (σ ⊕ α) × Pipe × Pipe) :=
  match coro with
  | .ret _ => none
  | .readSome want resume =>
    if available : 0 < count ∧ count ≤ want ∧ count ≤ inbound.pending.length then
      some (unroll body (resume (.ok (inbound.pending.take count))), inbound.take count available.2.2,
        outbound)
    else none
  | .writeSome data resume =>
    if 0 < count ∧ count ≤ data.length then
      some (unroll body (resume (.ok count)), inbound, outbound.put (data.take count))
    else none

/-- A completed operation extends the party's history by the bytes it moved, at least one. -/
theorem complete_trace {body : σ → Coro ε (σ ⊕ α)} {coro coro' : Coro ε (σ ⊕ α)}
    {inbound outbound inbound' outbound' : Pipe} {count : ℕ}
    (completed : complete body coro inbound outbound count = some (coro', inbound', outbound')) :
    ∃ data given, Trace body coro data given coro' ∧
      inbound'.received = inbound.received ++ data ∧ inbound'.sent = inbound.sent ∧
      outbound'.received = outbound.received ∧ outbound'.sent = outbound.sent ++ given ∧
      0 < data.length + given.length := by
  cases coro with
  | ret result => simp [complete] at completed
  | readSome want resume =>
    simp only [complete] at completed
    split_ifs at completed with available
    cases completed
    have size : (inbound.pending.take count).length = count := by
      rw [List.length_take]; omega
    have nonempty : inbound.pending.take count ≠ [] := by
      intro empty
      rw [empty] at size
      simp only [List.length_nil] at size
      omega
    refine ⟨inbound.pending.take count, [], ?_, by simp, rfl, rfl, by simp, by omega⟩
    simpa using (Trace.read nonempty (by omega) (.nil _) : Trace body (.readSome want resume) _ _ _)
  | writeSome data resume =>
    simp only [complete] at completed
    split_ifs at completed with available
    cases completed
    have size : (data.take count).length = count := by
      rw [List.length_take]; omega
    refine ⟨[], data.take count, ?_, by simp, rfl, by simp, by simp, by omega⟩
    simpa using (Trace.write available.1 available.2 (.nil _) : Trace body (.writeSome data resume) _ _ _)

/-- A completed operation is one that the stream completes so, without a failure. -/
theorem complete_advance {body : σ → Coro ε (σ ⊕ α)} {coro coro' : Coro ε (σ ⊕ α)}
    {inbound outbound inbound' outbound' : Pipe} {count : ℕ}
    (completed : complete body coro inbound outbound count = some (coro', inbound', outbound')) :
    ∃ completion, advance body coro completion = some coro' ∧ ∀ failure, completion ≠ .failed failure := by
  cases coro with
  | ret result => cases completed
  | readSome want resume =>
    simp only [complete] at completed
    split_ifs at completed with available
    cases completed
    have size : (inbound.pending.take count).length = count := List.length_take_of_le available.2.2
    have fits : inbound.pending.take count ≠ [] ∧ (inbound.pending.take count).length ≤ want :=
      ⟨List.ne_nil_of_length_pos (by omega), by omega⟩
    exact ⟨.read (inbound.pending.take count), if_pos fits, by simp⟩
  | writeSome data resume =>
    simp only [complete] at completed
    split_ifs at completed with available
    cases completed
    exact ⟨.wrote count, if_pos available, by simp⟩

/-- A party that has bytes to give can move. -/
theorem complete_of_writing {body : σ → Coro ε (σ ⊕ α)} {coro : Coro ε (σ ⊕ α)}
    (inbound outbound : Pipe) (writing : coro.Writing) :
    complete body coro inbound outbound 1 ≠ none := by
  cases coro with
  | ret result => exact writing.elim
  | readSome want resume => exact writing.elim
  | writeSome data resume =>
    have := List.length_pos_iff.mpr writing
    rw [complete, if_pos (by omega)]
    simp

/-- A party that waits for input can move as soon as something is in flight. -/
theorem complete_of_reading {body : σ → Coro ε (σ ⊕ α)} {coro : Coro ε (σ ⊕ α)}
    {inbound : Pipe} (outbound : Pipe) (reading : coro.Reading) (pending : inbound.pending ≠ []) :
    complete body coro inbound outbound 1 ≠ none := by
  cases coro with
  | ret result => exact reading.elim
  | writeSome data resume => exact reading.elim
  | readSome want resume =>
    have := List.length_pos_iff.mpr pending
    simp only [Coro.Reading] at reading
    rw [complete, dif_pos (by omega)]
    simp

/-- The joint state of two parties. -/
structure Duplex (ε σ τ α : Type) where
  left : Coro ε (σ ⊕ α)
  right : Coro ε (τ ⊕ α)
  toRight : Pipe := {}
  toLeft : Pipe := {}

namespace Duplex

variable (leftBody : σ → Coro ε (σ ⊕ α)) (rightBody : τ → Coro ε (τ ⊕ α))

/-- One scheduling event; `none` when the named party cannot move that many bytes. -/
def step (state : Duplex ε σ τ α) : Turn → Option (Duplex ε σ τ α)
  | .left count => (complete leftBody state.left state.toLeft state.toRight count).map
      fun (left, toLeft, toRight) => { state with left, toLeft, toRight }
  | .right count => (complete rightBody state.right state.toRight state.toLeft count).map
      fun (right, toRight, toLeft) => { state with right, toRight, toLeft }

/-- The runs of the system from `source`. -/
abbrev Runs (source : Duplex ε σ τ α) : List Turn → Duplex ε σ τ α → Prop :=
  Run (fun before turn after => before.step leftBody rightBody turn = some after) source

/-- No party can move any number of bytes. -/
def Stuck (state : Duplex ε σ τ α) : Prop := ∀ turn, state.step leftBody rightBody turn = none

/-- Both parties' histories explain the state. -/
structure Coherent (left : Coro ε (σ ⊕ α)) (right : Coro ε (τ ⊕ α)) (state : Duplex ε σ τ α) :
    Prop where
  left : Trace leftBody left state.toLeft.received state.toRight.sent state.left
  right : Trace rightBody right state.toRight.received state.toLeft.sent state.right

/-- The bytes moved so far, counted once when sent and once when taken. -/
def progress (state : Duplex ε σ τ α) : ℕ :=
  state.toRight.sent.length + state.toRight.received.length +
    (state.toLeft.sent.length + state.toLeft.received.length)

variable {leftBody rightBody}

/-- Every event moves at least one byte. -/
theorem progress_lt {before after : Duplex ε σ τ α} {turn : Turn}
    (taken : before.step leftBody rightBody turn = some after) : before.progress < after.progress := by
  cases turn with
  | left count =>
    obtain ⟨⟨coro, inbound, outbound⟩, completed, rfl⟩ := Option.map_eq_some_iff.mp taken
    obtain ⟨data, given, -, received, sent, received', sent', positive⟩ := complete_trace completed
    simp only [progress, received, sent, received', sent', List.length_append]
    omega
  | right count =>
    obtain ⟨⟨coro, inbound, outbound⟩, completed, rfl⟩ := Option.map_eq_some_iff.mp taken
    obtain ⟨data, given, -, received, sent, received', sent', positive⟩ := complete_trace completed
    simp only [progress, received, sent, received', sent', List.length_append]
    omega

/-- A run is no longer than the number of bytes it has moved. -/
theorem Runs.length_le {source target : Duplex ε σ τ α} {turns : List Turn}
    (run : Runs leftBody rightBody source turns target) :
    turns.length + source.progress ≤ target.progress := by
  induction run with
  | nil => simp
  | snoc _ taken ih =>
    have := progress_lt taken
    simp only [List.length_append, List.length_singleton]
    omega

theorem Coherent.initial (left : Coro ε (σ ⊕ α)) (right : Coro ε (τ ⊕ α)) :
    Coherent leftBody rightBody left right { left, right } :=
  ⟨.nil _, .nil _⟩

theorem Coherent.step {left : Coro ε (σ ⊕ α)} {right : Coro ε (τ ⊕ α)}
    {before after : Duplex ε σ τ α} {turn : Turn}
    (coherent : Coherent leftBody rightBody left right before)
    (taken : before.step leftBody rightBody turn = some after) :
    Coherent leftBody rightBody left right after := by
  cases turn with
  | left count =>
    obtain ⟨⟨coro, inbound, outbound⟩, completed, rfl⟩ := Option.map_eq_some_iff.mp taken
    obtain ⟨data, given, trace, received, sent, received', sent', -⟩ := complete_trace completed
    refine ⟨?_, ?_⟩
    · simpa only [received, sent'] using coherent.left.append trace
    · simpa only [received', sent] using coherent.right
  | right count =>
    obtain ⟨⟨coro, inbound, outbound⟩, completed, rfl⟩ := Option.map_eq_some_iff.mp taken
    obtain ⟨data, given, trace, received, sent, received', sent', -⟩ := complete_trace completed
    refine ⟨?_, ?_⟩
    · simpa only [received', sent] using coherent.left
    · simpa only [received, sent'] using coherent.right.append trace

/-- Every reachable state is explained by the two party-local histories. -/
theorem Runs.coherent {left : Coro ε (σ ⊕ α)} {right : Coro ε (τ ⊕ α)} {state : Duplex ε σ τ α}
    {turns : List Turn} (run : Runs leftBody rightBody { left, right } turns state) :
    Coherent leftBody rightBody left right state :=
  run.preserves (Coherent leftBody rightBody left right) (Coherent.initial left right)
    fun _ _ _ coherent taken => coherent.step taken

/-- In a stuck state nobody holds bytes back, and a waiting party has taken everything sent to it. -/
theorem Stuck.left {state : Duplex ε σ τ α} (stuck : Stuck leftBody rightBody state) :
    ¬ state.left.Writing ∧ (state.left.Reading → state.toLeft.received = state.toLeft.sent) := by
  have none : complete leftBody state.left state.toLeft state.toRight 1 = none := by
    simpa [step] using stuck (.left 1)
  refine ⟨fun writing => complete_of_writing _ _ writing none, fun reading => ?_⟩
  by_contra open_
  have pending : state.toLeft.pending ≠ [] := by
    intro empty
    apply open_
    simpa only [empty, List.append_nil] using state.toLeft.received_append_pending
  exact complete_of_reading _ reading pending none

theorem Stuck.right {state : Duplex ε σ τ α} (stuck : Stuck leftBody rightBody state) :
    ¬ state.right.Writing ∧ (state.right.Reading → state.toRight.received = state.toRight.sent) := by
  have none : complete rightBody state.right state.toRight state.toLeft 1 = none := by
    simpa [step] using stuck (.right 1)
  refine ⟨fun writing => complete_of_writing _ _ writing none, fun reading => ?_⟩
  by_contra open_
  have pending : state.toRight.pending ≠ [] := by
    intro empty
    apply open_
    simpa only [empty, List.append_nil] using state.toRight.received_append_pending
  exact complete_of_reading _ reading pending none

/-- If each party says only what it may say while it hears what the other may say, then in every reachable
state both have. What may be said is closed under stopping early. -/
theorem Runs.confined {left : Coro ε (σ ⊕ α)} {right : Coro ε (τ ⊕ α)} {state : Duplex ε σ τ α}
    {turns : List Turn} (leftSays rightSays : List UInt8 → Prop)
    (silentLeft : leftSays []) (silentRight : rightSays [])
    (closedLeft : ∀ short long, short <+: long → leftSays long → leftSays short)
    (closedRight : ∀ short long, short <+: long → rightSays long → rightSays short)
    (speaksLeft : ∀ input output last, Trace leftBody left input output last → rightSays input → leftSays output)
    (speaksRight : ∀ input output last, Trace rightBody right input output last → leftSays input → rightSays output)
    (run : Runs leftBody rightBody { left, right } turns state) :
    leftSays state.toRight.sent ∧ rightSays state.toLeft.sent := by
  induction run with
  | nil => exact ⟨silentLeft, silentRight⟩
  | @snoc turns turn before after prior taken ih =>
    have coherent := Runs.coherent (prior.snoc taken)
    have hearsLeft : after.toLeft.received <+: after.toLeft.sent := ⟨_, Pipe.received_append_pending _⟩
    have hearsRight : after.toRight.received <+: after.toRight.sent := ⟨_, Pipe.received_append_pending _⟩
    cases turn with
    | left count =>
      obtain ⟨⟨coro, inbound, outbound⟩, completed, rfl⟩ := Option.map_eq_some_iff.mp taken
      obtain ⟨-, -, -, -, sent, -⟩ := complete_trace completed
      have unchanged : rightSays inbound.sent := sent ▸ ih.2
      exact ⟨speaksLeft _ _ _ coherent.left (closedRight _ _ hearsLeft unchanged), unchanged⟩
    | right count =>
      obtain ⟨⟨coro, inbound, outbound⟩, completed, rfl⟩ := Option.map_eq_some_iff.mp taken
      obtain ⟨-, -, -, -, sent, -⟩ := complete_trace completed
      have unchanged : leftSays inbound.sent := sent ▸ ih.1
      exact ⟨unchanged, speaksRight _ _ _ coherent.right (closedLeft _ _ hearsRight unchanged)⟩

/-- If each party stays inside its script while it hears the other's script, then in every reachable
state both have sent an initial part of their scripts. -/
theorem Runs.scripted {left : Coro ε (σ ⊕ α)} {right : Coro ε (τ ⊕ α)} {state : Duplex ε σ τ α}
    {turns : List Turn} {leftScript rightScript : List UInt8}
    (speaksLeft : ∀ input output last, Trace leftBody left input output last →
      input <+: rightScript → output <+: leftScript)
    (speaksRight : ∀ input output last, Trace rightBody right input output last →
      input <+: leftScript → output <+: rightScript)
    (run : Runs leftBody rightBody { left, right } turns state) :
    state.toRight.sent <+: leftScript ∧ state.toLeft.sent <+: rightScript :=
  run.confined (· <+: leftScript) (· <+: rightScript) List.nil_prefix List.nil_prefix (fun _ _ => .trans)
    (fun _ _ => .trans) speaksLeft speaksRight

/-- Where the bytes that can be moved are bounded, every run extends to a stuck state. -/
theorem Runs.exists_stuck {source state : Duplex ε σ τ α} {turns : List Turn} {bound : ℕ}
    (bounded : ∀ turns state, Runs leftBody rightBody source turns state → state.progress ≤ bound)
    (run : Runs leftBody rightBody source turns state) :
    ∃ turns state, Runs leftBody rightBody source turns state ∧ Stuck leftBody rightBody state := by
  induction room : bound - state.progress using Nat.strongRecOn generalizing turns state with
  | ind room ih =>
    by_cases stuck : Stuck leftBody rightBody state
    · exact ⟨turns, state, run, stuck⟩
    · obtain ⟨turn, enabled⟩ := not_forall.mp stuck
      obtain ⟨after, taken⟩ := Option.ne_none_iff_exists'.mp enabled
      have more := progress_lt taken
      have extended := bounded _ _ (run.snoc taken)
      exact ih _ (by omega) (run.snoc taken) rfl

end Duplex

end

end Libp2p.Library
