import Libp2p.Basic.Streams
import Libp2p.Library.Resettable

/-! # Pings

The pinger writes a random message, waits for as many bytes and compares them; the responder writes back
whatever it has read. Both loop for as long as the stream lives. A ping that takes too long does not: its timer
resets the stream, and that is all that ever ends a session. Until then it does not come to rest, and a long
schedule has answered many pings.
-/

namespace Libp2p.Ping

open Library

/-- What ends the use of a stream. -/
inductive Error where
  | stream (failure : StreamError)
  | invalidResponse
deriving DecidableEq, Repr

instance : Coro.StreamFaults Error where
  zeroBytesRead := .stream .zeroBytesRead
  tooMuchBytesRead := .stream .tooMuchBytesRead
  zeroBytesWritten := .stream .zeroBytesWritten
  tooMuchBytesWritten := .stream .tooMuchBytesWritten

def kPingSize : ℕ := 32

/-- An array of `kPingSize` bytes. -/
structure PingMessage where
  bytes : Bytes
  size : bytes.length = kPingSize

/-- `STREAM_CLOSED`, with which operations on a reset stream fail. -/
def closed : Error := .stream .stream

/-- One iteration of the responder. -/
def handle (_ : Unit) : Coro Error (Unit ⊕ Empty) := do
  let message ← Coro.read kPingSize
  Coro.write message
  pure (.inl ())

/-- One ping on an open stream. Its timer runs beside it and resets the stream when it fires, which is an event of the
session and not a step of the coroutine. -/
def ping (message : PingMessage) : Coro Error Unit := do
  Coro.write message.bytes
  let reply ← Coro.read kPingSize
  if reply ≠ message.bytes then throw .invalidResponse

/-- The pinger's use of one stream, which a failed ping ends; the state counts the messages drawn. The timer that spaces
the pings delays the next one only. -/
def pingLoop (random : ℕ → PingMessage) (drawn : ℕ) : Coro Error (ℕ ⊕ Empty) := do
  ping (random drawn)
  pure (.inl (drawn + 1))

/-- Both parties at the start of their loops. -/
def session (random : ℕ → PingMessage) : Duplex Error ℕ Unit Empty where
  left := pingLoop random 0
  right := handle ()

/-- The runs of a session. A timer may fire at any moment: late in a ping, or with its handler queued already when the
reply arrives. -/
abbrev SessionRuns (random : ℕ → PingMessage) : List Resettable.Event → Resettable Error ℕ Unit Empty → Prop :=
  Resettable.Runs (pingLoop random) handle closed (session random)

/-- A loop that the reset of its stream has ended. -/
abbrev lost {α : Type} : Coro Error α := .ret (.error closed)

/-- `count` messages from the one numbered `first` on. -/
def messages (random : ℕ → PingMessage) : ℕ → ℕ → Bytes
  | _, 0 => []
  | first, count + 1 => (random first).bytes ++ messages random (first + 1) count

/-- Replies the pinger has read in full. -/
def answered (state : Duplex Error ℕ Unit Empty) : ℕ := state.toLeft.received.length / kPingSize

section Messages

variable (random : ℕ → PingMessage)

@[simp] theorem messages_succ (first count : ℕ) :
    messages random first (count + 1) = (random first).bytes ++ messages random (first + 1) count := rfl

@[simp] theorem length_messages (first count : ℕ) : (messages random first count).length = kPingSize * count := by
  induction count generalizing first with
  | zero => rfl
  | succ count ih =>
    rw [messages_succ, List.length_append, ih, (random first).size, Nat.mul_succ, Nat.add_comm]

end Messages

section Parties

variable {random : ℕ → PingMessage} {input output : Bytes}

end Parties

section Sessions

variable {random : ℕ → PingMessage} {turns : List Turn} {state : Duplex Error ℕ Unit Empty}
  {events : List Resettable.Event} {final : Resettable Error ℕ Unit Empty}

/-- The bytes of some messages, the last one perhaps in part. -/
def Pings (random : ℕ → PingMessage) (bytes : Bytes) : Prop := ∃ count, bytes <+: messages random 0 count

/-- Where the two parties stand, read off the bytes that have arrived. -/
structure Standing (random : ℕ → PingMessage) (state : Duplex Error ℕ Unit Empty) : Prop where
  heard : Pings random state.toLeft.received
  asked : state.toRight.sent <+: messages random 0 (answered state + 1)
  echoed : state.toLeft.sent <+: state.toRight.received
  left : state.left.Writing ∨ (state.left.Reading ∧ state.toRight.sent.length = kPingSize * (answered state + 1))
  right : state.right.Writing ∨ (state.right.Reading ∧
    state.toLeft.sent.length = kPingSize * (state.toRight.received.length / kPingSize))

theorem Standing.progress_le (standing : Standing random state) :
    state.progress ≤ 4 * (kPingSize * (answered state + 1)) := by
  have asked := standing.asked.length_le
  have echoed := standing.echoed.length_le
  have heardLeft := state.toLeft.bounded
  have heardRight := state.toRight.bounded
  rw [length_messages] at asked
  simp only [Duplex.progress, Pipe.received, List.length_take] at echoed ⊢
  omega

theorem Standing.pending (standing : Standing random state) :
    (∀ result, state.left ≠ .ret result) ∧ ∀ result, state.right ≠ .ret result := by
  refine ⟨fun result ended => ?_, fun result ended => ?_⟩
  · have stands := standing.left
    simp [ended, Coro.Writing, Coro.Reading] at stands
  · have stands := standing.right
    simp [ended, Coro.Writing, Coro.Reading] at stands

end Sessions

end Libp2p.Ping
