import Libp2p.Basic.PrefixReader
import Libp2p.Library.Coroutine

/-! # Length-prefixed messages over a byte stream

`readVarint` feeds the prefix reader one byte at a time; `readVarintMessage` checks the decoded size
before it allocates; `writeVarintMessage` writes the prefix and then the payload. Each is a tree of
the partial reads and writes it performs, so the results below hold for every fragmentation.
-/

namespace Libp2p

open Library

inductive MuxerError where
  | negotiationFailed
  | protocolViolation
  | internalError
deriving DecidableEq, Repr

/-- What a stream operation can fail with: the stream's own error, a refused prefix or payload, a
negotiation error, or a `logic_error` or bad access thrown by the code. -/
inductive StreamError where
  | stream
  | decodeSize
  | messageTooLong
  | muxer (error : MuxerError)
  | zeroBytesRead
  | tooMuchBytesRead
  | zeroBytesWritten
  | tooMuchBytesWritten
  | badAccess
deriving DecidableEq, Repr

instance : Coro.StreamFaults StreamError where
  zeroBytesRead := .zeroBytesRead
  tooMuchBytesRead := .tooMuchBytesRead
  zeroBytesWritten := .zeroBytesWritten
  tooMuchBytesWritten := .tooMuchBytesWritten

abbrev CoroOutcome (α : Type) := Coro StreamError α

theorem VarintPrefixReader.consume_gotBytes {reader : VarintPrefixReader} {byte : UInt8}
    (waiting : reader.state = .underflow) : (reader.consume byte).1.gotBytes = reader.gotBytes + 1 := by
  rw [consume, dif_pos waiting]
  dsimp only
  split_ifs <;> rfl

/-- The prefix loop, from any reader state. -/
def readVarintFrom (reader : VarintPrefixReader) : CoroOutcome ℕ :=
  if _ : reader.state = .underflow then do
    let byte ← Coro.read 1
    readVarintFrom (reader.consume (byte.headD 0)).1
  else if reader.state ≠ .ready then throw .decodeSize
  else pure reader.value
termination_by if reader.state = .underflow then 11 - reader.gotBytes else 0
decreasing_by
  rename_i waiting
  have := reader.bounded waiting
  rw [if_pos waiting, VarintPrefixReader.consume_gotBytes waiting]
  split_ifs <;> omega

/-- Read a LEB128 prefix. -/
def readVarint : CoroOutcome ℕ := readVarintFrom {}

/-- The default limit of `readVarintMessage`, 32 MiB. -/
def defaultMaxSize : ℕ := 32 <<< 20

/-- Read a length-prefixed message of at most `maxSize` bytes. -/
def readVarintMessage (maxSize : ℕ) : CoroOutcome Bytes := do
  let size ← readVarint
  if size > maxSize then throw .messageTooLong
  Coro.read size

/-- Write the length prefix, then the payload. -/
def writeVarintMessage (message : Bytes) : CoroOutcome Unit := do
  Coro.write (encodeVarint message.length)
  Coro.write message

section Outcomes

variable {raises : StreamError → Prop}

theorem yields_readVarintFrom (allowed : ∀ failure, failure ≠ .badAccess → raises failure) (reader : VarintPrefixReader) :
    (readVarintFrom reader).Yields raises fun _ => True := by
  induction reader using readVarintFrom.induct with
  | case1 reader waiting ih =>
    rw [readVarintFrom, dif_pos waiting]
    exact (Coro.yields_read (allowed _ (by decide)) (allowed _ (by decide)) _).bind fun byte _ => ih byte
  | case2 reader full bad =>
    rw [readVarintFrom, dif_neg full, if_pos bad]
    exact allowed _ (by decide)
  | case3 reader full good =>
    rw [readVarintFrom, dif_neg full, if_neg good]
    trivial

theorem yields_readVarintMessage (allowed : ∀ failure, failure ≠ .badAccess → raises failure) (maxSize : ℕ) :
    (readVarintMessage maxSize).Yields raises fun _ => True := by
  refine (yields_readVarintFrom allowed {}).bind fun size _ => ?_
  split_ifs
  · exact allowed _ (by decide)
  · exact Coro.yields_read (allowed _ (by decide)) (allowed _ (by decide)) size

end Outcomes

section Trace

variable {σ α : Type} {body : σ → CoroOutcome (σ ⊕ α)} {input output : Bytes} {last : CoroOutcome (σ ⊕ α)}

/-- On a stream that carries a prefix the reader accepts, the loop waits inside the prefix or has
taken exactly the prefix. -/
theorem trace_readVarintFrom {reader : VarintPrefixReader} {bytes : Bytes} {value : ℕ}
    {next : ℕ → CoroOutcome (σ ⊕ α)} {stream : Bytes} (accepts : reader.Accepts bytes value)
    (initial : input <+: bytes ++ stream)
    (trace : Trace body (unroll body (readVarintFrom reader >>= next)) input output last) :
    (input.length < bytes.length ∧ output = [] ∧ last.Reading) ∨
      ∃ rest, input = bytes ++ rest ∧ Trace body (unroll body (next value)) rest output last := by
  induction accepts generalizing input with
  | @last reader byte waiting ready =>
    rw [readVarintFrom, dif_pos waiting, Coro.bind_assoc] at trace
    rcases trace.of_read with ⟨short, empty, reading⟩ | ⟨data, rest, rfl, single, tail⟩
    · exact .inl ⟨short, empty, reading⟩
    · obtain ⟨other, rfl⟩ := List.length_eq_one_iff.mp single
      obtain ⟨rfl, -⟩ := List.cons_prefix_cons.mp initial
      rw [List.headD_cons, readVarintFrom, dif_neg (by rw [ready]; decide),
        if_neg (by rw [ready]; decide)] at tail
      exact .inr ⟨rest, rfl, tail⟩
  | @more reader byte bytes value waiting needed _ ih =>
    rw [readVarintFrom, dif_pos waiting, Coro.bind_assoc] at trace
    rcases trace.of_read with ⟨short, empty, reading⟩ | ⟨data, rest, rfl, single, tail⟩
    · exact .inl ⟨by simp only [List.length_cons]; omega, empty, reading⟩
    · obtain ⟨other, rfl⟩ := List.length_eq_one_iff.mp single
      obtain ⟨rfl, remaining⟩ := List.cons_prefix_cons.mp initial
      rcases ih remaining tail with ⟨short, empty, reading⟩ | ⟨rest', rfl, onward⟩
      · exact .inl ⟨by simpa using short, empty, reading⟩
      · exact .inr ⟨rest', rfl, onward⟩

/-- On a stream that carries a framed payload within the limit, reading a message waits inside the
frame or has taken exactly the frame and returns the payload. -/
theorem trace_readVarintMessage {maxSize : ℕ} {payload stream : Bytes}
    {next : Bytes → CoroOutcome (σ ⊕ α)} (fits : payload.length ≤ maxSize) (small : maxSize < 2 ^ 64)
    (initial : input <+: encodeVarint payload.length ++ payload ++ stream)
    (trace : Trace body (unroll body (readVarintMessage maxSize >>= next)) input output last) :
    (input.length < (encodeVarint payload.length ++ payload).length ∧ output = [] ∧ last.Reading) ∨
      ∃ rest, input = encodeVarint payload.length ++ payload ++ rest ∧
        Trace body (unroll body (next payload)) rest output last := by
  simp only [readVarintMessage, Coro.bind_assoc] at trace
  have accepts := VarintPrefixReader.accepts_encodeVarint (lt_of_le_of_lt fits small)
  rw [List.append_assoc] at initial
  rcases trace_readVarintFrom accepts initial trace with ⟨short, empty, reading⟩ | ⟨rest, rfl, tail⟩
  · exact .inl ⟨by simp only [List.length_append]; omega, empty, reading⟩
  · rw [if_neg (by omega)] at tail
    rcases tail.of_read with ⟨short, empty, reading⟩ | ⟨data, rest', rfl, length, onward⟩
    · exact .inl ⟨by simp only [List.length_append]; omega, empty, reading⟩
    · obtain ⟨more, whole⟩ := (List.prefix_append_right_inj _).mp initial
      rw [List.append_assoc] at whole
      obtain rfl : data = payload := List.append_inj_left whole length
      exact .inr ⟨rest', by simp, onward⟩

end Trace

end Libp2p
