import Libp2p.Basic.Streams
import Libp2p.Library.Wire

/-! # Messages over a reliable stream

What was framed message by message is read message by message, however the stream cuts it into pieces. After the last
whole frame a longer message, the end of the stream or its failure is an error of that call alone.
-/

namespace Libp2p

open Library

/-- The bytes of a message on the stream. -/
def framed (message : Bytes) : Bytes := encodeVarint message.length ++ message

/-- The messages are written one after another. -/
def sendAll : List Bytes → CoroOutcome Unit
  | [] => pure ()
  | message :: rest => do
    writeVarintMessage message
    sendAll rest

/-- The results of successive calls up to the first error, and the stream after them. -/
def receiveAll (maxSize : ℕ) : ℕ → Wire StreamError → List (Except StreamError Bytes) × Wire StreamError
  | 0, wire => ([], wire)
  | calls + 1, wire =>
    match (readVarintMessage maxSize).run wire with
    | (.error failure, after) => ([.error failure], after)
    | (.ok message, after) =>
      let (results, final) := receiveAll maxSize calls after
      (.ok message :: results, final)

variable {wire : Wire StreamError} {reader : VarintPrefixReader} {bytes rest message : Bytes} {value maxSize : ℕ}

section Prefix

/-- A prefix that the reader accepts is taken off the stream. -/
theorem run_readVarintFrom (accepts : reader.Accepts bytes value) (pending : wire.pending = bytes ++ rest) :
    ∃ after, (readVarintFrom reader).run wire = (.ok value, after) ∧ wire.Moved bytes [] after := by
  induction accepts generalizing wire with
  | @last reader byte waiting ready =>
    obtain ⟨after, ran, step⟩ := @Coro.run_read _ _ 1 wire (by rw [pending]; simp)
    rw [pending, List.singleton_append, List.take_succ_cons, List.take_zero] at ran step
    refine ⟨after, ?_, step⟩
    rw [readVarintFrom, dif_pos waiting, Coro.run_bind_ok ran, List.headD_cons, readVarintFrom,
      dif_neg (by rw [ready]; decide), if_neg (by rw [ready]; decide)]
    rfl
  | @more reader byte bytes value waiting needed _ ih =>
    obtain ⟨after, ran, step⟩ := @Coro.run_read _ _ 1 wire (by rw [pending]; simp)
    rw [pending, List.cons_append, List.take_succ_cons, List.take_zero] at ran step
    have left : after.pending = bytes ++ rest := by
      have split := step.pending
      rw [pending] at split
      exact (List.cons.inj split).2.symm
    obtain ⟨final, looped, steps⟩ := ih left
    refine ⟨final, ?_, step.trans steps⟩
    rw [readVarintFrom, dif_pos waiting, Coro.run_bind_ok ran, List.headD_cons, looped]

/-- A stream that ends inside a prefix fails there. -/
theorem run_readVarintFrom_short (accepts : reader.Accepts bytes value) (start : wire.pending <+: bytes)
    (short : wire.pending ≠ bytes) :
    ∃ after, (readVarintFrom reader).run wire = (.error wire.failure, after) := by
  induction accepts generalizing wire with
  | @last reader byte waiting ready =>
    have empty : wire.pending = [] := by
      rcases List.prefix_cons_iff.mp start with none | ⟨tail, whole, inside⟩
      · exact none
      · obtain rfl := List.prefix_nil.mp inside
        exact absurd whole short
    obtain ⟨after, ran, -⟩ := @Coro.run_read_short _ _ 1 wire (by rw [empty]; simp)
    refine ⟨after, ?_⟩
    rw [readVarintFrom, dif_pos waiting, Coro.run_bind_error ran]
  | @more reader byte bytes value waiting needed _ ih =>
    rcases List.prefix_cons_iff.mp start with empty | ⟨tail, whole, inside⟩
    · obtain ⟨after, ran, -⟩ := @Coro.run_read_short _ _ 1 wire (by rw [empty]; simp)
      refine ⟨after, ?_⟩
      rw [readVarintFrom, dif_pos waiting, Coro.run_bind_error ran]
    · obtain ⟨after, ran, step⟩ := @Coro.run_read _ _ 1 wire (by rw [whole]; simp)
      rw [whole, List.take_succ_cons, List.take_zero] at ran step
      have left : after.pending = tail := by
        have split := step.pending
        rw [whole] at split
        exact (List.cons.inj split).2.symm
      obtain ⟨final, looped⟩ := @ih after (left.symm ▸ inside) (by
        rw [left]
        rintro rfl
        exact short whole)
      refine ⟨final, ?_⟩
      rw [readVarintFrom, dif_pos waiting, Coro.run_bind_ok ran, List.headD_cons, looped, step.failure]

end Prefix

section Message

variable (bounded : maxSize < 2 ^ 64)

include bounded

/-- A message within the limit is read as it was framed. -/
theorem run_readVarintMessage (fits : message.length ≤ maxSize) (pending : wire.pending = framed message ++ rest) :
    ∃ after, (readVarintMessage maxSize).run wire = (.ok message, after) ∧ wire.Moved (framed message) [] after := by
  have accepts := VarintPrefixReader.accepts_encodeVarint (fits.trans_lt bounded)
  unfold framed at pending
  rw [List.append_assoc] at pending
  obtain ⟨middle, decoded, step⟩ := run_readVarintFrom accepts pending
  have left : middle.pending = message ++ rest := by
    have split := step.pending
    rw [pending] at split
    exact (List.append_cancel_left split).symm
  obtain ⟨after, ran, steps⟩ := @Coro.run_read _ _ message.length middle (by rw [left]; simp)
  rw [left, List.take_left] at ran steps
  refine ⟨after, ?_, step.trans steps⟩
  unfold readVarintMessage readVarint
  rw [Coro.run_bind_ok decoded, if_neg (by omega)]
  exact ran

omit bounded in
/-- A longer message is refused once its length is known. -/
theorem run_readVarintMessage_long (long : maxSize < message.length) (small : message.length < 2 ^ 64)
    (pending : encodeVarint message.length <+: wire.pending) :
    ∃ after, (readVarintMessage maxSize).run wire = (.error .messageTooLong, after) := by
  obtain ⟨rest, pending⟩ := pending
  obtain ⟨middle, decoded, -⟩ :=
    run_readVarintFrom (VarintPrefixReader.accepts_encodeVarint small) pending.symm
  refine ⟨middle, ?_⟩
  unfold readVarintMessage readVarint
  rw [Coro.run_bind_ok decoded, if_pos long]
  rfl

omit bounded in
/-- A stream that ends inside a frame within the limit, or inside the prefix of a longer one, fails there. -/
theorem run_readVarintMessage_short (small : message.length < 2 ^ 64) (start : wire.pending <+: framed message)
    (short : wire.pending ≠ framed message)
    (inside : message.length ≤ maxSize ∨ ¬ encodeVarint message.length <+: wire.pending) :
    ∃ after, (readVarintMessage maxSize).run wire = (.error wire.failure, after) := by
  have accepts := VarintPrefixReader.accepts_encodeVarint small
  unfold readVarintMessage readVarint
  by_cases decodes : encodeVarint message.length <+: wire.pending
  · obtain ⟨part, pending⟩ := decodes
    obtain ⟨middle, decoded, step⟩ := run_readVarintFrom accepts pending.symm
    have left : middle.pending = part := by
      have split := step.pending
      rw [← pending] at split
      exact (List.append_cancel_left split).symm
    have initial : part <+: message := by
      rw [← pending] at start
      exact (List.prefix_append_right_inj _).mp start
    have shorter : part.length < message.length := by
      refine lt_of_le_of_ne initial.length_le fun same => short ?_
      rw [← pending, initial.eq_of_length same]
      rfl
    obtain ⟨after, ran, -⟩ := @Coro.run_read_short _ _ message.length middle (by rw [left]; exact shorter)
    refine ⟨after, ?_⟩
    have fits := inside.resolve_right (not_not.mpr ⟨part, pending⟩)
    rw [Coro.run_bind_ok decoded, if_neg (by omega), ← step.failure]
    exact ran
  · have initial : wire.pending <+: encodeVarint message.length := by
      rcases List.prefix_or_prefix_of_prefix start (List.prefix_append _ _) with shorter | longer
      · exact shorter
      · exact absurd longer decodes
    obtain ⟨after, failed⟩ := run_readVarintFrom_short accepts initial fun same => decodes (by rw [same])
    exact ⟨after, by rw [Coro.run_bind_error failed]⟩

end Message

section Sequence

/-- All messages are written. -/
theorem run_sendAll (messages : List Bytes) (wire : Wire StreamError) :
    ∃ after, (sendAll messages).run wire = (.ok (), after) ∧ wire.Moved [] (messages.flatMap framed) after := by
  induction messages generalizing wire with
  | nil => exact ⟨wire, rfl, .refl wire⟩
  | cons message rest ih =>
    obtain ⟨first, sized, prefixed⟩ := @Coro.run_write StreamError _ (encodeVarint message.length) wire
    obtain ⟨second, paid, payload⟩ := @Coro.run_write StreamError _ message first
    obtain ⟨after, sent, tail⟩ := ih second
    refine ⟨after, ?_, (prefixed.trans payload).trans tail⟩
    have written : (writeVarintMessage message).run wire = (.ok (), second) := by
      unfold writeVarintMessage
      rw [Coro.run_bind_ok sized, paid]
    rw [sendAll, Coro.run_bind_ok written, sent]

/-- The calls that read framed messages, and those after them. -/
theorem receiveAll_framed (bounded : maxSize < 2 ^ 64) {messages : List Bytes}
    (fits : ∀ message ∈ messages, message.length ≤ maxSize) (more : ℕ)
    (pending : wire.pending = messages.flatMap framed ++ rest) :
    ∃ after, after.pending = rest ∧ after.failure = wire.failure ∧
      receiveAll maxSize (messages.length + more) wire =
        (messages.map .ok ++ (receiveAll maxSize more after).1, (receiveAll maxSize more after).2) := by
  induction messages generalizing wire with
  | nil => exact ⟨wire, pending, rfl, by rw [List.length_nil, Nat.zero_add]; rfl⟩
  | cons message others ih =>
    obtain ⟨first, fits⟩ := List.forall_mem_cons.mp fits
    rw [List.flatMap_cons, List.append_assoc] at pending
    obtain ⟨middle, ran, step⟩ := run_readVarintMessage bounded first pending
    have left : middle.pending = others.flatMap framed ++ rest := by
      have split := step.pending
      rw [pending] at split
      exact (List.append_cancel_left split).symm
    obtain ⟨after, remaining, failure, received⟩ := ih fits left
    refine ⟨after, remaining, failure.trans step.failure, ?_⟩
    rw [List.length_cons, show others.length + 1 + more = others.length + more + 1 by omega, receiveAll, ran]
    dsimp only
    rw [received]
    rfl

end Sequence

/-- Messages that were written are read in their order, whatever the pieces; a message that is too long, or a stream that
ends or fails inside a frame, is an error of the call that meets it, after the same messages. -/
theorem framing_transparent (bounded : maxSize < 2 ^ 64) {messages : List Bytes}
    (fits : ∀ message ∈ messages, message.length ≤ maxSize) (writer : Wire StreamError) :
    ∃ written, (sendAll messages).run writer = (.ok (), written) ∧
      written.sent = writer.sent ++ messages.flatMap framed ∧
      ∀ (reader : Wire StreamError) (rest : Bytes), reader.pending = messages.flatMap framed ++ rest →
        (∃ after, receiveAll maxSize messages.length reader = (messages.map .ok, after) ∧ after.pending = rest) ∧
        (∀ message : Bytes, message.length < 2 ^ 64 → maxSize < message.length → encodeVarint message.length <+: rest →
          (receiveAll maxSize (messages.length + 1) reader).1 = messages.map .ok ++ [.error .messageTooLong]) ∧
        (∀ message : Bytes, message.length < 2 ^ 64 → rest <+: framed message → rest ≠ framed message →
          message.length ≤ maxSize ∨ ¬ encodeVarint message.length <+: rest →
          (receiveAll maxSize (messages.length + 1) reader).1 = messages.map .ok ++ [.error reader.failure]) := by
  obtain ⟨written, sent, step⟩ := run_sendAll messages writer
  refine ⟨written, sent, step.sent, fun reader rest pending => ⟨?_, ?_, ?_⟩⟩
  · obtain ⟨after, remaining, -, received⟩ := receiveAll_framed bounded fits 0 pending
    refine ⟨after, ?_, remaining⟩
    rw [← Nat.add_zero messages.length, received]
    simp [receiveAll]
  · intro message small long start
    obtain ⟨after, remaining, -, received⟩ := receiveAll_framed bounded fits 1 pending
    obtain ⟨final, refused⟩ := run_readVarintMessage_long long small (remaining.symm ▸ start)
    rw [received, receiveAll, refused]
  · intro message small start short inside
    obtain ⟨after, remaining, failure, received⟩ := receiveAll_framed bounded fits 1 pending
    rw [← remaining] at start short inside
    obtain ⟨final, failed⟩ := run_readVarintMessage_short small start short inside
    rw [received, receiveAll, failed, failure]

theorem framing_transparent_bytewise :
    (∀ message ∈ [[1, 2], ([] : Bytes)], message.length ≤ 2) ∧
      ∃ written, (sendAll [[1, 2], []]).run { pending := [], failure := .stream, pieces := fun _ => 0 } = (.ok (), written) ∧
        written.sent = [2, 1, 2, 0] := by
  refine ⟨by decide, ?_⟩
  obtain ⟨written, sent, bytes, -⟩ := @framing_transparent 2 (by decide) [[1, 2], []] (by decide)
    { pending := [], failure := .stream, pieces := fun _ => 0 }
  exact ⟨written, sent, bytes.trans (by decide)⟩

end Libp2p
