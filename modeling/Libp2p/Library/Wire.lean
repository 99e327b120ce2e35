import Libp2p.Library.Coroutine
import Mathlib.Algebra.Order.Group.Nat

/-! # A coroutine run on a reliable byte stream

The stream still holds some bytes, after which it fails, and keeps what was written to it. How many bytes each partial
read or write moves is arbitrary: at least one, and no more than were asked for and are there.
-/

namespace Libp2p.Library

structure Wire (ε : Type) where
  pending : List UInt8
  sent : List UInt8 := []
  failure : ε
  pieces : ℕ → ℕ
  turn : ℕ := 0

namespace Wire

variable {ε : Type}

/-- How many of at most `bound` bytes the next operation moves. -/
def piece (wire : Wire ε) (bound : ℕ) : ℕ := min bound (wire.pieces wire.turn + 1)

theorem piece_pos (wire : Wire ε) {bound : ℕ} (positive : 0 < bound) : 0 < wire.piece bound :=
  lt_min positive (Nat.succ_pos _)

theorem piece_le (wire : Wire ε) (bound : ℕ) : wire.piece bound ≤ bound := min_le_left _ _

def afterRead (wire : Wire ε) (count : ℕ) : Wire ε :=
  { wire with pending := wire.pending.drop count, turn := wire.turn + 1 }

def afterWrite (wire : Wire ε) (data : List UInt8) : Wire ε :=
  { wire with sent := wire.sent ++ data, turn := wire.turn + 1 }

/-- Some bytes were taken from the stream and others given to it. -/
structure Moved (before : Wire ε) (taken given : List UInt8) (after : Wire ε) : Prop where
  pending : before.pending = taken ++ after.pending
  sent : after.sent = before.sent ++ given
  failure : after.failure = before.failure

theorem Moved.refl (wire : Wire ε) : Moved wire [] [] wire := ⟨rfl, (List.append_nil _).symm, rfl⟩

theorem Moved.trans {first middle last : Wire ε} {taken given more written : List UInt8}
    (left : Moved first taken given middle) (right : Moved middle more written last) :
    Moved first (taken ++ more) (given ++ written) last := by
  refine ⟨?_, ?_, right.failure.trans left.failure⟩
  · rw [left.pending, right.pending, List.append_assoc]
  · rw [right.sent, left.sent, List.append_assoc]

theorem moved_afterRead (wire : Wire ε) (count : ℕ) :
    Moved wire (wire.pending.take count) [] (wire.afterRead count) :=
  ⟨(List.take_append_drop count wire.pending).symm, (List.append_nil _).symm, rfl⟩

theorem moved_afterWrite (wire : Wire ε) (data : List UInt8) : Moved wire [] data (wire.afterWrite data) :=
  ⟨rfl, rfl, rfl⟩

end Wire

namespace Coro

variable {ε α β : Type}

/-- The result of a coroutine, and the stream after it. -/
def run : Coro ε α → Wire ε → Except ε α × Wire ε
  | ret result, wire => (result, wire)
  | readSome want resume, wire =>
    if wire.pending = [] then (resume (.error wire.failure)).run { wire with turn := wire.turn + 1 }
    else
      let count := wire.piece (min want wire.pending.length)
      (resume (.ok (wire.pending.take count))).run (wire.afterRead count)
  | writeSome data resume, wire =>
    let count := wire.piece data.length
    (resume (.ok count)).run (wire.afterWrite (data.take count))

theorem run_bind (coro : Coro ε α) (next : α → Coro ε β) (wire : Wire ε) :
    (coro >>= next).run wire =
      match coro.run wire with
      | (.ok value, after) => (next value).run after
      | (.error failure, after) => (.error failure, after) := by
  induction coro generalizing wire with
  | ret result => cases result <;> rfl
  | readSome want resume ih =>
    rw [readSome_bind, run, run]
    split_ifs
    · exact ih _ _
    · exact ih _ _
  | writeSome data resume ih =>
    rw [writeSome_bind, run, run]
    exact ih _ _

theorem run_bind_ok {coro : Coro ε α} {next : α → Coro ε β} {wire after : Wire ε} {value : α}
    (ran : coro.run wire = (.ok value, after)) : (coro >>= next).run wire = (next value).run after := by
  rw [run_bind, ran]

theorem run_bind_error {coro : Coro ε α} {next : α → Coro ε β} {wire after : Wire ε} {failure : ε}
    (ran : coro.run wire = (.error failure, after)) : (coro >>= next).run wire = (.error failure, after) := by
  rw [run_bind, ran]

variable [faults : StreamFaults ε]

/-- A buffer is filled with the next bytes of the stream when there are as many. -/
theorem run_read {want : ℕ} {wire : Wire ε} (enough : want ≤ wire.pending.length) :
    ∃ after, (read want : Coro ε (List UInt8)).run wire = (.ok (wire.pending.take want), after) ∧
      wire.Moved (wire.pending.take want) [] after := by
  induction want using Nat.strongRecOn generalizing wire with
  | ind want ih =>
    rw [read]
    by_cases zero : want = 0
    · subst zero
      exact ⟨wire, rfl, .refl wire⟩
    · have nonempty : wire.pending ≠ [] := by
        intro empty
        rw [empty, List.length_nil] at enough
        omega
      set count := wire.piece (min want wire.pending.length) with moved
      have positive : 0 < count := wire.piece_pos (by omega)
      have fits : count ≤ want := (wire.piece_le _).trans (min_le_left _ _)
      have size : (wire.pending.take count).length = count := by
        rw [List.length_take]
        omega
      have whole : wire.pending.take count ++ (wire.afterRead count).pending.take (want - count) =
          wire.pending.take want := by
        rw [show want = count + (want - count) by omega, List.take_add, Nat.add_sub_cancel_left]
        rfl
      obtain ⟨after, ran, step⟩ := @ih (want - count) (by omega) (wire.afterRead count) (by
        change want - count ≤ (wire.pending.drop count).length
        rw [List.length_drop]
        omega)
      refine ⟨after, ?_, ?_⟩
      · rw [if_neg zero, run, if_neg nonempty]
        dsimp only
        rw [← moved, dif_neg (by omega), dif_neg (by omega), size, run_bind_ok ran, run, whole]
      · have steps := (wire.moved_afterRead count).trans step
        rwa [whole, List.append_nil] at steps

/-- Otherwise the failure of the stream comes through, after everything was taken. -/
theorem run_read_short {want : ℕ} {wire : Wire ε} (short : wire.pending.length < want) :
    ∃ after, (read want : Coro ε (List UInt8)).run wire = (.error wire.failure, after) ∧
      wire.Moved wire.pending [] after := by
  induction want using Nat.strongRecOn generalizing wire with
  | ind want ih =>
    rw [read, if_neg (by omega), run]
    by_cases empty : wire.pending = []
    · rw [if_pos empty]
      refine ⟨_, rfl, ?_⟩
      exact ⟨by simp [empty], (List.append_nil _).symm, rfl⟩
    · have some_ : 0 < wire.pending.length := List.length_pos_iff.mpr empty
      set count := wire.piece (min want wire.pending.length) with moved
      have positive : 0 < count := wire.piece_pos (by omega)
      have fits : count ≤ wire.pending.length := (wire.piece_le _).trans (min_le_right _ _)
      have size : (wire.pending.take count).length = count := by
        rw [List.length_take]
        omega
      obtain ⟨after, ran, step⟩ := @ih (want - count) (by omega) (wire.afterRead count) (by
        change (wire.pending.drop count).length < want - count
        rw [List.length_drop]
        omega)
      refine ⟨after, ?_, ?_⟩
      · rw [if_neg empty]
        dsimp only
        rw [dif_neg (by omega), dif_neg (by omega), size, run_bind_error ran]
        rfl
      · have steps := (wire.moved_afterRead count).trans step
        rwa [show wire.pending.take count ++ (wire.afterRead count).pending = wire.pending from
          List.take_append_drop _ _, List.append_nil] at steps

/-- All of the data is written. -/
theorem run_write (data : List UInt8) (wire : Wire ε) :
    ∃ after, (write data : Coro ε Unit).run wire = (.ok (), after) ∧ wire.Moved [] data after := by
  induction size : data.length using Nat.strongRecOn generalizing data wire with
  | ind size ih =>
    subst size
    rw [write]
    by_cases empty : data = []
    · subst empty
      exact ⟨wire, rfl, .refl wire⟩
    · have some_ : 0 < data.length := List.length_pos_iff.mpr empty
      set count := wire.piece data.length with moved
      have positive : 0 < count := wire.piece_pos some_
      have fits : count ≤ data.length := wire.piece_le _
      obtain ⟨after, ran, step⟩ := ih (data.drop count).length (by rw [List.length_drop]; omega) (data.drop count)
        (wire.afterWrite (data.take count)) rfl
      refine ⟨after, ?_, ?_⟩
      · rw [if_neg empty, run]
        dsimp only
        rw [← moved, dif_neg (by omega), dif_neg (by omega), ran]
      · have steps := (wire.moved_afterWrite (data.take count)).trans step
        rwa [List.take_append_drop, List.nil_append] at steps

end Coro

end Libp2p.Library
