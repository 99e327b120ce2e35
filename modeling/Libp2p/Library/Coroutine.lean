import Mathlib.Tactic.Common

/-! # Suspended coroutines over a byte stream

A coroutine is the tree of its suspension points: it has returned, it waits for some of the bytes
it asked for, or it offers bytes to be written. The stream decides how many bytes each suspension
moves, so a tree describes the code under every fragmentation at once. An outer `while (true)` has
no finite tree; its body is a family of trees indexed by the loop state, and `unroll` enters the
next iteration as soon as the previous one has ended.

`Trace` is the party-local history: the bytes taken, the bytes given, and the suspension reached.
Reading and writing a whole buffer in pieces is characterized once, by `Trace.read` and
`Trace.write`, for every way of cutting the buffer.
-/

namespace Libp2p.Library

/-- A coroutine with results in `α` and failures in `ε`, at one of its suspension points. -/
inductive Coro (ε α : Type) where
  | ret (result : Except ε α)
  | readSome (want : ℕ) (resume : Except ε (List UInt8) → Coro ε α)
  | writeSome (data : List UInt8) (resume : Except ε ℕ → Coro ε α)

namespace Coro

variable {ε α β γ : Type}

/-- Sequencing; a failure skips the continuation. -/
def bind : Coro ε α → (α → Coro ε β) → Coro ε β
  | ret (.ok value), next => next value
  | ret (.error failure), _ => ret (.error failure)
  | readSome want resume, next => readSome want fun result => (resume result).bind next
  | writeSome data resume, next => writeSome data fun result => (resume result).bind next

instance : Monad (Coro ε) where
  pure value := ret (.ok value)
  bind := bind

instance : MonadExceptOf ε (Coro ε) where
  throw failure := ret (.error failure)
  tryCatch body handler := match body with
    | ret (.error failure) => handler failure
    | other => other

@[simp] theorem pure_bind (value : α) (next : α → Coro ε β) : (pure value >>= next) = next value := rfl

@[simp] theorem ret_ok_bind (value : α) (next : α → Coro ε β) : (ret (.ok value) >>= next) = next value := rfl

@[simp] theorem throw_bind (failure : ε) (next : α → Coro ε β) :
    ((throw failure : Coro ε α) >>= next) = ret (.error failure) := rfl

@[simp] theorem ret_error_bind (failure : ε) (next : α → Coro ε β) :
    ((ret (.error failure) : Coro ε α) >>= next) = ret (.error failure) := rfl

@[simp] theorem readSome_bind (want : ℕ) (resume : Except ε (List UInt8) → Coro ε α)
    (next : α → Coro ε β) :
    (readSome want resume >>= next) = readSome want fun result => resume result >>= next := rfl

@[simp] theorem writeSome_bind (data : List UInt8) (resume : Except ε ℕ → Coro ε α)
    (next : α → Coro ε β) :
    (writeSome data resume >>= next) = writeSome data fun result => resume result >>= next := rfl

theorem bind_assoc (coro : Coro ε α) (next : α → Coro ε β) (last : β → Coro ε γ) :
    (coro >>= next >>= last) = coro >>= fun value => next value >>= last := by
  induction coro with
  | ret result => cases result <;> rfl
  | readSome want resume ih => simp only [readSome_bind, ih]
  | writeSome data resume ih => simp only [writeSome_bind, ih]

/-- The coroutine waits for input. -/
def Reading : Coro ε α → Prop
  | readSome want _ => 0 < want
  | _ => False

/-- The coroutine has bytes to give. -/
def Writing : Coro ε α → Prop
  | writeSome data _ => data ≠ []
  | _ => False

/-- Failures that the read and write loops raise when a stream breaks its contract. -/
class StreamFaults (ε : Type) where
  zeroBytesRead : ε
  tooMuchBytesRead : ε
  zeroBytesWritten : ε
  tooMuchBytesWritten : ε

/-- The first operation that fails ends the coroutine with its failure. Otherwise, whatever is read and written, the
coroutine raises what `raises` allows or returns a value that satisfies `post`. -/
def Yields (raises : ε → Prop) (post : α → Prop) : Coro ε α → Prop
  | ret (.ok value) => post value
  | ret (.error failure) => raises failure
  | readSome _ resume => (∀ failure, resume (.error failure) = ret (.error failure)) ∧
    ∀ data, (resume (.ok data)).Yields raises post
  | writeSome _ resume => (∀ failure, resume (.error failure) = ret (.error failure)) ∧
    ∀ count, (resume (.ok count)).Yields raises post

theorem Yields.bind {coro : Coro ε α} {next : α → Coro ε β} {raises : ε → Prop} {middle : α → Prop} {post : β → Prop}
    (first : coro.Yields raises middle) (later : ∀ value, middle value → (next value).Yields raises post) :
    (coro >>= next).Yields raises post := by
  induction coro with
  | ret result =>
    cases result with
    | ok value => exact later value first
    | error failure => exact first
  | readSome want resume ih =>
    exact ⟨fun failure => congrArg (· >>= next) (first.1 failure), fun data => ih (.ok data) (first.2 data)⟩
  | writeSome data resume ih =>
    exact ⟨fun failure => congrArg (· >>= next) (first.1 failure), fun count => ih (.ok count) (first.2 count)⟩

/-- What the stream makes of the pending operation. -/
inductive Completion (ε : Type) where
  | read (data : List UInt8)
  | wrote (count : ℕ)
  | failed (failure : ε)
deriving DecidableEq

variable [faults : StreamFaults ε]

/-- Fill a buffer of `want` bytes, asking again for what a short read left open. -/
def read (want : ℕ) : Coro ε (List UInt8) :=
  if want = 0 then ret (.ok []) else
    readSome want fun result => match result with
      | .error failure => ret (.error failure)
      | .ok got =>
        if _ : got.length = 0 then ret (.error faults.zeroBytesRead)
        else if _ : got.length > want then ret (.error faults.tooMuchBytesRead)
        else read (want - got.length) >>= fun rest => ret (.ok (got ++ rest))
termination_by want

/-- Offer `data` until every byte has been taken. -/
def write (data : List UInt8) : Coro ε Unit :=
  if data = [] then ret (.ok ()) else
    writeSome data fun result => match result with
      | .error failure => ret (.error failure)
      | .ok count =>
        if _ : count = 0 then ret (.error faults.zeroBytesWritten)
        else if _ : count > data.length then ret (.error faults.tooMuchBytesWritten)
        else write (data.drop count)
termination_by data.length
decreasing_by simp only [List.length_drop]; omega

section Buffers

variable {raises : ε → Prop}

theorem yields_read (none : raises faults.zeroBytesRead) (much : raises faults.tooMuchBytesRead) (want : ℕ) :
    (read want).Yields raises fun _ => True := by
  induction want using Nat.strongRecOn with
  | ind want ih =>
    rw [read]
    split_ifs
    · trivial
    · refine ⟨fun _ => rfl, fun got => ?_⟩
      dsimp only
      split_ifs
      · exact none
      · exact much
      · exact (ih _ (by omega)).bind fun _ _ => trivial

theorem yields_write (none : raises faults.zeroBytesWritten) (much : raises faults.tooMuchBytesWritten)
    (data : List UInt8) : (write data).Yields raises fun _ => True := by
  induction size : data.length using Nat.strongRecOn generalizing data with
  | ind size ih =>
    rw [write]
    split_ifs
    · trivial
    · refine ⟨fun _ => rfl, fun count => ?_⟩
      dsimp only
      split_ifs
      · exact none
      · exact much
      · exact ih _ (by rw [List.length_drop]; omega) _ rfl

end Buffers

end Coro

/-- Enter the next iteration of the outer loop when the current one asks for it. -/
def unroll {ε σ α : Type} (body : σ → Coro ε (σ ⊕ α)) : Coro ε (σ ⊕ α) → Coro ε (σ ⊕ α)
  | .ret (.ok (.inl state)) => body state
  | other => other

section Unroll

variable {ε σ α : Type} (body : σ → Coro ε (σ ⊕ α))

@[simp] theorem unroll_next (state : σ) : unroll body (.ret (.ok (.inl state))) = body state := rfl

@[simp] theorem unroll_result (value : α) :
    unroll body (.ret (.ok (.inr value))) = .ret (.ok (.inr value)) := rfl

@[simp] theorem unroll_failure (failure : ε) :
    unroll body (.ret (.error failure)) = .ret (.error failure) := rfl

@[simp] theorem unroll_readSome (want : ℕ) (resume : Except ε (List UInt8) → Coro ε (σ ⊕ α)) :
    unroll body (.readSome want resume) = .readSome want resume := rfl

@[simp] theorem unroll_writeSome (data : List UInt8) (resume : Except ε ℕ → Coro ε (σ ⊕ α)) :
    unroll body (.writeSome data resume) = .writeSome data resume := rfl

/-- What every iteration can raise and return, the loop can. -/
theorem yields_unroll {raises : ε → Prop} {post : σ ⊕ α → Prop} {coro : Coro ε (σ ⊕ α)}
    (iterations : ∀ state, (body state).Yields raises post) (yields : coro.Yields raises post) :
    (unroll body coro).Yields raises post := by
  match coro with
  | .ret (.ok (.inl state)) => exact iterations state
  | .ret (.ok (.inr value)) => exact yields
  | .ret (.error failure) => exact yields
  | .readSome want resume => exact yields
  | .writeSome data resume => exact yields

/-- Complete the pending operation; `none` when the stream cannot complete it so. -/
def advance : Coro ε (σ ⊕ α) → Coro.Completion ε → Option (Coro ε (σ ⊕ α))
  | .readSome want resume, .read data =>
    if data ≠ [] ∧ data.length ≤ want then some (unroll body (resume (.ok data))) else none
  | .writeSome data resume, .wrote count =>
    if 0 < count ∧ count ≤ data.length then some (unroll body (resume (.ok count))) else none
  | .readSome _ resume, .failed failure => some (unroll body (resume (.error failure)))
  | .writeSome _ resume, .failed failure => some (unroll body (resume (.error failure)))
  | _, _ => none

/-- A failed operation ends the loop, and otherwise it goes on as it may. -/
theorem yields_advance {raises : ε → Prop} {post : σ ⊕ α → Prop} {before after : Coro ε (σ ⊕ α)}
    {completion : Coro.Completion ε} (iterations : ∀ state, (body state).Yields raises post)
    (yields : before.Yields raises post) (advanced : advance body before completion = some after) :
    match completion with
    | .failed failure => after = .ret (.error failure)
    | _ => after.Yields raises post := by
  unfold advance at advanced
  split at advanced
  · obtain ⟨-, ⟨⟩⟩ := Option.ite_none_right_eq_some.mp advanced
    exact yields_unroll body iterations (yields.2 _)
  · obtain ⟨-, ⟨⟩⟩ := Option.ite_none_right_eq_some.mp advanced
    exact yields_unroll body iterations (yields.2 _)
  · obtain rfl := Option.some.inj advanced
    dsimp only
    rw [yields.1, unroll_failure]
  · obtain rfl := Option.some.inj advanced
    dsimp only
    rw [yields.1, unroll_failure]
  · cases advanced

variable [Coro.StreamFaults ε]

/-- An iteration that starts by reading something has not ended. -/
theorem unroll_read {want : ℕ} (some : 0 < want) (next : List UInt8 → Coro ε (σ ⊕ α)) :
    unroll body (Coro.read want >>= next) = Coro.read want >>= next := by
  rw [Coro.read, if_neg (by omega)]
  rfl

/-- An iteration that starts by writing something has not ended. -/
theorem unroll_write {data : List UInt8} (some : data ≠ []) (next : Unit → Coro ε (σ ⊕ α)) :
    unroll body (Coro.write data >>= next) = Coro.write data >>= next := by
  rw [Coro.write, if_neg some]
  rfl

end Unroll

/-- A party reads `input`, writes `output` and is then suspended at the last index. -/
inductive Trace {ε σ α : Type} (body : σ → Coro ε (σ ⊕ α)) :
    Coro ε (σ ⊕ α) → List UInt8 → List UInt8 → Coro ε (σ ⊕ α) → Prop
  | nil (coro : Coro ε (σ ⊕ α)) : Trace body coro [] [] coro
  | read {want : ℕ} {resume : Except ε (List UInt8) → Coro ε (σ ⊕ α)} {data input output : List UInt8}
      {last : Coro ε (σ ⊕ α)} (some : data ≠ []) (fits : data.length ≤ want) :
      Trace body (unroll body (resume (.ok data))) input output last →
      Trace body (.readSome want resume) (data ++ input) output last
  | write {data input output : List UInt8} {resume : Except ε ℕ → Coro ε (σ ⊕ α)} {count : ℕ}
      {last : Coro ε (σ ⊕ α)} (some : 0 < count) (fits : count ≤ data.length) :
      Trace body (unroll body (resume (.ok count))) input output last →
      Trace body (.writeSome data resume) input (data.take count ++ output) last

namespace Trace

variable {ε σ α : Type} {body : σ → Coro ε (σ ⊕ α)} {first middle last : Coro ε (σ ⊕ α)}
  {input output : List UInt8}

/-- Histories compose. -/
theorem append {input' output' : List UInt8} (left : Trace body first input output middle)
    (right : Trace body middle input' output' last) :
    Trace body first (input ++ input') (output ++ output') last := by
  induction left with
  | nil => exact right
  | read some fits _ ih => rw [List.append_assoc]; exact .read some fits (ih right)
  | write some fits _ ih => rw [List.append_assoc]; exact .write some fits (ih right)

/-- A returned coroutine neither reads nor writes. -/
theorem of_ret {result : Except ε (σ ⊕ α)} (trace : Trace body (.ret result) input output last) :
    input = [] ∧ output = [] ∧ last = .ret result := by
  cases trace
  exact ⟨rfl, rfl, rfl⟩

variable [faults : Coro.StreamFaults ε]

/-- Filling a buffer either still waits for input or has taken exactly the bytes it asked for. -/
theorem of_read {want : ℕ} {next : List UInt8 → Coro ε (σ ⊕ α)}
    (trace : Trace body (unroll body (Coro.read want >>= next)) input output last) :
    (input.length < want ∧ output = [] ∧ last.Reading) ∨
      ∃ data rest, input = data ++ rest ∧ data.length = want ∧
        Trace body (unroll body (next data)) rest output last := by
  induction want using Nat.strongRecOn generalizing next input with
  | ind want ih =>
    by_cases zero : want = 0
    · subst zero
      rw [Coro.read, if_pos rfl, Coro.ret_ok_bind] at trace
      exact .inr ⟨[], input, rfl, rfl, trace⟩
    · rw [Coro.read, if_neg zero, Coro.readSome_bind, unroll_readSome] at trace
      cases trace with
      | nil => exact .inl ⟨by simp only [List.length_nil]; omega, rfl, by simp only [Coro.Reading]; omega⟩
      | @read _ _ data rest _ _ some fits tail =>
        have positive : data.length ≠ 0 := by simpa using some
        simp only [dif_neg positive, dif_neg (show ¬ data.length > want by omega), Coro.bind_assoc,
          Coro.ret_ok_bind] at tail
        rcases ih (want - data.length) (by omega) tail with
          ⟨short, empty, reading⟩ | ⟨more, rest', rfl, length, onward⟩
        · refine .inl ⟨?_, empty, reading⟩
          simp only [List.length_append]; omega
        · refine .inr ⟨data ++ more, rest', by simp, ?_, onward⟩
          simp only [List.length_append]; omega

/-- Writing a buffer either still has bytes to give or has given exactly the buffer. -/
theorem of_write {data : List UInt8} {next : Unit → Coro ε (σ ⊕ α)}
    (trace : Trace body (unroll body (Coro.write data >>= next)) input output last) :
    (input = [] ∧ output <+: data ∧ last.Writing) ∨
      ∃ rest, output = data ++ rest ∧ Trace body (unroll body (next ())) input rest last := by
  induction size : data.length using Nat.strongRecOn generalizing data output with
  | ind size ih =>
    subst size
    by_cases empty : data = []
    · subst empty
      rw [Coro.write, if_pos rfl, Coro.ret_ok_bind] at trace
      exact .inr ⟨output, rfl, trace⟩
    · rw [Coro.write, if_neg empty, Coro.writeSome_bind, unroll_writeSome] at trace
      cases trace with
      | nil => exact .inl ⟨rfl, List.nil_prefix, empty⟩
      | @write _ _ rest _ count _ some fits tail =>
        have positive : count ≠ 0 := by omega
        simp only [dif_neg positive, dif_neg (show ¬ count > data.length by omega)] at tail
        have shorter : (data.drop count).length < data.length := by
          rw [List.length_drop]; omega
        rcases ih _ shorter tail rfl with ⟨noInput, initial, writing⟩ | ⟨rest', rfl, onward⟩
        · refine .inl ⟨noInput, ?_, writing⟩
          obtain ⟨more, cut⟩ := initial
          exact ⟨more, by rw [List.append_assoc, cut, List.take_append_drop]⟩
        · exact .inr ⟨rest', by rw [← List.append_assoc, List.take_append_drop], onward⟩

end Trace

end Libp2p.Library
