import Libp2p.Basic.ReadBuffer

/-! # The collector of messages of a fixed size

A message of an expected size is collected from chunks. A chunk that brings all of it is split in place, otherwise what
arrives is kept in a buffer. After a message that was collected through the buffer further chunks are left alone; after
one that was split off in place the collector expects zero bytes, and finds them in every chunk that follows.
-/

namespace Libp2p

open Library

structure FixedBufferCollector where
  memoryThreshold : ℕ := 65536
  expectedSize : ℕ := 0
  buffer : Fragment := {}

namespace FixedBufferCollector

/-- A buffer that is large for what is expected is freed. -/
def expect (size : ℕ) (collector : FixedBufferCollector) : FixedBufferCollector :=
  let reserved := collector.buffer.clear.capacity
  if reserved > collector.memoryThreshold ∧ size < sizeT (reserved * 3) / 4 then
    { collector with expectedSize := size, buffer := {} }
  else { collector with expectedSize := size, buffer := collector.buffer.clear }

/-- What is returned, and what is left of the data; absent when the assertion fails. -/
def add (allocator : Allocator) (data : Bytes) (collector : FixedBufferCollector) :
    Option (FixedBufferCollector × Option Bytes × Bytes) :=
  if ¬ collector.expectedSize ≥ collector.buffer.size then none
  else
    let appending := data.length
    let buffered := collector.buffer.size
    if buffered = 0 ∧ appending ≥ collector.expectedSize then
      some ({ collector with expectedSize := 0 }, some (data.take collector.expectedSize),
        data.drop collector.expectedSize)
    else
      let buffer := if buffered = 0 then collector.buffer.reserve allocator collector.expectedSize else collector.buffer
      let unread := collector.expectedSize - buffer.size
      if unread = 0 then some ({ collector with buffer }, none, data)
      else
        let filled := appending ≥ unread
        let appending := if appending ≥ unread then unread else appending
        let buffer := buffer.append allocator (data.take appending)
        some ({ collector with buffer }, if filled then some buffer.bytes else none, data.drop appending)

def reset (collector : FixedBufferCollector) : FixedBufferCollector :=
  { collector with expectedSize := 0, buffer := {} }

/-- Repeated calls, each with the chunk that is at hand. -/
def step (allocator : Allocator) (collector : FixedBufferCollector) (data : Bytes) :
    Option (FixedBufferCollector × Option Bytes × Bytes) :=
  collector.add allocator data

end FixedBufferCollector

/-! The first bytes of a stream. -/

namespace FirstBytes

/-- What is taken out of a chunk, and what is left of it, when other bytes came before. -/
def answer (n : ℕ) (before data : Bytes) : Option Bytes × Bytes :=
  if (before ++ data).length < n then (none, [])
  else if before.length < n then (some ((before ++ data).take n), (before ++ data).drop n)
  else (none, data)

/-- The state is the stream so far. -/
def step (n : ℕ) (before data : Bytes) : Bytes × Option Bytes × Bytes := (before ++ data, answer n before data)

end FirstBytes

namespace FixedBufferCollector

open FirstBytes

variable {allocator : Allocator} {collector : FixedBufferCollector} {n : ℕ} {before data : Bytes}

/-- Nothing is buffered yet of what is expected. -/
structure Fresh (n : ℕ) (collector : FixedBufferCollector) : Prop where
  expected : collector.expectedSize = n
  empty : collector.buffer.bytes = []

/-- The buffer holds the first bytes of the stream, and at least one. -/
structure Buffers (n : ℕ) (collector : FixedBufferCollector) (before : Bytes) : Prop where
  expected : collector.expectedSize = n
  bytes : collector.buffer.bytes = before.take n
  some_ : before ≠ []

theorem fresh_expect : (collector.expect n).Fresh n := by
  unfold expect
  dsimp only
  split_ifs
  · exact ⟨rfl, rfl⟩
  · exact ⟨rfl, rfl⟩

theorem fresh_reset : collector.reset.Fresh 0 := ⟨rfl, rfl⟩

theorem answer_short (short : before.length + data.length < n) : answer n before data = (none, []) :=
  if_pos (by rwa [List.length_append])

theorem answer_filled (short : before.length < n) (filled : n ≤ before.length + data.length) :
    answer n before data = (some ((before ++ data).take n), (before ++ data).drop n) := by
  rw [answer, if_neg (by rw [List.length_append]; exact filled.not_gt), if_pos short]

theorem answer_late (late : n ≤ before.length) : answer n before data = (none, data) := by
  rw [answer, if_neg (by rw [List.length_append]; omega), if_neg late.not_gt]

/-- A chunk that goes to the buffer. -/
theorem add_buffered (expected : collector.expectedSize = n) (bytes : collector.buffer.bytes = before)
    (short : before.length < n) (slow : before ≠ [] ∨ data.length < n) :
    ∃ after, collector.add allocator data = some (after, answer n before data) ∧ after.expectedSize = n ∧
      after.buffer.bytes = (before ++ data).take n := by
  have size : collector.buffer.size = before.length := congrArg List.length bytes
  have unsplit : ¬ (before.length = 0 ∧ data.length ≥ n) := by
    rintro ⟨none, enough⟩
    rcases slow with some_ | less
    · exact some_ (List.length_eq_zero_iff.mp none)
    · exact absurd enough (not_le.mpr less)
  have kept : (if before.length = 0 then collector.buffer.reserve allocator n else collector.buffer).bytes = before := by
    split_ifs
    · rw [Fragment.bytes_reserve, bytes]
    · exact bytes
  unfold add
  rw [expected, size, if_neg (not_not.mpr short.le)]
  dsimp only
  rw [if_neg unsplit]
  generalize (if before.length = 0 then collector.buffer.reserve allocator n else collector.buffer) = buffer at kept
  have size : buffer.size = before.length := congrArg List.length kept
  rw [size, if_neg (Nat.sub_pos_of_lt short).ne']
  by_cases filled : data.length ≥ n - before.length
  · have whole : (buffer.append allocator (data.take (n - before.length))).bytes = (before ++ data).take n := by
      rw [Fragment.bytes_append, kept, List.take_append, List.take_of_length_le short.le]
    have left : data.drop (n - before.length) = (before ++ data).drop n := by
      rw [List.drop_append, List.drop_eq_nil_of_le short.le, List.nil_append]
    rw [answer_filled short (by omega)]
    simp only [if_pos filled, whole, left]
    exact ⟨_, rfl, rfl, whole⟩
  · rw [answer_short (by omega)]
    simp only [if_neg filled, List.take_length, List.drop_length]
    refine ⟨_, rfl, rfl, ?_⟩
    dsimp only
    rw [Fragment.bytes_append, kept, List.take_of_length_le (by rw [List.length_append]; omega)]

/-- After a message that was buffered. -/
theorem add_late (expected : collector.expectedSize = n) (bytes : collector.buffer.bytes.length = n) (positive : 0 < n) :
    collector.add allocator data = some (collector, none, data) := by
  have size : collector.buffer.size = n := bytes
  unfold add
  rw [expected, size, if_neg (not_not.mpr le_rfl)]
  dsimp only
  rw [if_neg (fun split => positive.ne' split.1), if_neg positive.ne', size, if_pos (Nat.sub_self n), ← expected]

/-- From the first buffered byte on the collector follows the stream. -/
theorem buffers_follows (positive : 0 < n) : Follows (Buffers n) (step allocator) (FirstBytes.step n) := by
  intro collector before ⟨expected, bytes, some_⟩ data
  have more : before ++ data ≠ [] := List.append_ne_nil_of_left_ne_nil some_ _
  by_cases short : before.length < n
  · rw [List.take_of_length_le short.le] at bytes
    obtain ⟨after, added, expected, bytes⟩ := @add_buffered allocator _ _ _ data expected bytes short (.inl some_)
    exact ⟨after, added, expected, bytes, more⟩
  · have late := not_lt.mp short
    have length : collector.buffer.bytes.length = n := by rw [bytes, List.length_take_of_le late]
    refine ⟨collector, ?_, expected, ?_, more⟩
    · rw [step, add_late expected length positive, FirstBytes.step, answer_late late]
    · rw [bytes, FirstBytes.step, List.take_append_of_le_length late]

/-- The calls with some chunks give what belongs to the stream. -/
def Collects (allocator : Allocator) (n : ℕ) (collector : FixedBufferCollector) (before : Bytes)
    (chunks : List Bytes) : Prop :=
  (runM (step allocator) collector chunks).map Prod.snd = some (runAll (FirstBytes.step n) before chunks).2

/-- The first chunk that is not empty is the last one if it brings the whole message. -/
def Accompanied (n : ℕ) (chunks : List Bytes) : Prop :=
  ∀ whole rest, chunks.dropWhile List.isEmpty = whole :: rest → n ≤ whole.length → rest = []

theorem collects_of_buffers (positive : 0 < n) (buffers : collector.Buffers n before) (chunks : List Bytes) :
    Collects allocator n collector before chunks := by
  obtain ⟨final, ran, -⟩ := (buffers_follows positive).run buffers chunks
  rw [Collects, ran]
  rfl

/-- A call that gives what belongs to the stream leaves the calls that follow. -/
theorem collects_cons {after : FixedBufferCollector} {rest : List Bytes}
    (added : collector.add allocator data = some (after, answer n before data)) :
    Collects allocator n collector before (data :: rest) ↔ Collects allocator n after (before ++ data) rest := by
  unfold Collects
  rw [runM, step, added, Option.bind_some]
  dsimp only
  rw [Option.map_map]
  cases runM (step allocator) after rest with
  | none => exact iff_of_false (by simp) (by simp)
  | some result =>
    simp only [Option.map_some, Option.some.injEq, Function.comp_apply, runAll, FirstBytes.step, List.cons.injEq,
      true_and]

/-- A message that comes in one chunk is split off, and then zero bytes are expected. -/
theorem add_whole (fresh : collector.Fresh n) (whole : n ≤ data.length) :
    collector.add allocator data =
      some ({ collector with expectedSize := 0 }, some (data.take n), data.drop n) := by
  have size : collector.buffer.size = 0 := congrArg List.length fresh.empty
  unfold add
  rw [fresh.expected, size, if_neg (not_not.mpr (Nat.zero_le n))]
  exact if_pos ⟨rfl, whole⟩

/-- Where zero bytes are expected, further chunks are not left unanswered. -/
theorem not_collects_of_split {rest : List Bytes} (fresh : collector.Fresh 0) (late : n ≤ before.length) :
    ¬ Collects allocator n collector before (data :: rest) := by
  unfold Collects
  rw [runM, step, add_whole fresh (Nat.zero_le _), Option.bind_some]
  dsimp only
  rw [Option.map_map]
  cases runM (step allocator) { collector with expectedSize := 0 } rest with
  | none => simp
  | some result => simp [runAll, FirstBytes.step, answer_late late]

theorem collects_of_fresh (positive : 0 < n) (fresh : collector.Fresh n) (chunks : List Bytes) :
    Collects allocator n collector [] chunks ↔ Accompanied n chunks := by
  induction chunks generalizing collector with
  | nil => exact iff_of_true rfl fun whole rest cut => nomatch cut
  | cons data rest ih =>
    by_cases whole : n ≤ data.length
    · -- The chunk is split, and the rest has to be empty.
      have some_ : data.isEmpty = false := by
        rw [List.isEmpty_eq_false_iff]
        rintro rfl
        exact positive.not_ge whole
      have added : collector.add allocator data =
          some ({ collector with expectedSize := 0 }, answer n [] data) := by
        rw [add_whole fresh whole, answer_filled positive (whole.trans (Nat.le_add_left _ _)), List.nil_append]
      have alone : Accompanied n (data :: rest) ↔ rest = [] := by
        unfold Accompanied
        rw [List.dropWhile_cons_of_neg (by simp [some_])]
        exact ⟨fun last => last data rest rfl whole, fun last other others same _ => (List.cons.inj same).2 ▸ last⟩
      rw [collects_cons added, alone]
      cases rest with
      | nil => exact iff_of_true rfl rfl
      | cons next more => exact iff_of_false (not_collects_of_split ⟨rfl, fresh.empty⟩ whole) (List.cons_ne_nil _ _)
    · have short := not_le.mp whole
      obtain ⟨after, added, expected, bytes⟩ :=
        @add_buffered allocator _ _ _ data fresh.expected fresh.empty positive (.inr short)
      rw [List.nil_append, List.take_of_length_le short.le] at bytes
      rw [collects_cons added, List.nil_append]
      by_cases none : data = []
      · subst none
        exact ih ⟨expected, bytes⟩
      · -- The buffer has got its first byte.
        refine iff_of_true (collects_of_buffers positive ⟨expected, ?_, none⟩ rest) fun other others cut => ?_
        · rw [bytes, List.take_of_length_le short.le]
        · rw [List.dropWhile_cons_of_neg (by simpa using none)] at cut
          exact fun enough => absurd ((List.cons.inj cut).1 ▸ enough) whole

/-- After `expect` the calls give the first bytes of the stream once and leave alone what follows, exactly when no chunk
follows one that brought the whole message to an empty buffer. -/
theorem collects_iff (allocator : Allocator) (collector : FixedBufferCollector) (n : ℕ) (positive : 0 < n)
    (chunks : List Bytes) : Collects allocator n (collector.expect n) [] chunks ↔ Accompanied n chunks :=
  collects_of_fresh positive fresh_expect chunks

/-- A message that comes in two parts is collected from three chunks; one that comes whole is not the last chunk. -/
theorem collects_iff_three :
    let allocator : Allocator := ⟨fun _ needed => needed, fun _ _ => le_rfl⟩
    let collector := ({} : FixedBufferCollector).expect 2
    Collects allocator 2 collector [] [[1], [2, 3], [4]] ∧
      (runM (step allocator) collector [[1], [2, 3], [4]]).map Prod.snd =
        some [(none, []), (some [1, 2], [3]), (none, [4])] ∧
      ¬ Collects allocator 2 collector [] [[1, 2], [3]] := by
  intro allocator collector
  have accompanied : Accompanied 2 [[1], [2, 3], [4]] := by
    intro whole rest cut enough
    obtain ⟨rfl, -⟩ := List.cons.inj cut
    exact absurd enough (by decide)
  have collects := (collects_iff allocator {} 2 (by decide) [[1], [2, 3], [4]]).mpr accompanied
  refine ⟨collects, collects, fun split => ?_⟩
  have last := (collects_iff allocator {} 2 (by decide) [[1, 2], [3]]).mp split [1, 2] [[3]] rfl le_rfl
  exact List.cons_ne_nil _ _ last

/-- A message of one byte, and another byte: the second call returns a span of zero bytes. -/
theorem collects_not_always : ¬ ∀ (allocator : Allocator) (collector : FixedBufferCollector) (n : ℕ), 0 < n →
    ∀ chunks, Collects allocator n (collector.expect n) [] chunks := by
  intro always
  have both := always ⟨fun _ needed => needed, fun _ _ => le_rfl⟩ {} 1 Nat.one_pos [[7], [8]]
  exact absurd (congrArg (fun answers => answers.map (List.map Prod.fst)) both) (by decide)

end FixedBufferCollector

end Libp2p
