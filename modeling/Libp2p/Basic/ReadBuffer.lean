import Libp2p.Basic.Varint
import Libp2p.Library.Refinement

/-! # The read buffer

Bytes are kept in fragments. The first one is consumed from an offset on, and the room that is left in the last one is
tracked, so that small additions do not allocate; a fragment that is not too large is kept when all bytes are consumed.
Whatever the vectors reserve, the buffer is a queue of bytes.
-/

namespace Libp2p

open Library

/-- What a vector allocates when more than its capacity is needed. -/
structure Allocator where
  grown : ℕ → ℕ → ℕ
  enough : ∀ capacity needed, needed ≤ grown capacity needed

theorem fits_empty : ([] : Bytes).length ≤ 0 := Nat.le_refl _

/-- A vector of bytes. -/
structure Fragment where
  bytes : Bytes := []
  capacity : ℕ := 0
  fits : bytes.length ≤ capacity := by first | exact fits_empty | decide

namespace Fragment

def size (vec : Fragment) : ℕ := vec.bytes.length

def reserve (allocator : Allocator) (needed : ℕ) (vec : Fragment) : Fragment :=
  if room : needed ≤ vec.capacity then vec
  else
    { bytes := vec.bytes
      capacity := allocator.grown vec.capacity needed
      fits := vec.fits.trans ((not_le.mp room).le.trans (allocator.enough _ _)) }

/-- `insert` at the end. -/
def append (allocator : Allocator) (bytes : Bytes) (vec : Fragment) : Fragment :=
  if room : (vec.bytes ++ bytes).length ≤ vec.capacity then
    { bytes := vec.bytes ++ bytes, capacity := vec.capacity, fits := room }
  else
    { bytes := vec.bytes ++ bytes
      capacity := allocator.grown vec.capacity (vec.bytes ++ bytes).length
      fits := allocator.enough _ _ }

/-- The capacity stays. -/
def clear (vec : Fragment) : Fragment := { bytes := [], capacity := vec.capacity, fits := Nat.zero_le _ }

end Fragment

/-- `n` bytes of `src` from `offset` on are copied to `out` from `p` on; absent when this is outside of either. -/
def memcpy (out : Bytes) (p : ℕ) (src : Bytes) (offset n : ℕ) : Option Bytes :=
  if offset + n ≤ src.length ∧ p + n ≤ out.length then
    some (out.take p ++ (src.drop offset).take n ++ out.drop (p + n))
  else none

/-- Sums of sizes wrap around. -/
abbrev sizeT (value : ℕ) : ℕ := value % 2 ^ 64

structure ReadBuffer where
  allocGranularity : ℕ
  totalSize : ℕ := 0
  firstByteOffset : ℕ := 0
  capacityRemains : ℕ := 0
  fragments : List Fragment := []

namespace ReadBuffer

/-- The constructor; absent when its assertion fails. -/
def create (allocGranularity : ℕ) : Option ReadBuffer :=
  if allocGranularity > 0 then some { allocGranularity } else none

def size (buffer : ReadBuffer) : ℕ := buffer.totalSize

def empty (buffer : ReadBuffer) : Prop := buffer.totalSize = 0

instance (buffer : ReadBuffer) : Decidable buffer.empty := inferInstanceAs (Decidable (_ = _))

/-- Change the last fragment, which has to be there. -/
def modifyBack (change : Fragment → Fragment) : List Fragment → Option (List Fragment)
  | [] => none
  | [vec] => some [change vec]
  | vec :: next :: rest => (modifyBack change (next :: rest)).map (vec :: ·)

def add (allocator : Allocator) (bytes : Bytes) (buffer : ReadBuffer) : Option ReadBuffer :=
  let sz := bytes.length
  if sz = 0 then some buffer
  else if buffer.capacityRemains ≥ sz then
    (modifyBack (Fragment.append allocator bytes) buffer.fragments).map fun fragments =>
      { buffer with
        fragments
        capacityRemains := buffer.capacityRemains - sz
        totalSize := buffer.totalSize + sz }
  else if buffer.capacityRemains > 0 then
    let grow (vec : Fragment) :=
      (vec.reserve allocator (sizeT (vec.size + sz + buffer.allocGranularity))).append allocator bytes
    (modifyBack grow buffer.fragments).map fun fragments =>
      { buffer with
        fragments
        capacityRemains := buffer.allocGranularity
        totalSize := buffer.totalSize + sz }
  else
    let vec := (({} : Fragment).reserve allocator (sizeT (sz + buffer.allocGranularity))).append allocator bytes
    some { buffer with
      fragments := buffer.fragments ++ [vec]
      capacityRemains := buffer.allocGranularity
      totalSize := buffer.totalSize + sz }

/-- Consume the first fragment or a part of it: at most `n` bytes to `out` from `p` on. -/
def consumePart (buffer : ReadBuffer) (out : Bytes) (p n : ℕ) : Option (ReadBuffer × Bytes × ℕ) :=
  match buffer.fragments with
  | [] => some (buffer, out, 0)
  | f :: rest =>
    if ¬ f.size > buffer.firstByteOffset then none
    else
      let fragmentSize := f.size - buffer.firstByteOffset
      let n := if n > fragmentSize then fragmentSize else n
      (memcpy out p f.bytes buffer.firstByteOffset n).map fun out =>
        if n < fragmentSize then ({ buffer with firstByteOffset := buffer.firstByteOffset + n }, out, n)
        else ({ buffer with firstByteOffset := 0, fragments := rest }, out, n)

/-- The loop of `consume`, with as many turns at most as `fuel`. -/
def consumeLoop (fuel : ℕ) (buffer : ReadBuffer) (out : Bytes) (p remains : ℕ) : Option (ReadBuffer × Bytes) :=
  if remains > 0 then
    match fuel with
    | 0 => none
    | fuel + 1 =>
      (buffer.consumePart out p remains).bind fun (buffer, out, consumed) =>
        if ¬ consumed ≤ remains then none else consumeLoop fuel buffer out (p + consumed) (remains - consumed)
  else some (buffer, out)

/-- The loop of `consumeAll` over the fragments behind the first one. -/
def copyFragments (out : Bytes) (p : ℕ) : List Fragment → Option Bytes
  | [] => some out
  | f :: rest => (memcpy out p f.bytes 0 f.size).bind fun out => copyFragments out (p + f.size) rest

/-- Consume all bytes; the first fragment that is not too large is kept without its bytes. -/
def consumeAll (buffer : ReadBuffer) (out : Bytes) : Option (ReadBuffer × Bytes × ℕ) :=
  match buffer.fragments with
  | [] => none
  | f :: rest =>
    if ¬ buffer.firstByteOffset ≤ f.size then none
    else
      let n := f.size - buffer.firstByteOffset
      (memcpy out 0 f.bytes buffer.firstByteOffset n).bind fun out =>
        (copyFragments out n rest).map fun out =>
          let kept := buffer.fragments.find? fun f => f.capacity ≤ sizeT (buffer.allocGranularity * 2)
          ({ buffer with
              totalSize := 0
              firstByteOffset := 0
              capacityRemains := kept.elim 0 Fragment.capacity
              fragments := (kept.map Fragment.clear).toList }, out, buffer.totalSize)

def consume (buffer : ReadBuffer) (out : Bytes) : Option (ReadBuffer × Bytes × ℕ) :=
  if buffer.empty then some (buffer, out, 0)
  else
    let nBytes := out.length
    if nBytes ≥ buffer.totalSize then buffer.consumeAll out
    else
      (consumeLoop nBytes buffer out 0 nBytes).map fun (buffer, out) =>
        ({ buffer with totalSize := buffer.totalSize - nBytes }, out, nBytes)

/-- `addAndConsume`, with as many calls at most as `fuel`. -/
def addAndConsume (allocator : Allocator) :
    ℕ → ReadBuffer → Bytes → Bytes → Option (ReadBuffer × Bytes × ℕ)
  | 0, _, _, _ => none
  | fuel + 1, buffer, input, out =>
    if input = [] then buffer.consume out
    else if out = [] then (buffer.add allocator input).map fun buffer => (buffer, out, 0)
    else if buffer.empty then
      if input.length ≤ out.length then
        (memcpy out 0 input 0 input.length).map fun out => (buffer, out, input.length)
      else
        (memcpy out 0 input 0 out.length).bind fun written =>
          (buffer.add allocator (input.drop out.length)).map fun buffer => (buffer, written, out.length)
    else if out.length ≤ buffer.totalSize then
      (buffer.consume out).bind fun (buffer, out, consumed) =>
        (buffer.add allocator input).map fun buffer => (buffer, out, consumed)
    else
      (buffer.consumeAll out).bind fun (buffer, out, consumed) =>
        (addAndConsume allocator fuel buffer input (out.drop consumed)).map fun (buffer, rest, more) =>
          (buffer, out.take consumed ++ rest, consumed + more)

def clear (buffer : ReadBuffer) : ReadBuffer := { allocGranularity := buffer.allocGranularity }

/-- Calls of the public functions; `out` is what the buffer to write to holds before. -/
inductive Call where
  | add (bytes : Bytes)
  | consume (out : Bytes)
  | addAndConsume (input out : Bytes)
  | clear

/-- What a call leaves in `out`, and what it returns; nothing for those that return nothing. -/
abbrev Outcome := Option (Bytes × ℕ)

def step (allocator : Allocator) (fuel : ℕ) (buffer : ReadBuffer) : Call → Option (ReadBuffer × Outcome)
  | .add bytes => (buffer.add allocator bytes).map fun buffer => (buffer, none)
  | .consume out => (buffer.consume out).map fun (buffer, out, n) => (buffer, some (out, n))
  | .addAndConsume input out =>
    (buffer.addAndConsume allocator fuel input out).map fun (buffer, out, n) => (buffer, some (out, n))
  | .clear => some (buffer.clear, none)

end ReadBuffer

/-! A queue of bytes. -/

namespace ByteQueue

/-- The bytes are written to the front. -/
def front (out bytes : Bytes) : Bytes := bytes ++ out.drop bytes.length

/-- Take as many bytes as there are and as fit. -/
def take (queue out : Bytes) : Bytes × ReadBuffer.Outcome :=
  (queue.drop out.length, some (front out (queue.take out.length), min queue.length out.length))

def step (queue : Bytes) : ReadBuffer.Call → Bytes × ReadBuffer.Outcome
  | .add bytes => (queue ++ bytes, none)
  | .consume out => take queue out
  | .addAndConsume input out => take (queue ++ input) out
  | .clear => ([], none)

end ByteQueue

theorem Fragment.bytes_reserve (allocator : Allocator) (needed : ℕ) (vec : Fragment) :
    (vec.reserve allocator needed).bytes = vec.bytes := by
  unfold Fragment.reserve
  split_ifs <;> rfl

theorem Fragment.bytes_append (allocator : Allocator) (bytes : Bytes) (vec : Fragment) :
    (vec.append allocator bytes).bytes = vec.bytes ++ bytes := by
  unfold Fragment.append
  split_ifs <;> rfl

/-- Bytes in the place of others, from `p` on. -/
def written (out : Bytes) (p : ℕ) (bytes : Bytes) : Bytes := out.take p ++ bytes ++ out.drop (p + bytes.length)

theorem written_nil (out : Bytes) (p : ℕ) : written out p [] = out := by
  simp [written]

theorem length_written {out bytes : Bytes} {p : ℕ} (room : p + bytes.length ≤ out.length) :
    (written out p bytes).length = out.length := by
  simp only [written, List.length_append, List.length_take, List.length_drop]
  omega

/-- What is written behind other bytes is written together with them. -/
theorem written_written {out first second : Bytes} {p : ℕ} (room : p + first.length ≤ out.length) :
    written (written out p first) (p + first.length) second = written out p (first ++ second) := by
  have start : (out.take p ++ first).length = p + first.length := by
    rw [List.length_append, List.length_take]
    omega
  have before : (written out p first).take (p + first.length) = out.take p ++ first := by
    rw [written, ← start, List.take_left]
  have behind : (written out p first).drop (p + first.length + second.length) =
      out.drop (p + (first ++ second).length) := by
    rw [written, ← List.drop_drop, ← start, List.drop_left, start, List.drop_drop, List.length_append, Nat.add_assoc]
  rw [written, before, behind, written, List.append_assoc, List.append_assoc, List.append_assoc, List.append_assoc]

/-- A copy inside of both buffers. -/
theorem memcpy_eq {out src : Bytes} {p offset n : ℕ} (inside : offset + n ≤ src.length) (room : p + n ≤ out.length) :
    memcpy out p src offset n = some (written out p ((src.drop offset).take n)) := by
  have length : ((src.drop offset).take n).length = n := by
    rw [List.length_take, List.length_drop]
    omega
  rw [memcpy, if_pos ⟨inside, room⟩, written, length]

namespace ReadBuffer

variable {allocator : Allocator} {buffer : ReadBuffer} {first : Fragment} {fragments rest : List Fragment}
  {queue out bytes : Bytes} {offset n p : ℕ}

/-- The bytes of some fragments. -/
def contents (fragments : List Fragment) : Bytes := fragments.flatMap Fragment.bytes

/-- Bytes of the queue in fragments, of which the first one is consumed up to an offset and none is empty. -/
structure Filled (offset : ℕ) (fragments : List Fragment) (queue : Bytes) : Prop where
  some_ : fragments ≠ []
  inside : ∀ f ∈ fragments.head?, offset < f.bytes.length
  nonempty : ∀ f ∈ fragments.tail, f.bytes ≠ []
  bytes : (contents fragments).drop offset = queue

/-- No bytes, and a fragment exactly when there is room in it. -/
structure Drained (buffer : ReadBuffer) : Prop where
  start : buffer.firstByteOffset = 0
  kept : (buffer.fragments = [] ∧ buffer.capacityRemains = 0) ∨
    ∃ f, buffer.fragments = [f] ∧ f.bytes = [] ∧ 0 < buffer.capacityRemains

/-- The fields of a buffer are those of one that holds the queue. -/
structure Holds (buffer : ReadBuffer) (queue : Bytes) : Prop where
  total : buffer.totalSize = queue.length
  shape : Filled buffer.firstByteOffset buffer.fragments queue ∨ buffer.Drained ∧ queue = []

theorem Filled.cons : Filled offset (first :: rest) queue ↔
    offset < first.bytes.length ∧ (∀ f ∈ rest, f.bytes ≠ []) ∧ first.bytes.drop offset ++ contents rest = queue := by
  have split (short : offset < first.bytes.length) :
      (contents (first :: rest)).drop offset = first.bytes.drop offset ++ contents rest := by
    rw [contents, List.flatMap_cons, List.drop_append_of_le_length short.le]
    rfl
  constructor
  · rintro ⟨-, inside, nonempty, bytes⟩
    have short := inside first rfl
    exact ⟨short, nonempty, split short ▸ bytes⟩
  · rintro ⟨short, nonempty, bytes⟩
    refine ⟨List.cons_ne_nil _ _, fun f member => ?_, nonempty, (split short).trans bytes⟩
    obtain rfl := Option.some.inj member
    exact short

/-- What is left when the first fragments are gone. -/
theorem Filled.of_nonempty (some_ : fragments ≠ []) (nonempty : ∀ f ∈ fragments, f.bytes ≠ []) :
    Filled 0 fragments (contents fragments) := by
  obtain ⟨first, rest, rfl⟩ := List.exists_cons_of_ne_nil some_
  obtain ⟨here, others⟩ := List.forall_mem_cons.mp nonempty
  exact Filled.cons.mpr ⟨List.length_pos_iff.mpr here, others, rfl⟩

/-- The last fragment gets more bytes. -/
theorem modifyBack_filled {change : Fragment → Fragment} (appends : ∀ f, (change f).bytes = f.bytes ++ bytes)
    (filled : Filled offset fragments queue) :
    ∃ more, modifyBack change fragments = some more ∧ Filled offset more (queue ++ bytes) := by
  induction fragments generalizing offset queue with
  | nil => exact absurd rfl filled.some_
  | cons first rest ih =>
    obtain ⟨short, nonempty, rfl⟩ := Filled.cons.mp filled
    rcases rest with _ | ⟨next, rest⟩
    · refine ⟨[change first], rfl, Filled.cons.mpr ⟨?_, List.forall_mem_nil _, ?_⟩⟩
      · rw [appends, List.length_append]
        omega
      · rw [appends, List.drop_append_of_le_length short.le]
        simp [contents]
    · obtain ⟨more, changed, filled⟩ := ih (Filled.of_nonempty (List.cons_ne_nil _ _) nonempty)
      obtain ⟨next', rest', rfl⟩ := List.exists_cons_of_ne_nil filled.some_
      obtain ⟨long, others, all⟩ := Filled.cons.mp filled
      refine ⟨first :: next' :: rest', ?_, Filled.cons.mpr ⟨short, ?_, ?_⟩⟩
      · rw [modifyBack, changed]
        rfl
      · exact List.forall_mem_cons.mpr ⟨List.length_pos_iff.mp (by omega), others⟩
      · rw [List.append_assoc, ← all]
        rfl

/-- The kept fragment gets the bytes. -/
theorem modifyBack_kept {change : Fragment → Fragment} (appends : ∀ f, (change f).bytes = f.bytes ++ bytes)
    (some_ : bytes ≠ []) (empty : first.bytes = []) :
    ∃ more, modifyBack change [first] = some more ∧ Filled 0 more bytes := by
  have filled : (change first).bytes = bytes := by rw [appends, empty, List.nil_append]
  refine ⟨[change first], rfl, Filled.cons.mpr ⟨?_, List.forall_mem_nil _, ?_⟩⟩
  · rw [filled]
    exact List.length_pos_iff.mpr some_
  · rw [filled]
    simp [contents]

theorem add_holds (holds : buffer.Holds queue) (bytes : Bytes) :
    ∃ after, buffer.add allocator bytes = some after ∧ after.Holds (queue ++ bytes) := by
  unfold add
  dsimp only
  by_cases none : bytes.length = 0
  · rw [if_pos none, List.length_eq_zero_iff.mp none, List.append_nil]
    exact ⟨buffer, rfl, holds⟩
  have some_ : bytes ≠ [] := fun empty => none (by rw [empty]; rfl)
  have total : buffer.totalSize + bytes.length = (queue ++ bytes).length := by rw [holds.total, List.length_append]
  -- The first two branches differ in what the last fragment reserves.
  have back {change : Fragment → Fragment} (appends : ∀ f, (change f).bytes = f.bytes ++ bytes)
      (room : 0 < buffer.capacityRemains) : ∃ more, modifyBack change buffer.fragments = some more ∧
        Filled buffer.firstByteOffset more (queue ++ bytes) := by
    rcases holds.shape with filled | ⟨⟨start, ⟨-, full⟩ | ⟨f, single, empty, -⟩⟩, rfl⟩
    · exact modifyBack_filled appends filled
    · omega
    · rw [single, start, List.nil_append]
      exact modifyBack_kept appends some_ empty
  rw [if_neg none]
  by_cases roomy : buffer.capacityRemains ≥ bytes.length
  · obtain ⟨more, changed, filled⟩ := back (Fragment.bytes_append allocator bytes) (by omega)
    rw [if_pos roomy, changed]
    exact ⟨_, rfl, total, .inl filled⟩
  rw [if_neg roomy]
  by_cases room : buffer.capacityRemains > 0
  · have appends (f : Fragment) : ((f.reserve allocator
        (sizeT (f.size + bytes.length + buffer.allocGranularity))).append allocator bytes).bytes = f.bytes ++ bytes := by
      rw [Fragment.bytes_append, Fragment.bytes_reserve]
    obtain ⟨more, changed, filled⟩ := back appends room
    rw [if_pos room, changed]
    exact ⟨_, rfl, total, .inl filled⟩
  · rw [if_neg room]
    refine ⟨_, rfl, total, .inl ?_⟩
    dsimp only
    have last (vec : Fragment) (same : vec.bytes = bytes) :
        Filled buffer.firstByteOffset (buffer.fragments ++ [vec]) (queue ++ bytes) := by
      rcases holds.shape with filled | ⟨⟨start, ⟨gone, -⟩ | ⟨f, -, -, room'⟩⟩, rfl⟩
      · obtain ⟨first, rest, split⟩ := List.exists_cons_of_ne_nil filled.some_
        rw [split] at filled ⊢
        obtain ⟨short, nonempty, rfl⟩ := Filled.cons.mp filled
        refine Filled.cons.mpr ⟨short, ?_, ?_⟩
        · intro f member
          rcases List.mem_append.mp member with old | new
          · exact nonempty f old
          · rw [List.mem_singleton.mp new, same]
            exact some_
        · simp [contents, same]
      · rw [gone, start]
        refine Filled.cons.mpr ⟨?_, List.forall_mem_nil _, ?_⟩
        · rw [same]
          exact List.length_pos_iff.mpr some_
        · simp [contents, same]
      · omega
    refine last _ ?_
    rw [Fragment.bytes_append, Fragment.bytes_reserve]
    rfl

/-- A part of the queue is consumed: as much as the first fragment has, if that is not more than is asked for. -/
theorem consumePart_filled (filled : Filled buffer.firstByteOffset buffer.fragments queue) (positive : 0 < n)
    (less : n < queue.length) (room : p + n ≤ out.length) :
    ∃ after k, buffer.consumePart out p n = some (after, written out p (queue.take k), k) ∧
      0 < k ∧ k ≤ n ∧ Filled after.firstByteOffset after.fragments (queue.drop k) ∧
      after.totalSize = buffer.totalSize := by
  obtain ⟨allocGranularity, totalSize, offset, capacityRemains, fragments⟩ := buffer
  dsimp only at filled
  obtain ⟨first, rest, rfl⟩ := List.exists_cons_of_ne_nil filled.some_
  obtain ⟨short, nonempty, rfl⟩ := Filled.cons.mp filled
  have here : first.size > offset := short
  have whole : (first.bytes.drop offset).length = first.size - offset := List.length_drop
  unfold consumePart
  dsimp only
  rw [if_neg (not_not.mpr here)]
  by_cases past : n ≥ first.size - offset
  · have taken : (if n > first.size - offset then first.size - offset else n) = first.size - offset := by
      split_ifs <;> omega
    have copied := @memcpy_eq out first.bytes p offset (first.size - offset) (by rw [Fragment.size]; omega) (by omega)
    have all : (first.bytes.drop offset).take (first.size - offset) = first.bytes.drop offset :=
      List.take_of_length_le whole.le
    have cut : (first.bytes.drop offset ++ contents rest).take (first.size - offset) = first.bytes.drop offset := by
      rw [← whole, List.take_left]
    have left : (first.bytes.drop offset ++ contents rest).drop (first.size - offset) = contents rest := by
      rw [← whole, List.drop_left]
    have more : rest ≠ [] := by
      rintro rfl
      rw [List.length_append, whole] at less
      simp only [contents, List.flatMap_nil, List.length_nil] at less
      omega
    rw [taken, copied, all, Option.map_some, if_neg (lt_irrefl _)]
    refine ⟨_, first.size - offset, by rw [cut], by omega, past, ?_, rfl⟩
    rw [left]
    exact Filled.of_nonempty more nonempty
  · have taken : (if n > first.size - offset then first.size - offset else n) = n := if_neg (by omega)
    have copied := @memcpy_eq out first.bytes p offset n (by rw [Fragment.size] at past; omega) room
    have cut : (first.bytes.drop offset ++ contents rest).take n = (first.bytes.drop offset).take n :=
      List.take_append_of_le_length (by omega)
    have left : (first.bytes.drop offset ++ contents rest).drop n = first.bytes.drop (offset + n) ++ contents rest := by
      rw [List.drop_append_of_le_length (by omega), List.drop_drop]
    rw [taken, copied, Option.map_some, if_pos (not_le.mp past)]
    refine ⟨_, n, by rw [cut], positive, le_rfl, ?_, rfl⟩
    rw [left]
    refine Filled.cons.mpr ⟨?_, nonempty, rfl⟩
    dsimp only
    rw [Fragment.size] at past
    omega

/-- The loop ends, since each turn consumes something. -/
theorem consumeLoop_filled {fuel : ℕ} (filled : Filled buffer.firstByteOffset buffer.fragments queue)
    (enough : n ≤ fuel) (less : n < queue.length) (room : p + n ≤ out.length) :
    ∃ after, consumeLoop fuel buffer out p n = some (after, written out p (queue.take n)) ∧
      Filled after.firstByteOffset after.fragments (queue.drop n) ∧ after.totalSize = buffer.totalSize := by
  induction fuel generalizing buffer queue out p n with
  | zero =>
    obtain rfl : n = 0 := Nat.le_zero.mp enough
    refine ⟨buffer, ?_, filled, rfl⟩
    rw [consumeLoop, if_neg (lt_irrefl 0), List.take_zero, written_nil]
  | succ fuel ih =>
    rw [consumeLoop]
    by_cases positive : 0 < n
    · obtain ⟨middle, k, consumed, some_, most, left, same⟩ := consumePart_filled filled positive less room
      have size : (queue.take k).length = k := List.length_take_of_le (by omega)
      have inside : p + (queue.take k).length ≤ out.length := by omega
      obtain ⟨after, looped, rest, kept⟩ := @ih middle (queue.drop k) (written out p (queue.take k)) (n - k) (p + k) left
        (by omega) (by rw [List.length_drop]; omega) (by rw [length_written inside]; omega)
      have both : queue.take k ++ (queue.drop k).take (n - k) = queue.take n := by
        rw [← List.take_add, Nat.add_sub_cancel' most]
      have whole := @written_written out (queue.take k) ((queue.drop k).take (n - k)) p inside
      rw [size, both] at whole
      refine ⟨after, ?_, ?_, kept.trans same⟩
      · rw [if_pos positive, consumed, Option.bind_some]
        dsimp only
        rw [if_neg (not_not.mpr most), looped, whole]
      · rw [List.drop_drop, Nat.add_sub_cancel' most] at rest
        exact rest
    · obtain rfl : n = 0 := by omega
      refine ⟨buffer, ?_, filled, rfl⟩
      rw [if_neg (lt_irrefl 0), List.take_zero, written_nil]

/-- Everything behind the first fragment is copied. -/
theorem copyFragments_eq {fragments : List Fragment} (room : p + (contents fragments).length ≤ out.length) :
    copyFragments out p fragments = some (written out p (contents fragments)) := by
  induction fragments generalizing out p with
  | nil => exact congrArg some (written_nil out p).symm
  | cons first rest ih =>
    have size : (contents (first :: rest)).length = first.size + (contents rest).length := by
      simp [contents, Fragment.size]
    have copied := @memcpy_eq out first.bytes p 0 first.size (Nat.zero_add _).le (by omega)
    have all : (first.bytes.drop 0).take first.size = first.bytes := List.take_of_length_le le_rfl
    have inside : p + first.bytes.length ≤ out.length := by
      rw [Fragment.size] at size
      omega
    rw [all] at copied
    rw [copyFragments, copied, Option.bind_some, ih (by rw [length_written inside]; omega)]
    exact congrArg some (written_written inside)

/-- All bytes are copied, and what is kept is empty. -/
theorem consumeAll_drained (filled : Filled buffer.firstByteOffset buffer.fragments queue)
    (total : buffer.totalSize = queue.length) (room : queue.length ≤ out.length) :
    ∃ after, buffer.consumeAll out = some (after, written out 0 queue, queue.length) ∧ after.Holds [] := by
  obtain ⟨allocGranularity, totalSize, offset, capacityRemains, fragments⟩ := buffer
  dsimp only at filled total
  obtain ⟨first, rest, rfl⟩ := List.exists_cons_of_ne_nil filled.some_
  obtain ⟨short, nonempty, rfl⟩ := Filled.cons.mp filled
  have whole : (first.bytes.drop offset).length = first.size - offset := List.length_drop
  have all : (first.bytes.drop offset).take (first.size - offset) = first.bytes.drop offset :=
    List.take_of_length_le whole.le
  rw [List.length_append] at room
  have copied := @memcpy_eq out first.bytes 0 offset (first.size - offset) (by rw [Fragment.size]; omega) (by omega)
  rw [all] at copied
  have inside : 0 + (first.bytes.drop offset).length ≤ out.length := by omega
  have others := @copyFragments_eq (written out 0 (first.bytes.drop offset)) (0 + (first.bytes.drop offset).length) rest
    (by rw [length_written inside]; omega)
  rw [written_written inside, whole, Nat.zero_add] at others
  unfold consumeAll
  dsimp only
  rw [if_neg (not_not.mpr (show offset ≤ first.size from short.le)), copied, Option.bind_some, others, Option.map_some, total]
  refine ⟨_, rfl, rfl, .inr ⟨⟨rfl, ?_⟩, rfl⟩⟩
  rcases kept : (first :: rest).find? fun f => f.capacity ≤ sizeT (allocGranularity * 2) with _ | f
  · dsimp only
    rw [kept]
    exact .inl ⟨rfl, rfl⟩
  · dsimp only
    rw [kept]
    refine .inr ⟨f.clear, rfl, rfl, ?_⟩
    have some_ : f.bytes ≠ [] := by
      rcases List.mem_cons.mp (List.mem_of_find?_eq_some kept) with rfl | member
      · exact List.length_pos_iff.mp (by omega)
      · exact nonempty f member
    exact (List.length_pos_iff.mpr some_).trans_le f.fits

/-- What the queue gives for an output buffer. -/
theorem front_eq (out bytes : Bytes) : ByteQueue.front out bytes = written out 0 bytes := by
  rw [written, List.take_zero, List.nil_append, Nat.zero_add]
  rfl

theorem Holds.filled (holds : buffer.Holds queue) (some_ : ¬ buffer.empty) :
    Filled buffer.firstByteOffset buffer.fragments queue := by
  rcases holds.shape with filled | ⟨-, rfl⟩
  · exact filled
  · exact absurd holds.total some_

/-- The state that a call has to reach, with what it writes and returns, to take bytes from the front of a queue. -/
def Takes (result : Option (ReadBuffer × Bytes × ℕ)) (queue out : Bytes) : Prop :=
  ∃ after, result = some (after, ByteQueue.front out (queue.take out.length), min queue.length out.length) ∧
    after.Holds (queue.drop out.length)

theorem consume_holds (holds : buffer.Holds queue) (out : Bytes) : Takes (buffer.consume out) queue out := by
  unfold consume
  by_cases empty : buffer.empty
  · have none : queue = [] := List.length_eq_zero_iff.mp (holds.total.symm.trans empty)
    subst none
    rw [if_pos empty, Takes, List.take_nil, List.drop_nil, List.length_nil, Nat.zero_min]
    exact ⟨buffer, rfl, holds⟩
  have filled := holds.filled empty
  rw [if_neg empty, Takes, front_eq]
  dsimp only
  rw [holds.total]
  by_cases all : out.length ≥ queue.length
  · obtain ⟨after, consumed, drained⟩ := consumeAll_drained filled holds.total all
    rw [if_pos all, consumed, List.take_of_length_le all, List.drop_of_length_le all, min_eq_left all]
    exact ⟨after, rfl, drained⟩
  · obtain ⟨after, looped, left, same⟩ := consumeLoop_filled (p := 0) filled le_rfl (not_le.mp all)
      (Nat.zero_add out.length).le
    rw [if_neg all, looped, min_eq_right (not_le.mp all).le]
    refine ⟨_, rfl, ?_, .inl left⟩
    dsimp only
    rw [same, holds.total, List.length_drop]

/-- An empty buffer passes on what fits and keeps the rest. -/
theorem addAndConsume_empty {fuel : ℕ} (holds : buffer.Holds []) (input out : Bytes) :
    Takes (buffer.addAndConsume allocator (fuel + 1) input out) input out := by
  have empty : buffer.empty := holds.total
  rw [addAndConsume]
  by_cases nothing : input = []
  · rw [if_pos nothing, nothing]
    exact consume_holds holds out
  rw [if_neg nothing]
  by_cases none : out = []
  · obtain ⟨after, added, holds⟩ := @add_holds allocator _ _ holds input
    rw [if_pos none, added, none]
    exact ⟨after, by simp [ByteQueue.front], holds⟩
  rw [if_neg none, if_pos empty]
  by_cases fits : input.length ≤ out.length
  · have copied := @memcpy_eq out input 0 0 input.length (Nat.zero_add _).le (by omega)
    rw [List.drop_zero, List.take_length] at copied
    rw [if_pos fits, copied, Takes, List.take_of_length_le fits, List.drop_of_length_le fits, min_eq_left fits, front_eq]
    exact ⟨buffer, rfl, holds⟩
  · have copied := @memcpy_eq out input 0 0 out.length (by omega) (by omega)
    rw [List.drop_zero] at copied
    obtain ⟨after, added, holds⟩ := @add_holds allocator _ _ holds (input.drop out.length)
    rw [if_neg fits, copied, Option.bind_some, added, Takes, min_eq_right (not_le.mp fits).le, front_eq]
    exact ⟨after, rfl, holds⟩

/-- The recursion ends after one more call, in which the buffer is empty. -/
theorem addAndConsume_holds {fuel : ℕ} (holds : buffer.Holds queue) (input out : Bytes) :
    Takes (buffer.addAndConsume allocator (fuel + 2) input out) (queue ++ input) out := by
  by_cases empty : buffer.empty
  · obtain rfl : queue = [] := List.length_eq_zero_iff.mp (holds.total.symm.trans empty)
    exact addAndConsume_empty holds input out
  rw [addAndConsume]
  by_cases nothing : input = []
  · rw [if_pos nothing, nothing, List.append_nil]
    exact consume_holds holds out
  rw [if_neg nothing]
  by_cases none : out = []
  · obtain ⟨after, added, holds⟩ := @add_holds allocator _ _ holds input
    rw [if_pos none, added, none]
    exact ⟨after, by simp [ByteQueue.front], holds⟩
  rw [if_neg none, if_neg empty, holds.total]
  by_cases fits : out.length ≤ queue.length
  · obtain ⟨middle, consumed, left⟩ := consume_holds holds out
    obtain ⟨after, added, holds⟩ := @add_holds allocator _ _ left input
    rw [if_pos fits, consumed, Option.bind_some]
    dsimp only
    rw [added, Takes, List.take_append_of_le_length fits, List.drop_append_of_le_length fits, List.length_append,
      min_eq_right fits, min_eq_right (by omega)]
    exact ⟨after, rfl, holds⟩
  · obtain ⟨middle, consumed, drained⟩ := consumeAll_drained (holds.filled empty) holds.total (not_le.mp fits).le
    obtain ⟨after, passed, holds⟩ := @addAndConsume_empty allocator _ fuel drained input
      (out.drop queue.length)
    have inside : 0 + queue.length ≤ out.length := by omega
    have before : (written out 0 queue).take queue.length = queue := by
      rw [← front_eq, ByteQueue.front, List.take_left]
    have behind : (written out 0 queue).drop queue.length = out.drop queue.length := by
      rw [← front_eq, ByteQueue.front, List.drop_left]
    rw [if_neg fits, consumed, Option.bind_some]
    dsimp only
    rw [behind, passed, Takes, before]
    rw [List.length_drop] at holds ⊢
    have taken : (queue ++ input).take out.length = queue ++ input.take (out.length - queue.length) := by
      rw [List.take_append, List.take_of_length_le (not_le.mp fits).le]
    have left : (queue ++ input).drop out.length = input.drop (out.length - queue.length) := by
      rw [List.drop_append, List.drop_of_length_le (not_le.mp fits).le, List.nil_append]
    have both : queue ++ ByteQueue.front (out.drop queue.length) (input.take (out.length - queue.length)) =
        ByteQueue.front out (queue ++ input.take (out.length - queue.length)) := by
      rw [ByteQueue.front, ByteQueue.front, List.drop_drop, List.append_assoc, List.length_append]
    have count : queue.length + min input.length (out.length - queue.length) = min (queue ++ input).length out.length := by
      rw [List.length_append]
      omega
    rw [taken, left, ← both, ← count]
    exact ⟨after, rfl, holds⟩

theorem clear_holds (buffer : ReadBuffer) : buffer.clear.Holds [] := ⟨rfl, .inr ⟨⟨rfl, .inl ⟨rfl, rfl⟩⟩, rfl⟩⟩

/-- The buffer follows the queue. -/
theorem follows (allocator : Allocator) (fuel : ℕ) : Follows Holds (step allocator (fuel + 2)) ByteQueue.step := by
  intro buffer queue holds call
  cases call with
  | add bytes =>
    obtain ⟨after, added, holds⟩ := @add_holds allocator _ _ holds bytes
    exact ⟨after, by rw [step, added]; rfl, holds⟩
  | consume out =>
    obtain ⟨after, consumed, holds⟩ := consume_holds holds out
    exact ⟨after, by rw [step, consumed]; rfl, holds⟩
  | addAndConsume input out =>
    obtain ⟨after, passed, holds⟩ := @addAndConsume_holds allocator _ _ fuel holds input out
    exact ⟨after, by rw [step, passed]; rfl, holds⟩
  | clear => exact ⟨_, rfl, clear_holds buffer⟩

/-- After any calls, with any granularity and whatever the vectors reserve, each call has written and returned what a
queue of bytes does, and the buffer has the size of the queue; no assertion has failed, no copy was outside of its fragment
or of the output, and the loop and the recursion have ended. -/
theorem run_queue {allocGranularity : ℕ} (positive : 0 < allocGranularity) (allocator : Allocator) (fuel : ℕ)
    (calls : List Call) : ∃ fresh buffer, create allocGranularity = some fresh ∧
      runM (step allocator (fuel + 2)) fresh calls = some (buffer, (runAll ByteQueue.step [] calls).2) ∧
      buffer.size = (runAll ByteQueue.step [] calls).1.length ∧
      (buffer.empty ↔ (runAll ByteQueue.step [] calls).1 = []) := by
  have fresh : Holds { allocGranularity } [] := ⟨rfl, .inr ⟨⟨rfl, .inl ⟨rfl, rfl⟩⟩, rfl⟩⟩
  obtain ⟨buffer, ran, holds⟩ := (follows allocator fuel).run fresh calls
  refine ⟨_, buffer, if_pos positive, ran, holds.total, ?_⟩
  rw [empty, holds.total, List.length_eq_zero_iff]

/-- Vectors that allocate what is needed. -/
def exactly : Allocator := ⟨fun _ needed => needed, fun _ _ => le_rfl⟩

theorem run_queue_mixed : ∃ fresh buffer, create 2 = some fresh ∧
    runM (step exactly 2) fresh [.add [1, 2, 3], .consume [0, 0], .addAndConsume [4] [0, 0, 0], .clear] =
      some (buffer, [none, some ([1, 2], 2), some ([3, 4, 0], 2), none]) ∧
    buffer.size = 0 ∧ (buffer.empty ↔ ([] : Bytes) = []) :=
  run_queue (by decide) exactly 0 [.add [1, 2, 3], .consume [0, 0], .addAndConsume [4] [0, 0, 0], .clear]

end ReadBuffer

end Libp2p
