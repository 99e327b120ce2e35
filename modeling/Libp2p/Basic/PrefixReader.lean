import Libp2p.Basic.Varint
import Libp2p.Library.Leb128

/-! # What the prefix reader accepts

The reader becomes ready exactly on prefixes that fit 64 bits, with the number they denote, and it does not matter into
which chunks the bytes are cut.
-/

namespace Libp2p

open Library

namespace VarintPrefixReader

variable {reader : VarintPrefixReader} {byte : UInt8} {bytes more : Bytes}

/-- A reader that is not waiting stays as it is. -/
theorem consume_done (done : reader.state ≠ .underflow) : (reader.consume byte).1 = reader := by
  unfold consume
  rw [dif_neg done]
  split_ifs <;> rfl

/-- The state that is reported is the one that is reached. -/
theorem consume_reported (waiting : reader.state = .underflow) :
    (reader.consume byte).2 = (reader.consume byte).1.state := by
  unfold consume
  rw [dif_pos waiting]
  dsimp only
  split_ifs <;> rfl

/-- The number in a reader stands below the next group. -/
def Low (reader : VarintPrefixReader) : Prop := reader.value < 128 ^ reader.gotBytes

/-- A last group that fits completes the number, and another one is refused. -/
theorem consume_last_byte (waiting : reader.state = .underflow) (low : reader.Low) (last : byte.toNat < 128) :
    (Leb128.Fits 64 reader.gotBytes [byte] → (reader.consume byte).1.state = .ready ∧
      (reader.consume byte).1.gotBytes = reader.gotBytes + 1 ∧
      (reader.consume byte).1.value = reader.value + byte.toNat % 128 * 128 ^ reader.gotBytes) ∧
    (¬ Leb128.Fits 64 reader.gotBytes [byte] → (reader.consume byte).1.state = .overflow) := by
  have room := reader.bounded waiting
  have ended : byte &&& 0x80 = 0 := (UInt8.and_high_eq_zero byte).mpr last
  have fits : Leb128.Fits 64 reader.gotBytes [byte] ↔
      ¬ (reader.gotBytes + 1 = 10 ∧ ((byte &&& 0x7f).toNat > 1 ∨ byte &&& 0x80 ≠ 0)) := by
    rw [Leb128.fits_last, UInt8.and_low_toNat]
    constructor
    · rintro ⟨-, bound⟩ ⟨tenth, large | continued⟩
      · rw [show reader.gotBytes = 9 by omega] at bound
        omega
      · exact continued ended
    · intro small
      refine ⟨by omega, ?_⟩
      by_cases tenth : reader.gotBytes = 9
      · have one : ¬ byte.toNat % 128 > 1 := fun large => small ⟨by omega, .inl large⟩
        rw [tenth]
        omega
      · have slice : byte.toNat % 128 * 128 ^ reader.gotBytes < 128 * 128 ^ reader.gotBytes :=
          Nat.mul_lt_mul_of_pos_right (Nat.mod_lt _ (by decide)) (by positivity)
        have power : (128 : ℕ) * 128 ^ reader.gotBytes ≤ 128 ^ 9 := by
          rw [mul_comm, ← pow_succ]
          exact Nat.pow_le_pow_right (by decide) (by omega)
        omega
  constructor
  · intro fit
    have bound := (Leb128.fits_last.mp fit).2
    have total := (Leb128.add_lt_iff low (by omega)).mpr bound
    unfold consume
    rw [dif_pos waiting]
    dsimp only
    rw [dif_neg (fits.mp fit), dif_neg (not_not.mpr ended)]
    refine ⟨rfl, rfl, ?_⟩
    dsimp only
    rw [UInt8.and_low_toNat, Nat.add_sub_cancel, Nat.shiftLeft_eq, pow_mul]
    rw [show (2 : ℕ) ^ 7 = 128 from rfl, Nat.mod_eq_of_lt bound, Nat.mod_eq_of_lt total]
  · intro unfit
    unfold consume
    rw [dif_pos waiting]
    dsimp only
    rw [dif_pos (not_not.mp (mt fits.mpr unfit))]

/-- A group that is not the last one is taken unless it is the tenth. -/
theorem consume_next_byte (waiting : reader.state = .underflow) (low : reader.Low) (next : 128 ≤ byte.toNat) :
    (reader.gotBytes + 1 < 10 → (reader.consume byte).1.state = .underflow ∧
      (reader.consume byte).1.gotBytes = reader.gotBytes + 1 ∧
      (reader.consume byte).1.value = reader.value + byte.toNat % 128 * 128 ^ reader.gotBytes) ∧
    (reader.gotBytes + 1 = 10 → (reader.consume byte).1.state = .overflow) := by
  have continued : byte &&& 0x80 ≠ 0 := fun zero => by
    have last := (UInt8.and_high_eq_zero byte).mp zero
    omega
  constructor
  · intro room
    have slice : byte.toNat % 128 * 128 ^ reader.gotBytes < 2 ^ 64 := by
      calc byte.toNat % 128 * 128 ^ reader.gotBytes
          < 128 * 128 ^ reader.gotBytes := Nat.mul_lt_mul_of_pos_right (Nat.mod_lt _ (by decide)) (by positivity)
        _ = 128 ^ (reader.gotBytes + 1) := by rw [pow_succ, mul_comm]
        _ ≤ 128 ^ 9 := Nat.pow_le_pow_right (by decide) (by omega)
        _ < 2 ^ 64 := by decide
    have total := (Leb128.add_lt_iff low (by omega)).mpr slice
    unfold consume
    rw [dif_pos waiting]
    dsimp only
    rw [dif_neg (fun full => by omega), dif_pos continued]
    refine ⟨rfl, rfl, ?_⟩
    dsimp only
    rw [UInt8.and_low_toNat, Nat.add_sub_cancel, Nat.shiftLeft_eq, pow_mul]
    rw [show (2 : ℕ) ^ 7 = 128 from rfl, Nat.mod_eq_of_lt slice, Nat.mod_eq_of_lt total]
  · intro tenth
    unfold consume
    rw [dif_pos waiting]
    dsimp only
    rw [dif_pos ⟨tenth, .inr continued⟩]

theorem consumeLoop_cons (waiting : reader.state = .underflow) (rest : Bytes) :
    reader.consumeLoop (byte :: rest) =
      if (reader.consume byte).1.state ≠ .underflow then
        ((reader.consume byte).1, (reader.consume byte).1.state, 1)
      else
        (((reader.consume byte).1.consumeLoop rest).1, ((reader.consume byte).1.consumeLoop rest).2.1,
          ((reader.consume byte).1.consumeLoop rest).2.2 + 1) := by
  rw [consumeLoop]
  dsimp only
  rw [consume_reported waiting]

/-- The state reported for some bytes is the one that is reached. -/
theorem consumeLoop_reported (waiting : reader.state = .underflow) (bytes : Bytes) :
    (reader.consumeLoop bytes).2.1 = (reader.consumeLoop bytes).1.state := by
  induction bytes generalizing reader with
  | nil => rfl
  | cons byte rest ih =>
    rw [consumeLoop_cons waiting]
    split_ifs with done
    · rfl
    · exact ih (not_not.mp done)

theorem low_next (waiting : reader.state = .underflow) (low : reader.Low) (next : 128 ≤ byte.toNat)
    (room : reader.gotBytes + 1 < 10) : (reader.consume byte).1.Low := by
  obtain ⟨-, count, value⟩ := (consume_next_byte waiting low next).1 room
  unfold Low at low ⊢
  rw [count, value, pow_succ]
  have slice : byte.toNat % 128 * 128 ^ reader.gotBytes ≤ 127 * 128 ^ reader.gotBytes :=
    Nat.mul_le_mul_right _ (by omega)
  omega

/-- On a prefix that fits the reader becomes ready and holds what the prefix denotes. -/
theorem consumeLoop_of_fits (waiting : reader.state = .underflow) (low : reader.Low) {groups : List UInt8}
    (found : Leb128.cut bytes = some groups) (fits : Leb128.Fits 64 reader.gotBytes groups) :
    (reader.consumeLoop bytes).1.state = .ready ∧ (reader.consumeLoop bytes).2.2 = groups.length ∧
      (reader.consumeLoop bytes).1.gotBytes = reader.gotBytes + groups.length ∧
      (reader.consumeLoop bytes).1.value = reader.value + Leb128.denote groups * 128 ^ reader.gotBytes := by
  induction bytes generalizing reader groups with
  | nil => cases found
  | cons byte rest ih =>
    rw [consumeLoop_cons waiting]
    by_cases last : byte.toNat < 128
    · rw [Leb128.cut_last last] at found
      obtain rfl := Option.some.inj found
      obtain ⟨ready, count, value⟩ := (consume_last_byte waiting low last).1 fits
      rw [if_pos (by rw [ready]; decide)]
      exact ⟨ready, rfl, count, value⟩
    · have next : 128 ≤ byte.toNat := not_lt.mp last
      rw [Leb128.cut_more next] at found
      obtain ⟨first, earlier, rfl⟩ := Option.map_eq_some_iff.mp found
      have nonempty := (Leb128.cut_eq_some earlier).1
      have positive : 0 < first.length := List.length_pos_iff.mpr nonempty
      have tail := (Leb128.fits_more nonempty).mp fits
      have starts := tail.starts
      have room : reader.gotBytes + 1 < 10 := by omega
      obtain ⟨needed, count, value⟩ := (consume_next_byte waiting low next).1 room
      rw [← count] at tail
      obtain ⟨ready, consumed, total, number⟩ := ih needed (low_next waiting low next room) earlier tail
      rw [if_neg (not_not.mpr needed)]
      refine ⟨ready, congrArg (· + 1) consumed, ?_, ?_⟩
      · rw [total, count, List.length_cons]
        omega
      · rw [number, value, count, Leb128.denote, pow_succ]
        ring

/-- Such a prefix is taken byte by byte. -/
theorem accepts_of_fits (waiting : reader.state = .underflow) (low : reader.Low) {groups : List UInt8}
    (found : Leb128.cut bytes = some groups) (fits : Leb128.Fits 64 reader.gotBytes groups) :
    Accepts reader groups (reader.value + Leb128.denote groups * 128 ^ reader.gotBytes) := by
  induction bytes generalizing reader groups with
  | nil => cases found
  | cons byte rest ih =>
    by_cases last : byte.toNat < 128
    · rw [Leb128.cut_last last] at found
      obtain rfl := Option.some.inj found
      obtain ⟨ready, -, value⟩ := (consume_last_byte waiting low last).1 fits
      have accepted := Accepts.last waiting ready
      rw [value] at accepted
      exact accepted
    · have next : 128 ≤ byte.toNat := not_lt.mp last
      rw [Leb128.cut_more next] at found
      obtain ⟨first, earlier, rfl⟩ := Option.map_eq_some_iff.mp found
      have nonempty := (Leb128.cut_eq_some earlier).1
      have positive : 0 < first.length := List.length_pos_iff.mpr nonempty
      have tail := (Leb128.fits_more nonempty).mp fits
      have starts := tail.starts
      have room : reader.gotBytes + 1 < 10 := by omega
      obtain ⟨needed, count, value⟩ := (consume_next_byte waiting low next).1 room
      rw [← count] at tail
      have accepted := Accepts.more waiting needed (ih needed (low_next waiting low next room) earlier tail)
      have number : (reader.consume byte).1.value + Leb128.denote first * 128 ^ (reader.consume byte).1.gotBytes =
          reader.value + Leb128.denote (byte :: first) * 128 ^ reader.gotBytes := by
        rw [value, count, Leb128.denote, pow_succ]
        ring
      rwa [number] at accepted

/-- The reader becomes ready on no other bytes. -/
theorem fits_of_consumeLoop (waiting : reader.state = .underflow) (low : reader.Low)
    (ready : (reader.consumeLoop bytes).1.state = .ready) :
    ∃ groups, Leb128.cut bytes = some groups ∧ Leb128.Fits 64 reader.gotBytes groups := by
  induction bytes generalizing reader with
  | nil =>
    rw [show (reader.consumeLoop []).1 = reader from rfl, waiting] at ready
    cases ready
  | cons byte rest ih =>
    rw [consumeLoop_cons waiting] at ready
    by_cases last : byte.toNat < 128
    · by_cases fits : Leb128.Fits 64 reader.gotBytes [byte]
      · exact ⟨[byte], Leb128.cut_last last, fits⟩
      · have refused := (consume_last_byte waiting low last).2 fits
        rw [if_pos (by rw [refused]; decide)] at ready
        rw [refused] at ready
        cases ready
    · have next : 128 ≤ byte.toNat := not_lt.mp last
      have bound := reader.bounded waiting
      by_cases room : reader.gotBytes + 1 < 10
      · obtain ⟨needed, count, -⟩ := (consume_next_byte waiting low next).1 room
        rw [if_neg (not_not.mpr needed)] at ready
        obtain ⟨groups, found, fits⟩ := ih needed (low_next waiting low next room) ready
        rw [count] at fits
        refine ⟨byte :: groups, ?_, (Leb128.fits_more (Leb128.cut_eq_some found).1).mpr fits⟩
        rw [Leb128.cut_more next, found]
        rfl
      · have refused := (consume_next_byte waiting low next).2 (by omega)
        rw [if_pos (by rw [refused]; decide)] at ready
        rw [refused] at ready
        cases ready

section Chunks

/-- Chunk after chunk, until the prefix is complete or refused; the count is that of the bytes cut off the chunks. -/
def consumeChunks (reader : VarintPrefixReader) : List Bytes → VarintPrefixReader × VarintState × ℕ
  | [] => (reader, reader.state, 0)
  | chunk :: rest =>
    let (next, state, buffer) := reader.consumeBuffer chunk
    if state ≠ .underflow then (next, state, chunk.length - buffer.length)
    else
      let (final, state, consumed) := next.consumeChunks rest
      (final, state, chunk.length - buffer.length + consumed)

theorem consumed_le (reader : VarintPrefixReader) (bytes : Bytes) : (reader.consumeLoop bytes).2.2 ≤ bytes.length := by
  induction bytes generalizing reader with
  | nil => exact le_rfl
  | cons byte rest ih =>
    rw [consumeLoop]
    dsimp only
    split_ifs
    · exact Nat.succ_le_succ (Nat.zero_le _)
    · exact Nat.succ_le_succ (ih _)

/-- The loop over some bytes and more bytes. -/
theorem consumeLoop_append (waiting : reader.state = .underflow) :
    reader.consumeLoop (bytes ++ more) =
      if (reader.consumeLoop bytes).1.state ≠ .underflow then reader.consumeLoop bytes
      else
        (((reader.consumeLoop bytes).1.consumeLoop more).1, ((reader.consumeLoop bytes).1.consumeLoop more).2.1,
          (reader.consumeLoop bytes).2.2 + ((reader.consumeLoop bytes).1.consumeLoop more).2.2) := by
  induction bytes generalizing reader with
  | nil =>
    have stays : ¬ (reader.consumeLoop []).1.state ≠ .underflow := not_not.mpr waiting
    rw [if_neg stays]
    exact Prod.ext rfl (Prod.ext rfl (Nat.zero_add _).symm)
  | cons byte rest ih =>
    rw [List.cons_append, consumeLoop_cons waiting, consumeLoop_cons waiting]
    by_cases done : (reader.consume byte).1.state ≠ .underflow
    · rw [if_pos done, if_pos done, if_pos done]
    · rw [if_neg done, if_neg done, ih (not_not.mp done)]
      split_ifs with ended
      · rfl
      · refine Prod.ext rfl (Prod.ext rfl ?_)
        exact Nat.add_right_comm _ _ _

theorem consume_ne_error (waiting : reader.state = .underflow) : (reader.consume byte).1.state ≠ .error := by
  unfold consume
  rw [dif_pos waiting]
  dsimp only
  split_ifs <;> exact fun impossible => by cases impossible

theorem consumeLoop_ne_error (waiting : reader.state = .underflow) (bytes : Bytes) :
    (reader.consumeLoop bytes).2.1 ≠ .error := by
  rw [consumeLoop_reported waiting]
  induction bytes generalizing reader with
  | nil =>
    change reader.state ≠ .error
    rw [waiting]
    decide
  | cons byte rest ih =>
    rw [consumeLoop_cons waiting]
    split_ifs with done
    · exact consume_ne_error waiting
    · exact ih (not_not.mp done)

/-- What is cut off a buffer unless the prefix is refused. -/
theorem length_consumeBuffer (waiting : reader.state = .underflow) (buffer : Bytes)
    (kept : (reader.consumeLoop buffer).2.1 ≠ .overflow) :
    buffer.length - (reader.consumeBuffer buffer).2.2.length = (reader.consumeLoop buffer).2.2 := by
  have bound := consumed_le reader buffer
  have good : (reader.consumeLoop buffer).2.1 = .ready ∨ (reader.consumeLoop buffer).2.1 = .underflow := by
    cases state : (reader.consumeLoop buffer).2.1 with
    | underflow => exact .inr rfl
    | ready => exact .inl rfl
    | overflow => exact absurd state kept
    | error => exact absurd state (consumeLoop_ne_error waiting buffer)
  unfold consumeBuffer
  dsimp only
  split_ifs with cut
  · rw [List.length_drop]
    exact Nat.sub_sub_self bound
  · have none : ¬ 0 < (reader.consumeLoop buffer).2.2 := fun positive => cut ⟨positive, good⟩
    omega

/-- The chunks do not matter to the reader, nor to what it takes of a prefix that it does not refuse. -/
theorem consumeChunks_eq (waiting : reader.state = .underflow) (chunks : List Bytes) :
    (reader.consumeChunks chunks).1 = (reader.consumeLoop chunks.flatten).1 ∧
      (reader.consumeChunks chunks).2.1 = (reader.consumeLoop chunks.flatten).2.1 ∧
      ((reader.consumeLoop chunks.flatten).2.1 ≠ .overflow →
        (reader.consumeChunks chunks).2.2 = (reader.consumeLoop chunks.flatten).2.2) := by
  induction chunks generalizing reader with
  | nil => exact ⟨rfl, rfl, fun _ => rfl⟩
  | cons chunk rest ih =>
    have reported := consumeLoop_reported waiting chunk
    have first : (reader.consumeBuffer chunk).1 = (reader.consumeLoop chunk).1 := rfl
    have state : (reader.consumeBuffer chunk).2.1 = (reader.consumeLoop chunk).2.1 := rfl
    have cutOff := length_consumeBuffer waiting chunk
    rw [List.flatten_cons, consumeLoop_append waiting, consumeChunks]
    dsimp only
    rw [first, state, reported]
    by_cases done : (reader.consumeLoop chunk).1.state ≠ .underflow
    · rw [if_pos done, if_pos done]
      exact ⟨rfl, reported.symm, cutOff⟩
    · rw [if_neg done, if_neg done]
      have waits := not_not.mp done
      obtain ⟨same, later, count⟩ := ih waits
      refine ⟨same, later, fun kept => ?_⟩
      rw [count kept, cutOff (by rw [reported, waits]; decide)]

/-- A reader that has stopped waiting does not change any more, however much more it is given. -/
theorem foldl_consume (reader : VarintPrefixReader) (bytes : Bytes) :
    bytes.foldl (fun reader byte => (reader.consume byte).1) reader = (reader.consumeLoop bytes).1 := by
  have stopped : ∀ (bytes : Bytes) (reader : VarintPrefixReader), reader.state ≠ .underflow →
      bytes.foldl (fun reader byte => (reader.consume byte).1) reader = reader := by
    intro bytes
    induction bytes with
    | nil => exact fun _ _ => rfl
    | cons byte rest ih =>
      intro reader done
      rw [List.foldl_cons, consume_done done]
      exact ih reader done
  induction bytes generalizing reader with
  | nil => rfl
  | cons byte rest ih =>
    rw [List.foldl_cons]
    by_cases waiting : reader.state = .underflow
    · rw [consumeLoop_cons waiting]
      split_ifs with done
      · exact stopped rest _ done
      · exact ih _
    · rw [consume_done waiting, stopped rest reader waiting, consumeLoop]
      dsimp only
      have refused : (reader.consume byte).2 ≠ .underflow := by
        unfold consume
        rw [dif_neg waiting]
        split_ifs
        · exact fun impossible => by cases impossible
        · exact waiting
      rw [if_pos refused, consume_done waiting]

/-- The same whether every byte or every chunk is given to the reader. -/
theorem foldl_consumeBuffer (reader : VarintPrefixReader) (chunks : List Bytes) :
    chunks.foldl (fun reader chunk => (reader.consumeBuffer chunk).1) reader =
      chunks.flatten.foldl (fun reader byte => (reader.consume byte).1) reader := by
  induction chunks generalizing reader with
  | nil => rfl
  | cons chunk rest ih =>
    rw [List.foldl_cons, List.flatten_cons, List.foldl_append, ih, foldl_consume reader chunk]
    rfl

end Chunks

section Encodings

theorem encodeVarintLoop_spec {room value : ℕ} (roomy : value < 128 ^ room) (positive : 0 < room) (rest : Bytes) :
    Leb128.cut (encodeVarintLoop room value ++ rest) = some (encodeVarintLoop room value) ∧
      Leb128.denote (encodeVarintLoop room value) = value ∧ (encodeVarintLoop room value).length ≤ room := by
  induction room generalizing value with
  | zero => omega
  | succ room ih =>
    unfold encodeVarintLoop
    dsimp only
    rw [Nat.shiftRight_eq_div_pow, show (2 : ℕ) ^ 7 = 128 from rfl]
    split_ifs with more
    · have roomy' : value / 128 < 128 ^ room := by
        rw [pow_succ] at roomy
        exact Nat.div_lt_of_lt_mul (by rwa [mul_comm] at roomy)
      have positive' : 0 < room := by
        by_contra none
        obtain rfl : room = 0 := by omega
        rw [pow_zero] at roomy'
        omega
      obtain ⟨found, denoted, size⟩ := ih roomy' positive'
      have byte := high_byte value
      refine ⟨?_, ?_, ?_⟩
      · rw [List.cons_append, Leb128.cut_more (by rw [byte]; omega), found]
        rfl
      · rw [Leb128.denote, denoted, byte]
        omega
      · rw [List.length_cons]
        omega
    · have byte := low_byte value
      refine ⟨?_, ?_, ?_⟩
      · rw [List.singleton_append, Leb128.cut_last (by rw [byte]; omega)]
      · change (UInt8.ofNat (value &&& 0x7f)).toNat % 128 + 128 * 0 = value
        rw [byte]
        omega
      · rw [List.length_singleton]
        omega

/-- An encoding of a 64-bit number is a prefix that fits and denotes the number. -/
theorem encodeVarint_spec {value : ℕ} (small : value < 2 ^ 64) (rest : Bytes) :
    Leb128.cut (encodeVarint value ++ rest) = some (encodeVarint value) ∧
      Leb128.denote (encodeVarint value) = value ∧ Leb128.Fits 64 0 (encodeVarint value) := by
  obtain ⟨found, denoted, size⟩ := encodeVarintLoop_spec (small.trans (by decide : 2 ^ 64 < 128 ^ 10)) (by decide) rest
  refine ⟨found, denoted, ?_, ?_⟩
  · change 7 * (0 + (encodeVarintLoop 10 value).length) < 64 + 7
    omega
  · change Leb128.denote (encodeVarintLoop 10 value) * 128 ^ 0 < 2 ^ 64
    rw [denoted, pow_zero, mul_one]
    exact small

/-- A fresh reader takes exactly the encoding of a 64-bit value and then holds that value. -/
theorem accepts_encodeVarint {value : ℕ} (fits : value < 2 ^ 64) : Accepts {} (encodeVarint value) value := by
  obtain ⟨found, denoted, within⟩ := encodeVarint_spec fits []
  rw [List.append_nil] at found
  have accepted := @accepts_of_fits {} _ rfl (show 0 < 128 ^ 0 by decide) _ found within
  rw [denoted] at accepted
  simpa using accepted

/-- What is encoded again is what was read when this is shortest. -/
theorem encodeVarintLoop_denote {room : ℕ} {groups : Bytes} (found : Leb128.cut bytes = some groups)
    (roomy : groups.length ≤ room) :
    encodeVarintLoop room (Leb128.denote groups) = groups ↔ Leb128.Shortest groups := by
  induction bytes generalizing room groups with
  | nil => cases found
  | cons byte tail ih =>
    have positive : 0 < groups.length := List.length_pos_iff.mpr (Leb128.cut_eq_some found).1
    obtain ⟨less, rfl⟩ := Nat.exists_eq_add_of_le' (show 1 ≤ room by omega)
    unfold encodeVarintLoop
    dsimp only
    rw [Nat.shiftRight_eq_div_pow, show (2 : ℕ) ^ 7 = 128 from rfl]
    by_cases last : byte.toNat < 128
    · rw [Leb128.cut_last last] at found
      obtain rfl := Option.some.inj found
      have number : Leb128.denote [byte] = byte.toNat := Nat.mod_eq_of_lt last
      have same : UInt8.ofNat (byte.toNat &&& 0x7f) = byte := by
        apply UInt8.toNat_inj.mp
        rw [low_byte, Nat.mod_eq_of_lt last]
      rw [number, Nat.div_eq_of_lt last, if_neg (not_not.mpr rfl), same]
      exact iff_of_true rfl Leb128.shortest_singleton
    · rw [Leb128.cut_more (not_lt.mp last)] at found
      obtain ⟨first, earlier, rfl⟩ := Option.map_eq_some_iff.mp found
      rw [List.length_cons] at roomy
      have split : Leb128.denote (byte :: first) / 128 = Leb128.denote first := by
        rw [Leb128.denote]
        omega
      have same : UInt8.ofNat (Leb128.denote (byte :: first) &&& 0x7f) ||| 0x80 = byte := by
        have bound := byte.toNat_lt
        apply UInt8.toNat_inj.mp
        rw [high_byte, Leb128.denote]
        omega
      rw [split, same, Leb128.shortest_more earlier, ← ih earlier (show first.length ≤ less by omega)]
      split_ifs with more
      · rw [List.cons.injEq, and_iff_right rfl, and_iff_left more]
      · refine iff_of_false ?_ (fun shortest => more shortest.2)
        intro single
        exact (Leb128.cut_eq_some earlier).1 (List.cons.inj single).2.symm

theorem encodeVarint_denote {groups : Bytes} (found : Leb128.cut bytes = some groups) (fits : Leb128.Fits 64 0 groups) :
    encodeVarint (Leb128.denote groups) = groups ↔ Leb128.Shortest groups := by
  have starts := fits.starts
  exact encodeVarintLoop_denote found (by omega)

/-- No encoding is longer than what denotes its number. -/
theorem length_encodeVarintLoop_denote {room : ℕ} {groups : Bytes} (found : Leb128.cut bytes = some groups) :
    (encodeVarintLoop room (Leb128.denote groups)).length ≤ groups.length := by
  induction bytes generalizing room groups with
  | nil => cases found
  | cons byte tail ih =>
    have positive : 0 < groups.length := List.length_pos_iff.mpr (Leb128.cut_eq_some found).1
    rcases room with _ | room
    · exact Nat.zero_le _
    · unfold encodeVarintLoop
      dsimp only
      rw [Nat.shiftRight_eq_div_pow, show (2 : ℕ) ^ 7 = 128 from rfl]
      split_ifs with more
      · by_cases last : byte.toNat < 128
        · rw [Leb128.cut_last last] at found
          obtain rfl := Option.some.inj found
          rw [show Leb128.denote [byte] = byte.toNat from Nat.mod_eq_of_lt last] at more
          omega
        · rw [Leb128.cut_more (not_lt.mp last)] at found
          obtain ⟨first, earlier, rfl⟩ := Option.map_eq_some_iff.mp found
          have split : Leb128.denote (byte :: first) / 128 = Leb128.denote first := by
            rw [Leb128.denote]
            omega
          rw [split, List.length_cons, List.length_cons]
          exact Nat.succ_le_succ (ih earlier)
      · rw [List.length_singleton]
        exact positive

theorem low_fresh : Low {} := (by decide : 0 < 128 ^ 0)

/-- A fresh reader takes an encoding off a buffer. -/
theorem consumeBuffer_encodeVarint {value : ℕ} (small : value < 2 ^ 64) (rest : Bytes) :
    ∃ reader, ({} : VarintPrefixReader).consumeBuffer (encodeVarint value ++ rest) = (reader, .ready, rest) ∧
      reader.value = value := by
  obtain ⟨found, denoted, fits⟩ := encodeVarint_spec small rest
  obtain ⟨ready, consumed, -, number⟩ := consumeLoop_of_fits rfl low_fresh found fits
  have reported := @consumeLoop_reported {} rfl (encodeVarint value ++ rest)
  have positive : 0 < (encodeVarint value).length := List.length_pos_iff.mpr (Leb128.cut_eq_some found).1
  refine ⟨_, ?_, number.trans ?_⟩
  · unfold consumeBuffer
    dsimp only
    rw [reported, ready, consumed, if_pos ⟨positive, .inl rfl⟩, List.drop_left]
  · change 0 + Leb128.denote (encodeVarint value) * 128 ^ 0 = value
    rw [denoted]
    omega

end Encodings

end VarintPrefixReader

end Libp2p
