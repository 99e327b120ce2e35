import Mathlib.Data.List.Basic
import Mathlib.Tactic.Common
import Mathlib.Tactic.Positivity
import Mathlib.Tactic.Ring

/-! # Unsigned LEB128 prefixes

`encodeVarint` is the loop that every encoder of the code base shares: seven bits per byte, least
significant group first, the high bit set on every byte but the last. `VarintPrefixReader` is the
stateful decoder, one byte at a time, with its refusal of an eleventh byte and of a tenth byte that
would not fit 64 bits. The reader carries the bound on the bytes it has accepted, which is what
makes a loop that reads until the prefix ends terminate.
-/

namespace Libp2p

abbrev Bytes := List UInt8

instance instLawfulBEqBytes : LawfulBEq Bytes := inferInstance

/-- One encoder iteration per unit of `room`; a 64-bit value needs at most ten. -/
def encodeVarintLoop : ℕ → ℕ → Bytes
  | 0, _ => []
  | room + 1, value =>
    let byte := UInt8.ofNat (value &&& 0x7f)
    let next := value >>> 7
    if next ≠ 0 then (byte ||| 0x80) :: encodeVarintLoop room next else [byte]

/-- The bytes of `EncodeVarint`, `UVarint` and the `appendVarint` helpers for a 64-bit value. -/
def encodeVarint (value : ℕ) : Bytes := encodeVarintLoop 10 value

theorem UInt8.and_high_eq_zero (byte : UInt8) : byte &&& 0x80 = 0 ↔ byte.toNat < 128 := by
  have table : ∀ index : Fin 256, UInt8.ofNat index.val &&& 0x80 = 0 ↔ index.val < 128 := by decide +kernel
  simpa using table ⟨byte.toNat, byte.toNat_lt⟩

theorem UInt8.and_low_toNat (byte : UInt8) : (byte &&& 0x7f).toNat = byte.toNat % 128 := by
  rw [UInt8.toNat_and]
  exact Nat.and_two_pow_sub_one_eq_mod byte.toNat 7

theorem low_byte (value : ℕ) : (UInt8.ofNat (value &&& 0x7f)).toNat = value % 128 := by
  rw [UInt8.toNat_ofNat', show (0x7f : ℕ) = 2 ^ 7 - 1 from rfl, Nat.and_two_pow_sub_one_eq_mod]
  omega

theorem high_byte (value : ℕ) :
    (UInt8.ofNat (value &&& 0x7f) ||| 0x80).toNat = value % 128 + 128 := by
  have table : ∀ index : Fin 128, (UInt8.ofNat index.val ||| 0x80).toNat = index.val + 128 := by decide
  have small : value % 128 < 128 := Nat.mod_lt _ (by decide)
  rw [show (0x7f : ℕ) = 2 ^ 7 - 1 from rfl, Nat.and_two_pow_sub_one_eq_mod]
  exact table ⟨value % 128, small⟩

inductive VarintState where
  | underflow
  | ready
  | overflow
  | error
deriving DecidableEq, Repr

theorem bounded_fresh : VarintState.underflow = .underflow → 0 < 10 := fun _ => Nat.succ_pos 9

/-- The decoder state; while more bytes are needed fewer than ten have been accepted. -/
structure VarintPrefixReader where
  value : ℕ := 0
  state : VarintState := .underflow
  gotBytes : ℕ := 0
  bounded : state = .underflow → gotBytes < 10 := by first | exact bounded_fresh | decide

namespace VarintPrefixReader

/-- `consume(uint8_t)`: the next reader and the state it reports. -/
def consume (reader : VarintPrefixReader) (byte : UInt8) : VarintPrefixReader × VarintState :=
  if waiting : reader.state = .underflow then
    let nextByteNeeded := byte &&& 0x80 ≠ 0
    let slice := (byte &&& 0x7f).toNat
    let got := reader.gotBytes + 1
    if last : got = 10 ∧ (slice > 1 ∨ nextByteNeeded) then
      ({ reader with state := .overflow, gotBytes := got, bounded := nofun }, .overflow)
    else
      let value := (reader.value + (slice <<< (7 * (got - 1))) % 2 ^ 64) % 2 ^ 64
      if needed : nextByteNeeded then
        ({ value, state := .underflow, gotBytes := got
           bounded := fun _ => by have := reader.bounded waiting; grind }, .underflow)
      else ({ value, state := .ready, gotBytes := got, bounded := nofun }, .ready)
  else if reader.state = .ready then (reader, .error)
  else (reader, reader.state)

/-- The loop of `consume(BytesIn &)`: the reader, the state reported and the bytes it looked at. -/
def consumeLoop (reader : VarintPrefixReader) : Bytes → VarintPrefixReader × VarintState × ℕ
  | [] => (reader, reader.state, 0)
  | byte :: rest =>
    let (next, state) := reader.consume byte
    if state ≠ .underflow then (next, state, 1)
    else
      let (final, state, consumed) := next.consumeLoop rest
      (final, state, consumed + 1)

/-- `consume(BytesIn &)`: the buffer advances past the prefix unless the prefix is refused. -/
def consumeBuffer (reader : VarintPrefixReader) (buffer : Bytes) :
    VarintPrefixReader × VarintState × Bytes :=
  let (final, state, consumed) := reader.consumeLoop buffer
  (final, state, if 0 < consumed ∧ (state = .ready ∨ state = .underflow) then buffer.drop consumed else buffer)

/-- The reader takes exactly these bytes and then holds `value`. -/
inductive Accepts : VarintPrefixReader → Bytes → ℕ → Prop
  | last {reader : VarintPrefixReader} {byte : UInt8} (waiting : reader.state = .underflow)
      (ready : (reader.consume byte).1.state = .ready) :
      Accepts reader [byte] (reader.consume byte).1.value
  | more {reader : VarintPrefixReader} {byte : UInt8} {rest : Bytes} {value : ℕ}
      (waiting : reader.state = .underflow) (needed : (reader.consume byte).1.state = .underflow)
      (tail : Accepts (reader.consume byte).1 rest value) : Accepts reader (byte :: rest) value

theorem Accepts.waiting {reader : VarintPrefixReader} {bytes : Bytes} {value : ℕ}
    (accepts : Accepts reader bytes value) : reader.state = .underflow := by
  cases accepts with
  | last waiting _ => exact waiting
  | more waiting _ _ => exact waiting

end VarintPrefixReader

end Libp2p
