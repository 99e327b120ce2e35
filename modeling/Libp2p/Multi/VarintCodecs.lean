import Libp2p.Basic.PrefixReader
import Libp2p.Multi.Values
import Libp2p.ProtocolMuxer.Multiselect

/-! # The varint codecs side by side

Four encoders write the groups of a number with loops of their own, and `UVarint` reads them with other checks than the
prefix reader: it shifts a group and back again to see whether it still fits, where the reader looks at the tenth byte.
-/

namespace Libp2p

open Library

/-- The encoder with a buffer of fixed size. -/
structure EncodeVarint where
  size : ℕ := 0
  buffer : Bytes := List.replicate 10 0

namespace EncodeVarint

/-- The loop of the constructor; a 64-bit value needs at most ten turns. -/
def loop : ℕ → UInt64 → EncodeVarint → EncodeVarint
  | 0, _, encoded => encoded
  | room + 1, value, encoded =>
    let byte := value.toUInt8 &&& 0x7f
    let value := value >>> 7
    let byte := if value ≠ 0 then byte ||| 0x80 else byte
    let encoded := { size := encoded.size + 1, buffer := encoded.buffer.set encoded.size byte }
    if value ≠ 0 then loop room value encoded else encoded

def ofValue (value : UInt64) : EncodeVarint := loop 10 value {}

def toBytes (encoded : EncodeVarint) : Bytes := encoded.buffer.take encoded.size

end EncodeVarint

namespace Multi.UVarint

def ofNumberLoop : ℕ → UInt64 → Bytes → Bytes
  | 0, _, bytes => bytes
  | room + 1, number, bytes =>
    let byte := number.toUInt8 &&& 0x7f
    let number := number >>> 7
    let byte := if number ≠ 0 then byte ||| 0x80 else byte
    if number ≠ 0 then ofNumberLoop room number (bytes ++ [byte]) else bytes ++ [byte]

/-- `UVarint(uint64_t)`: the bytes that it stores. -/
def ofNumber (number : UInt64) : Bytes := ofNumberLoop 10 number []

end Multi.UVarint

namespace Multihash

def appendVarintLoop : ℕ → UInt64 → Bytes → Bytes
  | 0, _, buffer => buffer
  | room + 1, t, buffer =>
    let byte := (t &&& 0x7f).toUInt8
    let t := t >>> 7
    let byte := if t ≠ 0 then byte ||| 0x80 else byte
    if t > 0 then appendVarintLoop room t (buffer ++ [byte]) else buffer ++ [byte]

def appendVarint (buffer : Bytes) (t : UInt64) : Bytes := appendVarintLoop 10 t buffer

end Multihash

namespace Multiselect.Detail

def appendVarintLoop : ℕ → UInt64 → Bytes → Bytes
  | 0, _, buffer => buffer
  | room + 1, size, buffer =>
    let byte := (size &&& 0x7f).toUInt8
    let size := size >>> 7
    let byte := if size ≠ 0 then byte ||| 0x80 else byte
    if size > 0 then appendVarintLoop room size (buffer ++ [byte]) else buffer ++ [byte]

def appendVarint (buffer : Bytes) (size : UInt64) : Bytes := appendVarintLoop 10 size buffer

end Multiselect.Detail

section Encoders

variable {room : ℕ} {value : UInt64} {bytes : Bytes}

theorem toNat_shift (value : UInt64) : (value >>> 7).toNat = value.toNat >>> 7 := by
  rw [UInt64.toNat_shiftRight]
  rfl

theorem shift_ne_zero (value : UInt64) : value >>> 7 ≠ 0 ↔ value.toNat >>> 7 ≠ 0 := by
  rw [← toNat_shift, Ne, Ne, ← UInt64.toNat_inj]
  rfl

theorem shift_pos (value : UInt64) : value >>> 7 > 0 ↔ value.toNat >>> 7 ≠ 0 := by
  rw [← toNat_shift, gt_iff_lt, UInt64.lt_iff_toNat_lt]
  exact Nat.pos_iff_ne_zero

theorem cast_low (value : UInt64) : value.toUInt8 &&& 0x7f = UInt8.ofNat (value.toNat &&& 0x7f) := by
  apply UInt8.toNat_inj.mp
  rw [UInt8.and_low_toNat, low_byte, UInt64.toNat_toUInt8]
  omega

theorem low_cast (value : UInt64) : (value &&& 0x7f).toUInt8 = UInt8.ofNat (value.toNat &&& 0x7f) := by
  apply UInt8.toNat_inj.mp
  rw [UInt64.toNat_toUInt8, UInt64.toNat_and, low_byte]
  rw [show (0x7f : UInt64).toNat = 2 ^ 7 - 1 from rfl, Nat.and_two_pow_sub_one_eq_mod]
  omega

theorem ofNumberLoop_eq : Multi.UVarint.ofNumberLoop room value bytes = bytes ++ encodeVarintLoop room value.toNat := by
  induction room generalizing value bytes with
  | zero => exact (List.append_nil bytes).symm
  | succ room ih =>
    unfold Multi.UVarint.ofNumberLoop encodeVarintLoop
    dsimp only
    simp only [shift_ne_zero, cast_low]
    split_ifs
    · rw [ih, List.append_assoc, List.singleton_append, toNat_shift]
    · rfl

theorem multihash_appendVarintLoop_eq :
    Multihash.appendVarintLoop room value bytes = bytes ++ encodeVarintLoop room value.toNat := by
  induction room generalizing value bytes with
  | zero => exact (List.append_nil bytes).symm
  | succ room ih =>
    unfold Multihash.appendVarintLoop encodeVarintLoop
    dsimp only
    simp only [shift_ne_zero, shift_pos, low_cast]
    split_ifs
    · rw [ih, List.append_assoc, List.singleton_append, toNat_shift]
    · rfl

theorem multiselect_appendVarintLoop_eq :
    Multiselect.Detail.appendVarintLoop room value bytes = bytes ++ encodeVarintLoop room value.toNat := by
  induction room generalizing value bytes with
  | zero => exact (List.append_nil bytes).symm
  | succ room ih =>
    unfold Multiselect.Detail.appendVarintLoop encodeVarintLoop
    dsimp only
    simp only [shift_ne_zero, shift_pos, low_cast]
    split_ifs
    · rw [ih, List.append_assoc, List.singleton_append, toNat_shift]
    · rfl

/-- The encoder with a buffer writes where the bytes so far end. -/
theorem encodeVarint_loop_eq {encoded : EncodeVarint} (space : encoded.size + room ≤ encoded.buffer.length) :
    (EncodeVarint.loop room value encoded).toBytes = encoded.toBytes ++ encodeVarintLoop room value.toNat := by
  induction room generalizing value encoded with
  | zero => exact (List.append_nil encoded.toBytes).symm
  | succ room ih =>
    have written (byte : UInt8) : (encoded.buffer.set encoded.size byte).take (encoded.size + 1) =
        encoded.buffer.take encoded.size ++ [byte] := by
      rw [List.take_add_one, List.take_set_of_le le_rfl, List.getElem?_set_self (by omega)]
      rfl
    unfold EncodeVarint.loop encodeVarintLoop
    dsimp only
    simp only [shift_ne_zero, cast_low]
    split_ifs
    · rw [ih (by rw [List.length_set]; dsimp only; omega), EncodeVarint.toBytes, written, List.append_assoc,
        List.singleton_append, toNat_shift]
      rfl
    · exact written _

end Encoders

namespace Multi.UVarint

theorem ofNumber_eq (number : UInt64) : ofNumber number = encodeVarint number.toNat := ofNumberLoop_eq

end Multi.UVarint

namespace VarintPrefixReader

variable {reader : VarintPrefixReader} {bytes groups : Bytes} {size : ℕ}

/-- A fresh reader takes a prefix that fits. -/
theorem consumeLoop_prefix (found : Leb128.cut bytes = some groups) (fits : Leb128.Fits 64 0 groups) :
    ∃ reader, ({} : VarintPrefixReader).consumeLoop bytes = (reader, .ready, groups.length) ∧
      reader.value = Leb128.denote groups := by
  have reported := @consumeLoop_reported {} rfl bytes
  obtain ⟨ready, consumed, -, number⟩ := @consumeLoop_of_fits {} bytes rfl low_fresh groups found fits
  refine ⟨_, Prod.ext rfl (Prod.ext (reported.trans ready) consumed), number.trans ?_⟩
  change 0 + Leb128.denote groups * 128 ^ 0 = _
  rw [pow_zero, mul_one, Nat.zero_add]

/-- What a fresh reader takes is a prefix that fits. -/
theorem prefix_of_consumeLoop (looped : ({} : VarintPrefixReader).consumeLoop bytes = (reader, .ready, size)) :
    ∃ groups, Leb128.cut bytes = some groups ∧ Leb128.Fits 64 0 groups ∧ size = groups.length ∧
      reader.value = Leb128.denote groups := by
  have reported := @consumeLoop_reported {} rfl bytes
  rw [looped] at reported
  obtain ⟨groups, found, fits⟩ := @fits_of_consumeLoop {} bytes rfl low_fresh (by rw [looped]; exact reported.symm)
  obtain ⟨other, again, number⟩ := consumeLoop_prefix found fits
  obtain ⟨same, later⟩ := Prod.mk.inj (looped.symm.trans again)
  exact ⟨groups, found, fits, (Prod.mk.inj later).2, by rw [same, number]⟩

end VarintPrefixReader

/-- All encoders write the same bytes, it does not matter how bytes are cut into chunks, both decoders accept the same
prefixes with the same results, they read back what was written, and nothing wraps around. -/
theorem varint_codecs_agree :
    (∀ (number : UInt64) (buffer : Bytes),
      (EncodeVarint.ofValue number).toBytes = Multi.UVarint.ofNumber number ∧
      Multihash.appendVarint buffer number = buffer ++ Multi.UVarint.ofNumber number ∧
      Multiselect.Detail.appendVarint buffer number = buffer ++ Multi.UVarint.ofNumber number) ∧
    (∀ chunks : List Bytes,
      let bytewise := ({} : VarintPrefixReader).consumeLoop chunks.flatten
      let chunkwise := ({} : VarintPrefixReader).consumeChunks chunks
      chunkwise.1 = bytewise.1 ∧ chunkwise.2.1 = bytewise.2.1 ∧
        (bytewise.2.1 ≠ .overflow → chunkwise.2.2 = bytewise.2.2) ∧
        chunks.foldl (fun reader chunk => (reader.consumeBuffer chunk).1) {} = bytewise.1 ∧
        chunks.flatten.foldl (fun reader byte => (reader.consume byte).1) {} = bytewise.1) ∧
    (∀ (bytes : Bytes) (size value : ℕ),
      (∃ reader, ({} : VarintPrefixReader).consumeLoop bytes = (reader, .ready, size) ∧ reader.value = value) ↔
        ∃ var, Multi.UVarint.create bytes = some var ∧ var.length = size ∧ Multi.UVarint.toUInt64 var = value) ∧
    (∀ (number : UInt64) (rest : Bytes),
      let encoding := Multi.UVarint.ofNumber number
      Multi.UVarint.create (encoding ++ rest) = some encoding ∧ Multi.UVarint.toUInt64 encoding = number.toNat ∧
        ∃ reader, ({} : VarintPrefixReader).consumeLoop (encoding ++ rest) = (reader, .ready, encoding.length) ∧
          reader.value = number.toNat) ∧
    (∀ bytes var, Multi.UVarint.create bytes = some var →
      Leb128.denote var < 2 ^ 64 ∧ Multi.UVarint.toUInt64 var = Leb128.denote var) ∧
    (∀ bytes reader size, ({} : VarintPrefixReader).consumeLoop bytes = (reader, .ready, size) →
      Leb128.denote (bytes.take size) < 2 ^ 64 ∧ reader.value = Leb128.denote (bytes.take size)) := by
  have bound {groups : Bytes} (fits : Leb128.Fits 64 0 groups) : Leb128.denote groups < 2 ^ 64 := by
    have small := fits.value
    rwa [pow_zero, mul_one] at small
  refine ⟨fun number buffer => ⟨?_, ?_, ?_⟩, fun chunks => ?_, fun bytes size value => ?_, fun number rest => ?_, ?_, ?_⟩
  · rw [Multi.UVarint.ofNumber_eq]
    exact encodeVarint_loop_eq (le_refl 10)
  · rw [Multi.UVarint.ofNumber_eq]
    exact multihash_appendVarintLoop_eq
  · rw [Multi.UVarint.ofNumber_eq]
    exact multiselect_appendVarintLoop_eq
  · obtain ⟨same, state, count⟩ := @VarintPrefixReader.consumeChunks_eq {} rfl chunks
    have bytewise := VarintPrefixReader.foldl_consume {} chunks.flatten
    exact ⟨same, state, count, (VarintPrefixReader.foldl_consumeBuffer {} chunks).trans bytewise, bytewise⟩
  · constructor
    · rintro ⟨reader, looped, rfl⟩
      obtain ⟨groups, found, fits, rfl, number⟩ := VarintPrefixReader.prefix_of_consumeLoop looped
      refine ⟨groups, Multi.UVarint.create_eq_some.mpr ⟨found, fits⟩, rfl, ?_⟩
      rw [Multi.UVarint.toUInt64_eq fits, number]
    · rintro ⟨groups, created, rfl, rfl⟩
      obtain ⟨found, fits⟩ := Multi.UVarint.create_eq_some.mp created
      rw [Multi.UVarint.toUInt64_eq fits]
      exact VarintPrefixReader.consumeLoop_prefix found fits
  · have small : number.toNat < 2 ^ 64 := number.toNat_lt
    obtain ⟨found, denoted, fits⟩ := VarintPrefixReader.encodeVarint_spec small rest
    obtain ⟨reader, looped, value⟩ := VarintPrefixReader.consumeLoop_prefix found fits
    dsimp only
    rw [Multi.UVarint.ofNumber_eq]
    refine ⟨Multi.UVarint.create_eq_some.mpr ⟨found, fits⟩, ?_, reader, looped, value.trans denoted⟩
    rw [Multi.UVarint.toUInt64_eq fits, denoted]
  · intro bytes var created
    obtain ⟨-, fits⟩ := Multi.UVarint.create_eq_some.mp created
    exact ⟨bound fits, Multi.UVarint.toUInt64_eq fits⟩
  · intro bytes reader size looped
    obtain ⟨groups, found, fits, rfl, number⟩ := VarintPrefixReader.prefix_of_consumeLoop looped
    obtain ⟨-, rest, rfl⟩ := Leb128.cut_eq_some found
    rw [List.take_left]
    exact ⟨bound fits, number⟩

end Libp2p
