import Libp2p.Library.Groups
import Libp2p.Multi.Base58

/-! # Base32

Five bytes are written as eight characters of five bits each. A shorter group at the end is written without padding: it
ends with the character that has its last bits. Reading such a group fills the bytes up to the one whose bits are
incomplete and drops that one.
-/

namespace Libp2p.Multi

open Library

inductive BaseError where
  | invalidBase58Input
  | invalidBase64Input
  | invalidBase32Input
  | nonUppercaseInput
  | nonLowercaseInput
deriving DecidableEq, Repr

namespace Base32

def kUpperBase32Alphabet : Bytes := ascii "ABCDEFGHIJKLMNOPQRSTUVWXYZ234567"

def kLowerBase32Alphabet : Bytes := ascii "abcdefghijklmnopqrstuvwxyz234567"

inductive Base32Mode where
  | lower
  | upper
deriving DecidableEq, Repr

def getByte (block : ℕ) : ℕ := block * 5 / 8

def getBit (block : ℕ) : ℤ := 8 - 5 - (block * 5 % 8 : ℕ)

def alphabet : Base32Mode → Bytes
  | .upper => kUpperBase32Alphabet
  | .lower => kLowerBase32Alphabet

def encodeChar (c : UInt8) (mode : Base32Mode) : UInt8 := (alphabet mode).getD (c &&& 0x1f).toNat 0

def shiftRight (byte : UInt8) (offset : ℤ) : UInt8 :=
  if offset > 0 then byte >>> UInt8.ofNat offset.toNat else byte <<< UInt8.ofNat (-offset).toNat

def shiftLeft (byte : UInt8) (offset : ℤ) : UInt8 := shiftRight byte (-offset)

/-- The bits of a block, with what was taken of the next byte. -/
def blockBits (plain : Bytes) (block : ℕ) : UInt8 :=
  let byte := getByte block
  let bit := getBit block
  let c := shiftRight (plain.getD byte 0) bit
  if bit < 0 ∧ byte < plain.length - 1 then c ||| shiftRight (plain.getD (byte + 1) 0) (8 + bit) else c

/-- The loop of `encode_sequence` over `left` more blocks. -/
def encodeBlocks (mode : Base32Mode) (plain : Bytes) : ℕ → ℕ → Bytes
  | 0, _ => []
  | left + 1, block =>
    if getByte block ≥ plain.length then []
    else encodeChar (blockBits plain block) mode :: encodeBlocks mode plain left (block + 1)

def encodeSequence (mode : Base32Mode) (plain : Bytes) : Bytes := encodeBlocks mode plain 8 0

def encodeBase32 (mode : Base32Mode) (bytes : Bytes) : Bytes := (groups 5 bytes).flatMap (encodeSequence mode)

def encodeBase32Upper (bytes : Bytes) : Bytes := encodeBase32 .upper bytes

def encodeBase32Lower (bytes : Bytes) : Bytes := encodeBase32 .lower bytes

/-- A negative number in the source is `none`. -/
def decodeChar (c : UInt8) (mode : Base32Mode) : Option UInt8 :=
  if 0x32 ≤ c ∧ c ≤ 0x37 then some (c - 0x32 + 26)
  else
    match mode with
    | .upper => if 0x41 ≤ c ∧ c ≤ 0x5a then some (c - 0x41) else none
    | .lower => if 0x61 ≤ c ∧ c ≤ 0x7a then some (c - 0x61) else none

/-- Put the bits of a block into the bytes. -/
def putBits (plain : Bytes) (block : ℕ) (c : UInt8) : Bytes :=
  let bit := getBit block
  let byte := getByte block
  let plain := plain.set byte (plain.getD byte 0 ||| shiftLeft c bit)
  if bit < 0 then plain.set (byte + 1) (shiftLeft c (8 + bit)) else plain

/-- The loop of `decode_sequence` over `left` more blocks. -/
def decodeBlocks (mode : Base32Mode) : ℕ → ℕ → Bytes → Bytes → Except BaseError Bytes
  | 0, _, _, plain => .ok (plain.take 5)
  | _ + 1, block, [], plain => .ok (plain.take (getByte block))
  | left + 1, block, character :: coded, plain =>
    match decodeChar character mode with
    | none => .error .invalidBase32Input
    | some c => decodeBlocks mode left (block + 1) coded (putBits plain block c)

def decodeSequence (mode : Base32Mode) (coded : Bytes) : Except BaseError Bytes :=
  decodeBlocks mode 8 0 coded (List.replicate 5 0)

def decodeBase32 (mode : Base32Mode) (text : Bytes) : Except BaseError Bytes :=
  ((groups 8 text).mapM (decodeSequence mode)).map List.flatten

def decodeBase32Upper (text : Bytes) : Except BaseError Bytes := decodeBase32 .upper text

def decodeBase32Lower (text : Bytes) : Except BaseError Bytes := decodeBase32 .lower text

variable {mode : Base32Mode}

@[simp] theorem decodeChar_encodeChar (c : UInt8) : decodeChar (encodeChar c mode) mode = some (c &&& 0x1f) := by
  have table : ∀ mode, ∀ index : Fin 32,
      decodeChar ((alphabet mode).getD index.val 0) mode = some (UInt8.ofNat index.val) := by
    intro mode
    cases mode <;> decide +kernel
  have small : (c &&& 0x1f).toNat < 32 := by
    rw [UInt8.toNat_and]
    exact Nat.and_lt_two_pow _ (by decide : (0x1f : UInt8).toNat < 2 ^ 5)
  have entry := table mode ⟨_, small⟩
  rwa [UInt8.ofNat_toNat] at entry

section Bits

/-! The bits that a byte is put together from: those of its characters, which hold five bits each. -/

variable (b0 b1 b2 b3 b4 : UInt8)

theorem byte_zero : ((0 : UInt8) ||| (b0 >>> 3 &&& 0x1f) <<< 3) ||| ((b0 <<< 2 ||| b1 >>> 6) &&& 0x1f) >>> 2 = b0 := by
  apply UInt8.eq_of_toBitVec_eq
  apply BitVec.eq_of_getLsbD_eq
  intro i bound
  interval_cases i <;> simp

theorem byte_one : (((b0 <<< 2 ||| b1 >>> 6) &&& 0x1f) <<< 6 ||| (b1 >>> 1 &&& 0x1f) <<< 1) |||
    ((b1 <<< 4 ||| b2 >>> 4) &&& 0x1f) >>> 4 = b1 := by
  apply UInt8.eq_of_toBitVec_eq
  apply BitVec.eq_of_getLsbD_eq
  intro i bound
  interval_cases i <;> simp

theorem byte_two : ((b1 <<< 4 ||| b2 >>> 4) &&& 0x1f) <<< 4 ||| ((b2 <<< 1 ||| b3 >>> 7) &&& 0x1f) >>> 1 = b2 := by
  apply UInt8.eq_of_toBitVec_eq
  apply BitVec.eq_of_getLsbD_eq
  intro i bound
  interval_cases i <;> simp

theorem byte_three : (((b2 <<< 1 ||| b3 >>> 7) &&& 0x1f) <<< 7 ||| (b3 >>> 2 &&& 0x1f) <<< 2) |||
    ((b3 <<< 3 ||| b4 >>> 5) &&& 0x1f) >>> 3 = b3 := by
  apply UInt8.eq_of_toBitVec_eq
  apply BitVec.eq_of_getLsbD_eq
  intro i bound
  interval_cases i <;> simp

theorem byte_four : ((b3 <<< 3 ||| b4 >>> 5) &&& 0x1f) <<< 5 ||| (b4 <<< 0 &&& 0x1f) <<< 0 = b4 := by
  apply UInt8.eq_of_toBitVec_eq
  apply BitVec.eq_of_getLsbD_eq
  intro i bound
  interval_cases i <;> simp

end Bits

section Groups

theorem decodeBlocks_encodeChar (left block : ℕ) (c : UInt8) (coded plain : Bytes) :
    decodeBlocks mode (left + 1) block (encodeChar c mode :: coded) plain =
      decodeBlocks mode left (block + 1) coded (putBits plain block (c &&& 0x1f)) := by
  rw [decodeBlocks, decodeChar_encodeChar]

/-- The characters of a group; the last one of a short group has zeros in place of the bits of the next byte. -/
theorem encodeSequence_eq (b0 b1 b2 b3 b4 : UInt8) :
    encodeSequence mode [b0] = [encodeChar (b0 >>> 3) mode, encodeChar (b0 <<< 2 ||| (0 : UInt8) >>> 6) mode] ∧
    encodeSequence mode [b0, b1] =
      [encodeChar (b0 >>> 3) mode, encodeChar (b0 <<< 2 ||| b1 >>> 6) mode, encodeChar (b1 >>> 1) mode,
        encodeChar (b1 <<< 4 ||| (0 : UInt8) >>> 4) mode] ∧
    encodeSequence mode [b0, b1, b2] =
      [encodeChar (b0 >>> 3) mode, encodeChar (b0 <<< 2 ||| b1 >>> 6) mode, encodeChar (b1 >>> 1) mode,
        encodeChar (b1 <<< 4 ||| b2 >>> 4) mode, encodeChar (b2 <<< 1 ||| (0 : UInt8) >>> 7) mode] ∧
    encodeSequence mode [b0, b1, b2, b3] =
      [encodeChar (b0 >>> 3) mode, encodeChar (b0 <<< 2 ||| b1 >>> 6) mode, encodeChar (b1 >>> 1) mode,
        encodeChar (b1 <<< 4 ||| b2 >>> 4) mode, encodeChar (b2 <<< 1 ||| b3 >>> 7) mode,
        encodeChar (b3 >>> 2) mode, encodeChar (b3 <<< 3 ||| (0 : UInt8) >>> 5) mode] ∧
    encodeSequence mode [b0, b1, b2, b3, b4] =
      [encodeChar (b0 >>> 3) mode, encodeChar (b0 <<< 2 ||| b1 >>> 6) mode, encodeChar (b1 >>> 1) mode,
        encodeChar (b1 <<< 4 ||| b2 >>> 4) mode, encodeChar (b2 <<< 1 ||| b3 >>> 7) mode,
        encodeChar (b3 >>> 2) mode, encodeChar (b3 <<< 3 ||| b4 >>> 5) mode, encodeChar (b4 <<< 0) mode] := by
  have zeros : (0 : UInt8) >>> 6 = 0 ∧ (0 : UInt8) >>> 4 = 0 ∧ (0 : UInt8) >>> 7 = 0 ∧ (0 : UInt8) >>> 5 = 0 := by decide
  rw [zeros.1, zeros.2.1, zeros.2.2.1, zeros.2.2.2]
  simp only [UInt8.or_zero]
  exact ⟨rfl, rfl, rfl, rfl, rfl⟩

/-- A group has one to five bytes. -/
theorem group_cases {motive : ∀ group : Bytes, group ≠ [] → group.length ≤ 5 → Prop}
    (one : ∀ b0, motive [b0] (List.cons_ne_nil _ _) (by simp))
    (two : ∀ b0 b1, motive [b0, b1] (List.cons_ne_nil _ _) (by simp))
    (three : ∀ b0 b1 b2, motive [b0, b1, b2] (List.cons_ne_nil _ _) (by simp))
    (four : ∀ b0 b1 b2 b3, motive [b0, b1, b2, b3] (List.cons_ne_nil _ _) (by simp))
    (five : ∀ b0 b1 b2 b3 b4, motive [b0, b1, b2, b3, b4] (List.cons_ne_nil _ _) (by simp))
    (group : Bytes) (nonempty : group ≠ []) (bound : group.length ≤ 5) : motive group nonempty bound := by
  match group with
  | [] => exact absurd rfl nonempty
  | [b0] => exact one b0
  | [b0, b1] => exact two b0 b1
  | [b0, b1, b2] => exact three b0 b1 b2
  | [b0, b1, b2, b3] => exact four b0 b1 b2 b3
  | [b0, b1, b2, b3, b4] => exact five b0 b1 b2 b3 b4
  | _ :: _ :: _ :: _ :: _ :: _ :: rest =>
    simp only [List.length_cons] at bound
    omega

theorem encodeSequence_fits : Fits 5 8 (encodeSequence mode) := by
  refine ⟨fun group whole => ?_, fun group nonempty short => ?_⟩
  · match group, whole with
    | [b0, b1, b2, b3, b4], _ =>
      rw [(encodeSequence_eq b0 b1 b2 b3 b4).2.2.2.2]
      rfl
  · have bound := short.le
    clear short
    induction group, nonempty, bound using group_cases with
    | one b0 =>
      rw [(encodeSequence_eq b0 0 0 0 0).1]
      simp
    | two b0 b1 =>
      rw [(encodeSequence_eq b0 b1 0 0 0).2.1]
      simp
    | three b0 b1 b2 =>
      rw [(encodeSequence_eq b0 b1 b2 0 0).2.2.1]
      simp
    | four b0 b1 b2 b3 =>
      rw [(encodeSequence_eq b0 b1 b2 b3 0).2.2.2.1]
      simp
    | five b0 b1 b2 b3 b4 =>
      rw [(encodeSequence_eq b0 b1 b2 b3 b4).2.2.2.2]
      simp

theorem decodeSequence_encodeSequence (group : Bytes) (nonempty : group ≠ []) (bound : group.length ≤ 5) :
    decodeSequence mode (encodeSequence mode group) = .ok group := by
  induction group, nonempty, bound using group_cases with
  | one b0 =>
    rw [(encodeSequence_eq b0 0 0 0 0).1]
    simp only [decodeSequence, decodeBlocks_encodeChar]
    exact congrArg (fun first => Except.ok [first]) (byte_zero b0 0)
  | two b0 b1 =>
    rw [(encodeSequence_eq b0 b1 0 0 0).2.1]
    simp only [decodeSequence, decodeBlocks_encodeChar]
    have zero := byte_zero b0 b1
    have one := byte_one b0 b1 0
    exact congrArg Except.ok (congrArg₂ List.cons zero (congrArg (fun last => [last]) one))
  | three b0 b1 b2 =>
    rw [(encodeSequence_eq b0 b1 b2 0 0).2.2.1]
    simp only [decodeSequence, decodeBlocks_encodeChar]
    have zero := byte_zero b0 b1
    have one := byte_one b0 b1 b2
    have two := byte_two b1 b2 0
    exact congrArg Except.ok (congrArg₂ List.cons zero (congrArg₂ List.cons one (congrArg (fun last => [last]) two)))
  | four b0 b1 b2 b3 =>
    rw [(encodeSequence_eq b0 b1 b2 b3 0).2.2.2.1]
    simp only [decodeSequence, decodeBlocks_encodeChar]
    have zero := byte_zero b0 b1
    have one := byte_one b0 b1 b2
    have two := byte_two b1 b2 b3
    have three := byte_three b2 b3 0
    exact congrArg Except.ok (congrArg₂ List.cons zero (congrArg₂ List.cons one
      (congrArg₂ List.cons two (congrArg (fun last => [last]) three))))
  | five b0 b1 b2 b3 b4 =>
    rw [(encodeSequence_eq b0 b1 b2 b3 b4).2.2.2.2]
    simp only [decodeSequence, decodeBlocks_encodeChar]
    have zero := byte_zero b0 b1
    have one := byte_one b0 b1 b2
    have two := byte_two b1 b2 b3
    have three := byte_three b2 b3 b4
    have four := byte_four b3 b4
    exact congrArg Except.ok (congrArg₂ List.cons zero (congrArg₂ List.cons one (congrArg₂ List.cons two
      (congrArg₂ List.cons three (congrArg (fun last => [last]) four)))))

end Groups

theorem decodeBase32_encodeBase32 (bytes : Bytes) : decodeBase32 mode (encodeBase32 mode bytes) = .ok bytes :=
  revert_convert encodeSequence_fits (by decide) (by decide) decodeSequence_encodeSequence bytes

end Base32

end Libp2p.Multi
