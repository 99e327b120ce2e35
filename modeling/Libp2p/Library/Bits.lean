import Mathlib.Algebra.Group.Nat.Defs
import Mathlib.Tactic.Common

/-! # Bit fields of bytes

A mask that keeps low bits takes a remainder of the number of a byte, a shift multiplies or divides it, and a mask before
a shift to the right cuts a field out of it.
-/

namespace Libp2p.Library

variable {byte mask shift : UInt8} {bits : ℕ}

theorem toNat_low (low : mask.toNat = 2 ^ bits - 1) : (byte &&& mask).toNat = byte.toNat % 2 ^ bits := by
  rw [UInt8.toNat_and, low, Nat.and_two_pow_sub_one_eq_mod]

theorem toNat_field (small : shift.toNat < 8) (field : mask.toNat >>> shift.toNat = 2 ^ bits - 1) :
    ((byte &&& mask) >>> shift).toNat = byte.toNat / 2 ^ shift.toNat % 2 ^ bits := by
  rw [UInt8.toNat_shiftRight, UInt8.toNat_and, Nat.mod_eq_of_lt small, Nat.shiftRight_and_distrib, field,
    Nat.and_two_pow_sub_one_eq_mod, Nat.shiftRight_eq_div_pow]

theorem toNat_raised (small : shift.toNat < 8) : (byte <<< shift).toNat = byte.toNat * 2 ^ shift.toNat % 256 := by
  rw [UInt8.toNat_shiftLeft, Nat.mod_eq_of_lt small, Nat.shiftLeft_eq]

/-- The two halves of a byte, put together again. -/
theorem nibbles (byte : UInt8) : (UInt8.ofNat (byte.toNat / 16) <<< 4) ||| UInt8.ofNat (byte.toNat % 16) = byte := by
  have small := byte.toNat_lt
  apply UInt8.toNat_inj.mp
  have high : (UInt8.ofNat (byte.toNat / 16)).toNat = byte.toNat / 16 := by
    rw [UInt8.toNat_ofNat', Nat.mod_eq_of_lt (by omega)]
  have low : (UInt8.ofNat (byte.toNat % 16)).toNat = byte.toNat % 16 := by
    rw [UInt8.toNat_ofNat', Nat.mod_eq_of_lt (by omega)]
  rw [UInt8.toNat_or, toNat_raised (by decide), high, low]
  change byte.toNat / 16 * 2 ^ 4 % 256 ||| byte.toNat % 16 = byte.toNat
  rw [Nat.mod_eq_of_lt (by omega), Nat.mul_comm, ← Nat.two_pow_add_eq_or_of_lt (by omega)]
  omega

end Libp2p.Library
