import Mathlib.Algebra.Group.Int.Defs
import Mathlib.Algebra.Group.Nat.Defs
import Mathlib.Tactic.Common
import Mathlib.Data.Int.Order.Basic

/-! # Expiration times

The clock counts nanoseconds and a time to live milliseconds, both in signed numbers of 64 bits. The comparison that keeps
the sum below the last time converts the time to live to nanoseconds first. Arithmetic is that of the numbers, which wrap
around where the program must not get.
-/

namespace Libp2p

/-- Nanoseconds of the steady clock. -/
abbrev TimePoint := Int64

abbrev Milliseconds := Int64

/-- The conversion to the unit of the clock. -/
def toNanoseconds (ttl : Milliseconds) : Int64 := ttl * 1000000

def maxTime : TimePoint := Int64.maxValue

/-- The shared body of the two repositories. -/
def expirationTime (now : TimePoint) (ttl : Milliseconds) : TimePoint :=
  if now ≥ maxTime - toNanoseconds ttl then maxTime else now + toNanoseconds ttl

def InmemAddressRepository.calculateExpirationTime (now : TimePoint) (ttl : Milliseconds) : TimePoint :=
  expirationTime now ttl

def InmemUserAgentRepository.calculateExpirationTime (now : TimePoint) (ttl : Milliseconds) : TimePoint :=
  expirationTime now ttl

/-- Of addresses that do not expire. -/
def Ttl.kPermanent : Milliseconds := Int64.maxValue

def Represented (value : ℤ) : Prop := -2 ^ 63 ≤ value ∧ value ≤ 2 ^ 63 - 1

/-- Nothing that is computed on the way is out of range. -/
structure NoOverflow (now : TimePoint) (ttl : Milliseconds) : Prop where
  converted : Represented (ttl.toInt * 1000000)
  subtracted : Represented (maxTime.toInt - ttl.toInt * 1000000)
  added : now.toInt < maxTime.toInt - ttl.toInt * 1000000 → Represented (now.toInt + ttl.toInt * 1000000)

/-- The sum, or the last time if that is earlier. -/
def Saturates (calculate : TimePoint → Milliseconds → TimePoint) (now : TimePoint) (ttl : Milliseconds) : Prop :=
  NoOverflow now ttl ∧ (calculate now ttl).toInt = min (now.toInt + ttl.toInt * 1000000) maxTime.toInt

variable {now : TimePoint} {ttl : Milliseconds}

theorem toInt_maxTime : maxTime.toInt = 2 ^ 63 - 1 := Int64.toInt_maxValue

theorem bmod_of_represented {value : ℤ} (represented : Represented value) : value.bmod (2 ^ 64) = value := by
  obtain ⟨least, most⟩ := represented
  rw [Int.bmod_def]
  split_ifs <;> omega

/-- Without an overflow the result is the smaller one of the sum and the last time. -/
theorem expirationTime_of_fits (started : 0 ≤ now.toInt) (lasting : 0 ≤ ttl.toInt)
    (fits : ttl.toInt * 1000000 ≤ 2 ^ 63 - 1) :
    (expirationTime now ttl).toInt = min (now.toInt + ttl.toInt * 1000000) (2 ^ 63 - 1) := by
  have bound := now.toInt_lt
  have span : (toNanoseconds ttl).toInt = ttl.toInt * 1000000 := by
    rw [toNanoseconds, Int64.toInt_mul, show (1000000 : Int64).toInt = 1000000 from rfl,
      bmod_of_represented ⟨by omega, by omega⟩]
  have latest : (maxTime - toNanoseconds ttl).toInt = 2 ^ 63 - 1 - ttl.toInt * 1000000 := by
    rw [Int64.toInt_sub, span, toInt_maxTime, bmod_of_represented ⟨by omega, by omega⟩]
  unfold expirationTime
  split_ifs with late
  · rw [ge_iff_le, Int64.le_iff_toInt_le, latest] at late
    rw [toInt_maxTime]
    omega
  · rw [ge_iff_le, Int64.le_iff_toInt_le, latest] at late
    rw [Int64.toInt_add, span, bmod_of_represented ⟨by omega, by omega⟩]
    omega

theorem noOverflow_iff (started : 0 ≤ now.toInt) (lasting : 0 ≤ ttl.toInt) :
    NoOverflow now ttl ↔ ttl.toInt * 1000000 ≤ 2 ^ 63 - 1 := by
  constructor
  · exact fun safe => safe.converted.2
  · intro fits
    refine ⟨⟨by omega, fits⟩, ⟨?_, ?_⟩, fun early => ⟨by omega, ?_⟩⟩
    · rw [toInt_maxTime]
      omega
    · rw [toInt_maxTime]
      omega
    · rw [toInt_maxTime] at early
      omega

/-- Both repositories compute the expiration time without an overflow exactly when the time to live in nanoseconds is
represented, and then a shorter one expires no later. -/
theorem saturates_iff (started : 0 ≤ now.toInt) (lasting : 0 ≤ ttl.toInt) :
    (Saturates InmemAddressRepository.calculateExpirationTime now ttl ↔ ttl.toInt * 1000000 ≤ 2 ^ 63 - 1) ∧
    (Saturates InmemUserAgentRepository.calculateExpirationTime now ttl ↔ ttl.toInt * 1000000 ≤ 2 ^ 63 - 1) ∧
    (ttl.toInt * 1000000 ≤ 2 ^ 63 - 1 → ∀ shorter : Milliseconds, 0 ≤ shorter.toInt → shorter.toInt ≤ ttl.toInt →
      (expirationTime now shorter).toInt ≤ (expirationTime now ttl).toInt) := by
  have saturates : Saturates expirationTime now ttl ↔ ttl.toInt * 1000000 ≤ 2 ^ 63 - 1 := by
    rw [Saturates, noOverflow_iff started lasting, toInt_maxTime]
    exact and_iff_left_of_imp (expirationTime_of_fits started lasting)
  refine ⟨saturates, saturates, fun fits shorter positive less => ?_⟩
  rw [expirationTime_of_fits started lasting fits, expirationTime_of_fits started positive (by omega)]
  omega

/-- A time to live of an hour. -/
theorem saturates_hour : Saturates InmemAddressRepository.calculateExpirationTime 1 3600000 :=
  (saturates_iff (by decide) (by decide)).1.mpr (by decide)

/-- A permanent address overflows, and so does one of more than 584 years, whose expiration time wraps around to one that
is earlier than that of a second. -/
theorem expiration_overflows : ¬ NoOverflow 1 Ttl.kPermanent ∧ ¬ NoOverflow 1 18446744073710 ∧
    expirationTime 1 18446744073710 < expirationTime 1 1000 := by
  refine ⟨fun safe => absurd safe.converted.2 (by decide), fun safe => absurd safe.converted.2 (by decide), by decide⟩

end Libp2p
