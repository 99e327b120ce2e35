import Mathlib.Algebra.Order.Field.Basic

/-! # Exact numbers with special values

The values of IEEE 754 without its rounding and without the sign of zero: the numbers of a field, the two infinities and
the value that is not a number. Arithmetic on numbers stays within numbers except for a division by zero.
-/

namespace Libp2p.Library

inductive Extended (K : Type) where
  | finite (value : K)
  | infinite (negative : Bool)
  | nan
deriving DecidableEq

namespace Extended

variable {K : Type}

/-- The value is a number. -/
def IsFinite (value : Extended K) : Prop := ∃ number, value = finite number

section Order

variable [LinearOrder K]

def lt : Extended K → Extended K → Bool
  | finite left, finite right => left < right
  | finite _, infinite negative => ! negative
  | infinite negative, finite _ => negative
  | infinite left, infinite right => left && ! right
  | _, _ => false

instance : LT (Extended K) := ⟨fun left right => lt left right⟩

instance : DecidableLT (Extended K) := fun left right => inferInstanceAs (Decidable (lt left right))

theorem finite_lt {left right : K} : (finite left : Extended K) < finite right ↔ left < right := decide_eq_true_iff

end Order

section Ring

variable [Field K] {left right : K} {first second : Extended K}

def add : Extended K → Extended K → Extended K
  | finite left, finite right => finite (left + right)
  | infinite left, infinite right => if left = right then infinite left else nan
  | infinite negative, finite _ | finite _, infinite negative => infinite negative
  | _, _ => nan

def neg : Extended K → Extended K
  | finite value => finite (-value)
  | infinite negative => infinite (! negative)
  | nan => nan

instance : Add (Extended K) := ⟨add⟩

instance : Sub (Extended K) := ⟨fun left right => add left (neg right)⟩

instance : Zero (Extended K) := ⟨finite 0⟩

instance : One (Extended K) := ⟨finite 1⟩

instance : NatCast (Extended K) := ⟨fun value => finite value⟩

theorem zero_eq : (0 : Extended K) = finite 0 := rfl

theorem isFinite_zero : (0 : Extended K).IsFinite := ⟨0, rfl⟩

theorem isFinite_one : (1 : Extended K).IsFinite := ⟨1, rfl⟩

theorem isFinite_natCast (value : ℕ) : (value : Extended K).IsFinite := ⟨value, rfl⟩

theorem finite_sub : (finite left - finite right : Extended K) = finite (left - right) :=
  congrArg finite (sub_eq_add_neg left right).symm

theorem IsFinite.add (one : first.IsFinite) (two : second.IsFinite) : (first + second).IsFinite := by
  obtain ⟨left, rfl⟩ := one
  obtain ⟨right, rfl⟩ := two
  exact ⟨left + right, rfl⟩

theorem IsFinite.sub (one : first.IsFinite) (two : second.IsFinite) : (first - second).IsFinite := by
  obtain ⟨left, rfl⟩ := one
  obtain ⟨right, rfl⟩ := two
  exact ⟨left - right, finite_sub⟩

variable [LinearOrder K]

def mul : Extended K → Extended K → Extended K
  | finite left, finite right => finite (left * right)
  | infinite left, infinite right => infinite (left != right)
  | infinite negative, finite value | finite value, infinite negative =>
    if value = 0 then nan else infinite (negative != decide (value < 0))
  | _, _ => nan

def div : Extended K → Extended K → Extended K
  | finite left, finite right =>
    if right = 0 then if left = 0 then nan else infinite (decide (left < 0)) else finite (left / right)
  | infinite negative, finite value => infinite (negative != decide (value < 0))
  | finite _, infinite _ => finite 0
  | _, _ => nan

instance : Mul (Extended K) := ⟨mul⟩

instance : Div (Extended K) := ⟨div⟩

theorem finite_div (nonzero : right ≠ 0) : (finite left / finite right : Extended K) = finite (left / right) :=
  if_neg nonzero

theorem IsFinite.mul (one : first.IsFinite) (two : second.IsFinite) : (first * second).IsFinite := by
  obtain ⟨left, rfl⟩ := one
  obtain ⟨right, rfl⟩ := two
  exact ⟨left * right, rfl⟩

end Ring

end Extended

end Libp2p.Library
