import Mathlib.Algebra.Order.Ring.Nat
import Mathlib.Data.Nat.Basic
import Mathlib.Tactic.Common
import Mathlib.Tactic.Positivity
import Mathlib.Tactic.Ring

/-! # Numbers in groups of seven bits

The least significant group comes first, and every byte but the last has its high bit set. A prefix fits a width if its
last group starts within the width and the number is below the width's power of two.
-/

namespace Libp2p.Library.Leb128

variable {bytes groups rest : List UInt8} {byte : UInt8} {width got low : ℕ}

/-- The bytes up to the first one whose high bit is not set. -/
def cut : List UInt8 → Option (List UInt8)
  | [] => none
  | byte :: rest => if byte.toNat < 128 then some [byte] else (cut rest).map (byte :: ·)

def denote : List UInt8 → ℕ
  | [] => 0
  | byte :: rest => byte.toNat % 128 + 128 * denote rest

/-- The groups fit behind `got` other ones. -/
structure Fits (width got : ℕ) (groups : List UInt8) : Prop where
  starts : 7 * (got + groups.length) < width + 7
  value : denote groups * 128 ^ got < 2 ^ width

/-- Several groups do not end with a zero byte, which would add nothing to the number. -/
def Shortest (groups : List UInt8) : Prop := groups.length ≤ 1 ∨ groups.getLast? ≠ some 0

instance : Decidable (Shortest groups) := inferInstanceAs (Decidable (_ ∨ _))

/-- The prefix of a text is as short as its number allows. -/
def ShortestPrefix (bytes : List UInt8) : Prop := ∀ groups ∈ cut bytes, Shortest groups

/-- The number that the prefix of a text denotes. -/
def number (bytes : List UInt8) : ℕ := (cut bytes).elim 0 denote

/-- What stands behind the prefix of a text. -/
def behind (bytes : List UInt8) : List UInt8 := (cut bytes).elim [] fun groups => bytes.drop groups.length

theorem cut_last (last : byte.toNat < 128) : cut (byte :: rest) = some [byte] := if_pos last

theorem cut_more (more : 128 ≤ byte.toNat) : cut (byte :: rest) = (cut rest).map (byte :: ·) :=
  if_neg (not_lt.mpr more)

/-- The prefix of a text stands at its beginning. -/
theorem cut_eq_some (found : cut bytes = some groups) : groups ≠ [] ∧ ∃ rest, bytes = groups ++ rest := by
  induction bytes generalizing groups with
  | nil => cases found
  | cons byte tail ih =>
    unfold cut at found
    split_ifs at found
    · obtain rfl := Option.some.inj found
      exact ⟨List.cons_ne_nil _ _, tail, rfl⟩
    · obtain ⟨first, earlier, rfl⟩ := Option.map_eq_some_iff.mp found
      obtain ⟨-, rest, rfl⟩ := ih earlier
      exact ⟨List.cons_ne_nil _ _, rest, rfl⟩

theorem shortestPrefix_iff (found : cut bytes = some groups) : ShortestPrefix bytes ↔ Shortest groups := by
  constructor
  · exact fun shortest => shortest groups found
  · intro shortest other also
    obtain rfl := Option.some.inj (found.symm.trans also)
    exact shortest

theorem behind_append (found : cut (groups ++ rest) = some groups) : behind (groups ++ rest) = rest := by
  rw [behind, found]
  exact List.drop_left

theorem shortest_singleton : Shortest [byte] := .inl le_rfl

theorem cut_getLast (found : cut bytes = some groups) : ∃ last, groups.getLast? = some last ∧ last.toNat < 128 := by
  induction bytes generalizing groups with
  | nil => cases found
  | cons byte tail ih =>
    unfold cut at found
    split_ifs at found with ended
    · obtain rfl := Option.some.inj found
      exact ⟨byte, rfl, ended⟩
    · obtain ⟨first, earlier, rfl⟩ := Option.map_eq_some_iff.mp found
      obtain ⟨last, ends, small⟩ := ih earlier
      exact ⟨last, by rw [List.getLast?_cons, ends]; rfl, small⟩

/-- Only zeros denote zero. -/
theorem last_of_denote_eq_zero (zero : denote groups = 0) {last : UInt8} (ends : groups.getLast? = some last) :
    last.toNat % 128 = 0 := by
  induction groups with
  | nil => cases ends
  | cons byte rest ih =>
    rw [denote] at zero
    rcases rest with _ | ⟨next, rest⟩
    · rw [List.getLast?_singleton] at ends
      obtain rfl := Option.some.inj ends
      omega
    · exact ih (by omega) (by rwa [List.getLast?_cons_cons] at ends)

/-- One more group in front of some is shortest when these are and denote something. -/
theorem shortest_more (found : cut bytes = some groups) :
    Shortest (byte :: groups) ↔ Shortest groups ∧ denote groups ≠ 0 := by
  obtain ⟨some_, -⟩ := cut_eq_some found
  obtain ⟨last, ends, small⟩ := cut_getLast found
  have positive : 0 < groups.length := List.length_pos_iff.mpr some_
  have whole : Shortest (byte :: groups) ↔ last ≠ 0 := by
    unfold Shortest
    rw [List.getLast?_cons, ends, List.length_cons]
    simp only [Option.getD_some, ne_eq, Option.some.injEq]
    exact or_iff_right (by omega)
  have ended : last = 0 ↔ last.toNat % 128 = 0 := by
    rw [Nat.mod_eq_of_lt small, ← UInt8.toNat_inj]
    rfl
  rw [whole]
  constructor
  · intro nonzero
    refine ⟨.inr ?_, fun zero => nonzero (ended.mpr (last_of_denote_eq_zero zero ends))⟩
    rw [ends]
    exact fun same => nonzero (Option.some.inj same)
  · rintro ⟨single | many, nonzero⟩ rfl
    · obtain ⟨only, rfl⟩ := List.length_eq_one_iff.mp (show groups.length = 1 by omega)
      rw [List.getLast?_singleton] at ends
      obtain rfl := Option.some.inj ends
      exact nonzero rfl
    · exact many ends

/-- What stands below a group does not reach the width if the group itself does not. -/
theorem add_lt_iff {value : ℕ} (small : low < 128 ^ got) (inside : 7 * got ≤ width) :
    low + value * 128 ^ got < 2 ^ width ↔ value * 128 ^ got < 2 ^ width := by
  obtain ⟨more, rfl⟩ := Nat.exists_eq_add_of_le inside
  have whole : 2 ^ (7 * got + more) = 2 ^ more * 128 ^ got := by
    rw [pow_add, pow_mul, mul_comm]
    rfl
  rw [whole]
  constructor
  · exact fun bound => lt_of_le_of_lt (Nat.le_add_left _ _) bound
  · intro bound
    have fewer : value < 2 ^ more := Nat.lt_of_mul_lt_mul_right bound
    calc low + value * 128 ^ got < 128 ^ got + value * 128 ^ got := Nat.add_lt_add_right small _
      _ = (value + 1) * 128 ^ got := by ring
      _ ≤ 2 ^ more * 128 ^ got := Nat.mul_le_mul_right _ fewer

theorem fits_last : Fits width got [byte] ↔ 7 * got < width ∧ byte.toNat % 128 * 128 ^ got < 2 ^ width := by
  have value : denote [byte] = byte.toNat % 128 := Nat.add_zero _
  constructor
  · intro fits
    have starts := fits.starts
    rw [List.length_singleton] at starts
    exact ⟨by omega, value ▸ fits.value⟩
  · rintro ⟨starts, bound⟩
    refine ⟨?_, value.symm ▸ bound⟩
    rw [List.length_singleton]
    omega

/-- Whether groups fit is decided by the last one. -/
theorem fits_more (some_ : groups ≠ []) : Fits width got (byte :: groups) ↔ Fits width (got + 1) groups := by
  have positive : 0 < groups.length := List.length_pos_iff.mpr some_
  have slice : byte.toNat % 128 * 128 ^ got < 128 ^ (got + 1) := by
    rw [pow_succ, mul_comm]
    exact Nat.mul_lt_mul_of_pos_left (Nat.mod_lt _ (by decide)) (by positivity)
  have value : denote (byte :: groups) * 128 ^ got =
      byte.toNat % 128 * 128 ^ got + denote groups * 128 ^ (got + 1) := by
    rw [denote, pow_succ]
    ring
  constructor
  · rintro ⟨starts, bound⟩
    rw [List.length_cons] at starts
    rw [value, add_lt_iff slice (by omega)] at bound
    exact ⟨by omega, bound⟩
  · rintro ⟨starts, bound⟩
    refine ⟨?_, ?_⟩
    · rw [List.length_cons]
      omega
    · rw [value, add_lt_iff slice (by omega)]
      exact bound

end Libp2p.Library.Leb128
