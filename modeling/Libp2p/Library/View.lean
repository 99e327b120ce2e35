import Mathlib.Data.List.TakeDrop
import Mathlib.Data.List.TakeWhile
import Mathlib.Tactic.Common

/-! # Views of a buffer

A view is a place in a buffer with a number of elements. A reader that is given the place alone goes on to the next
terminator, which may stand inside the view or beyond it, or nowhere in the buffer.
-/

namespace Libp2p.Library

variable {α β : Type} [DecidableEq α]

structure View (α : Type) where
  /-- The buffer from the place of the view on. -/
  memory : List α
  size : ℕ
  inside : size ≤ memory.length

/-- What stands before the first terminator, and what follows it. -/
theorem takeWhile_append_terminator {list : List α} {terminator : α} (member : terminator ∈ list) :
    ∃ rest, list = list.takeWhile (· ≠ terminator) ++ terminator :: rest := by
  obtain ⟨front, rest, rfl, excluded⟩ := List.eq_append_cons_of_mem member
  have plain : ∀ element ∈ front, decide (element ≠ terminator) = true := by
    intro element among
    exact decide_eq_true fun same => excluded (same ▸ among)
  refine ⟨rest, ?_⟩
  rw [List.takeWhile_append_of_pos plain, List.takeWhile_cons_of_neg (by simp), List.append_nil]

namespace View

variable (view : View α) {other : View α} {terminator : α} {text : List α}

def contents : List α := view.memory.take view.size

/-- What follows in the buffer. -/
def beyond : List α := view.memory.drop view.size

/-- The view without its first element. -/
def tail : View α where
  memory := view.memory.tail
  size := view.size - 1
  inside := by
    rw [List.length_tail]
    exact Nat.sub_le_sub_right view.inside 1

/-- The elements before the next terminator; absent if the buffer ends without one. -/
def terminated (terminator : α) (view : View α) : Option (List α) :=
  if terminator ∈ view.memory then some (view.memory.takeWhile (· ≠ terminator)) else none

/-- The whole of a text with a terminator behind it. -/
def string (terminator : α) (text : List α) : View α where
  memory := text ++ [terminator]
  size := text.length
  inside := by simp

/-- What a reader makes of the view is what its contents mean. -/
def Reads (reader : View α → Option β) (meaning : List α → β) : Prop := reader view = some (meaning view.contents)

omit [DecidableEq α] in
theorem contents_append_beyond : view.contents ++ view.beyond = view.memory := List.take_append_drop _ _

omit [DecidableEq α] in
@[simp]
theorem length_contents : view.contents.length = view.size := by
  rw [contents, List.length_take, Nat.min_eq_left view.inside]

omit [DecidableEq α] in
theorem contents_tail : view.tail.contents = view.contents.tail :=
  (List.tail_take_eq_take_tail view.memory view.size).symm

theorem terminated_string (terminator : α) (text : List α) :
    (string terminator text).terminated terminator = some (text.takeWhile (· ≠ terminator)) := by
  rw [terminated, if_pos (by simp [string]), string, List.takeWhile_append]
  split_ifs with whole
  · rw [(List.takeWhile_sublist _).eq_of_length whole]
    simp
  · rfl

/-- The next terminator is inside the view or beyond it. -/
theorem terminated_cases (found : view.terminated terminator = some text) :
    (terminator ∈ view.contents ∧ text = view.contents.takeWhile (· ≠ terminator)) ∨
      (terminator ∉ view.contents ∧ text = view.contents ++ view.beyond.takeWhile (· ≠ terminator)) := by
  unfold terminated at found
  split_ifs at found
  obtain rfl := Option.some.inj found
  rw [← view.contents_append_beyond]
  by_cases among : terminator ∈ view.contents
  · refine .inl ⟨among, ?_⟩
    rw [List.takeWhile_append, if_neg]
    intro whole
    have all := List.takeWhile_eq_self_iff.mp ((List.takeWhile_sublist _).eq_of_length whole)
    exact absurd rfl (of_decide_eq_true (all terminator among))
  · refine .inr ⟨among, List.takeWhile_append_of_pos fun element member => decide_eq_true ?_⟩
    rintro rfl
    exact among member

variable {view}

omit [DecidableEq α] in
/-- Where a reader reads what the contents mean, nothing else matters. -/
theorem Reads.congr {reader : View α → Option β} {meaning : List α → β} (reads : view.Reads reader meaning)
    (reads' : other.Reads reader meaning) (same : view.contents = other.contents) : reader view = reader other := by
  rw [reads, reads', same]

end View

end Libp2p.Library
