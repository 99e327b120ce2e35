import Mathlib.Data.List.Basic
import Mathlib.Tactic.Common

/-! # Words between separators

A list whose words each have a separator in front splits into these words again when no word has the separator in it.
-/

namespace Libp2p.Library

variable {α : Type} [DecidableEq α] {separator : α} {word first : List α} {words more : List (List α)}

/-- Words, each with the separator in front. -/
def joined (separator : α) (words : List (List α)) : List α := words.flatMap (separator :: ·)

section Joining

omit [DecidableEq α]

@[simp]
theorem joined_nil : joined separator [] = [] := rfl

@[simp]
theorem joined_cons : joined separator (word :: words) = separator :: (word ++ joined separator words) := rfl

@[simp]
theorem joined_append : joined separator (words ++ more) = joined separator words ++ joined separator more :=
  List.flatMap_append

theorem joined_eq_nil : joined separator words = [] ↔ words = [] := by
  cases words <;> simp

theorem length_le_joined (member : word ∈ words) : word.length < (joined separator words).length := by
  induction words with
  | nil => exact absurd member List.not_mem_nil
  | cons head rest ih =>
    rw [joined_cons, List.length_cons, List.length_append]
    rcases List.mem_cons.mp member with rfl | later
    · omega
    · have := ih later
      omega

theorem length_words_le : words.length ≤ (joined separator words).length := by
  induction words with
  | nil => exact Nat.zero_le _
  | cons word rest ih =>
    simp only [joined_cons, List.length_cons, List.length_append]
    omega

/-- A joined text ends with the separator exactly when its last word is empty. -/
theorem getLast?_joined (plain : ∀ word ∈ words, separator ∉ word) (some_ : words ≠ []) :
    (joined separator words).getLast? = some separator ↔ words.getLast? = some [] := by
  obtain ⟨front, last, rfl⟩ := (List.eq_nil_or_concat words).resolve_left some_
  rw [List.concat_eq_append, joined_append, joined_cons, joined_nil, List.append_nil, List.getLast?_concat]
  rcases List.eq_nil_or_concat last with rfl | ⟨body, character, rfl⟩
  · simp
  · have excluded : separator ∉ body.concat character := plain _ (by simp)
    rw [List.concat_eq_append] at excluded ⊢
    rw [← List.cons_append, ← List.append_assoc, List.getLast?_concat]
    simp only [Option.some.injEq, List.append_eq_nil_iff, List.cons_ne_self, and_false, iff_false]
    rintro rfl
    exact excluded (by simp)

end Joining

theorem splitOn_append_joined (plain : ∀ word ∈ first :: more, separator ∉ word) :
    (first ++ joined separator more).splitOn separator = first :: more := by
  induction more generalizing first with
  | nil => rw [joined_nil, List.append_nil, List.splitOn_eq_singleton (plain first List.mem_cons_self)]
  | cons word rest ih =>
    rw [joined_cons, List.splitOn_append_cons_self_of_not_mem (plain first List.mem_cons_self),
      ih fun other member => plain other (List.mem_cons_of_mem _ member)]

theorem joined_splitOn (text : List α) : joined separator (text.splitOn separator) = separator :: text := by
  have spelled (words : List (List α)) (some_ : words ≠ []) :
      joined separator words = separator :: [separator].intercalate words := by
    induction words with
    | nil => exact absurd rfl some_
    | cons word rest ih =>
      rcases rest with _ | ⟨next, rest⟩
      · simp
      · rw [joined_cons, ih (List.cons_ne_nil _ _), List.intercalate_cons_cons, List.append_assoc,
          List.singleton_append]
  rw [spelled _ (List.splitOn_ne_nil _ _), List.intercalate_splitOn]

end Libp2p.Library
