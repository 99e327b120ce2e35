import Mathlib.Data.Set.Basic
import Mathlib.Tactic.Common

/-! # Prefix codes

Words of which none begins another one can be followed by anything: where the word ends is told by the word itself. Words
whose length is told by one of their letters are such a code.
-/

namespace Libp2p.Library

variable {α : Type} {words : Set (List α)} {first second rest rest' : List α}

/-- No word begins another one. -/
def PrefixCode (words : Set (List α)) : Prop :=
  ∀ first ∈ words, ∀ second ∈ words, first <+: second → first = second

/-- What follows a word of a prefix code is told apart from the word. -/
theorem PrefixCode.append_inj (code : PrefixCode words) (listed : first ∈ words) (listed' : second ∈ words) :
    first ++ rest = second ++ rest' ↔ first = second ∧ rest = rest' := by
  constructor
  · intro same
    have begins : first <+: second ++ rest' := ⟨rest, same⟩
    have equal : first = second := by
      rcases List.prefix_or_prefix_of_prefix begins (List.prefix_append second rest') with shorter | longer
      · exact code first listed second listed' shorter
      · exact (code second listed' first listed longer).symm
    subst equal
    exact ⟨rfl, List.append_cancel_left same⟩
  · rintro ⟨rfl, rfl⟩
    rfl

/-- Words whose length is told by the letter at one place are a prefix code. -/
theorem prefixCode_of_letter (place : ℕ) (length : α → ℕ)
    (told : ∀ word ∈ words, ∃ letter, word[place]? = some letter ∧ word.length = length letter) : PrefixCode words := by
  intro first listed second listed' begins
  obtain ⟨letter, read, size⟩ := told first listed
  obtain ⟨letter', read', size'⟩ := told second listed'
  have same : letter = letter' := by
    obtain ⟨rest, rfl⟩ := begins
    have inside : place < first.length := (List.getElem?_eq_some_iff.mp read).1
    rw [List.getElem?_append_left inside, read] at read'
    exact Option.some.inj read'
  exact begins.eq_of_length (by rw [size, size', same])

end Libp2p.Library
