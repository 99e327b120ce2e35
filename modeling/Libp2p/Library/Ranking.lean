import Mathlib.Algebra.Order.Group.Nat
import Mathlib.Data.List.Sort
import Mathlib.Order.Defs.Unbundled

/-! # Ranking by a key

Items have keys that are ordered like numbers: two keys may be equal for the order without being the same. A list that
is sorted by falling keys has at its front the items whose keys reach a bound.
-/

namespace Libp2p.Library

variable {α β : Type} [LT β] {items : List α}

section Order

variable [IsStrictWeakOrder β (· < ·)]

theorem not_lt_trans {first second third : β} (left : ¬ first < second) (right : ¬ second < third) : ¬ first < third := by
  intro less
  have asymm : ∀ one another : β, one < another → ¬ another < one := fun one another forth back =>
    irrefl_of (· < ·) one (trans_of (· < ·) forth back)
  have below : ¬ second < first := fun lower => right (trans_of (· < ·) lower less)
  have above : ¬ third < second := fun lower => left (trans_of (· < ·) less lower)
  exact (IsStrictWeakOrder.incomp_trans first second third ⟨left, below⟩ ⟨right, above⟩).1 less

theorem exists_highest (key : α → β) (some_ : items ≠ []) : ∃ item ∈ items, ∀ other ∈ items, ¬ key item < key other := by
  induction items with
  | nil => exact absurd rfl some_
  | cons first rest ih =>
    have itself : ¬ key first < key first := irrefl_of (· < ·) (key first)
    by_cases alone : rest = []
    · rw [alone]
      exact ⟨first, by simp, by simpa using itself⟩
    · obtain ⟨highest, member, highest_⟩ := ih alone
      by_cases higher : key highest < key first
      · refine ⟨first, by simp, fun other inside => ?_⟩
        rcases List.mem_cons.mp inside with rfl | later
        · exact itself
        · have lower : ¬ key first < key highest := fun forth => irrefl_of (· < ·) _ (trans_of (· < ·) forth higher)
          exact not_lt_trans lower (highest_ other later)
      · refine ⟨highest, by simp [member], fun other inside => ?_⟩
        rcases List.mem_cons.mp inside with rfl | later
        · exact higher
        · exact highest_ other later

theorem falling_insertionSort (key : α → β) [DecidableRel fun left right => ¬ key left < key right] :
    (items.insertionSort fun left right => ¬ key left < key right).Pairwise fun left right => ¬ key left < key right := by
  have total : Std.Total fun left right => ¬ key left < key right :=
    ⟨fun left right => by
      by_contra! both
      exact irrefl_of (· < ·) (key left) (trans_of (· < ·) both.1 both.2)⟩
  have transitive : IsTrans α fun left right => ¬ key left < key right := ⟨fun _ _ _ => not_lt_trans⟩
  exact List.pairwise_insertionSort _ items

end Order

/-- What holds at a position holds before it, so it holds at the front. -/
theorem countP_take {holds : α → Bool} {count : ℕ}
    (downward : items.Pairwise fun first second => holds second → holds first) :
    (items.take count).countP holds = min count (items.countP holds) := by
  induction items generalizing count with
  | nil => simp
  | cons first rest ih =>
    obtain ⟨ahead, downward⟩ := List.pairwise_cons.mp downward
    cases count with
    | zero => simp
    | succ count =>
      rw [List.take_succ_cons]
      by_cases here : holds first
      · rw [List.countP_cons_of_pos here, List.countP_cons_of_pos here, ih downward]
        omega
      · have nowhere : ∀ other ∈ rest, ¬ holds other := fun other member there => here (ahead other member there)
        rw [List.countP_cons_of_neg here, List.countP_cons_of_neg here, List.countP_eq_zero.mpr nowhere,
          List.countP_eq_zero.mpr fun other member => nowhere other (List.mem_of_mem_take member)]
        omega

end Libp2p.Library
