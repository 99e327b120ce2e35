import Libp2p.Library.Unordered
import Mathlib.Algebra.Order.BigOperators.Group.Finset

/-! # Totals over a map

The sum of a term for every entry of a map, described through lookup alone, so that two maps are compared key by key.
-/

namespace Libp2p.Library

namespace UnorderedMap

variable {α β M : Type} [DecidableEq α] {term : α → β → M} {map before after : UnorderedMap α β}

/-- The sum of a term for every entry. -/
def total [AddCommMonoid M] (term : α → β → M) (map : UnorderedMap α β) : M :=
  (map.entries.map fun entry => term entry.1 entry.2).sum

/-- The term of a key, zero where there is no entry. -/
def termAt [AddCommMonoid M] (term : α → β → M) (map : UnorderedMap α β) (key : α) : M :=
  (map.lookup key).elim 0 (term key)

theorem total_eq_sum [AddCommMonoid M] (keys : Finset α) (covers : ∀ key ∈ map, key ∈ keys) :
    total term map = ∑ key ∈ keys, termAt term map key := by
  have listed : total term map = (map.keys.map (termAt term map)).sum := by
    have entry : ∀ entry ∈ map.entries, term entry.1 entry.2 = termAt term map entry.1 := by
      intro entry member
      have found : map.lookup entry.1 = some entry.2 := AList.mem_lookup_iff.mpr member
      rw [termAt, found]
      rfl
    unfold total
    rw [List.map_congr_left entry, AList.keys, List.keys, List.map_map]
    rfl
  have outside : ∀ key ∈ keys, key ∉ map.keys.toFinset → termAt term map key = 0 := by
    intro key _ absent
    have missing : map.lookup key = none :=
      AList.lookup_eq_none.mpr fun present => absent (List.mem_toFinset.mpr (AList.mem_keys.mp present))
    rw [termAt, missing]
    rfl
  have inside : map.keys.toFinset ⊆ keys := by
    intro key member
    exact covers key (AList.mem_keys.mpr (List.mem_toFinset.mp member))
  rw [listed, ← List.sum_toFinset _ map.keys_nodup, Finset.sum_subset inside outside]

/-- A total that no key raises is not higher. -/
theorem total_le [AddCommMonoid M] [PartialOrder M] [IsOrderedAddMonoid M]
    (pointwise : ∀ key, termAt term after key ≤ termAt term before key) : total term after ≤ total term before := by
  have left := @total_eq_sum _ _ _ _ term after _ (after.keys.toFinset ∪ before.keys.toFinset) fun key member =>
    Finset.mem_union_left _ (List.mem_toFinset.mpr (AList.mem_keys.mp member))
  have right := @total_eq_sum _ _ _ _ term before _ (after.keys.toFinset ∪ before.keys.toFinset) fun key member =>
    Finset.mem_union_right _ (List.mem_toFinset.mpr (AList.mem_keys.mp member))
  rw [left, right]
  exact Finset.sum_le_sum fun key _ => pointwise key

end UnorderedMap

end Libp2p.Library
