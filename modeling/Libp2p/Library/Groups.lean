import Mathlib.Data.List.Basic
import Mathlib.Algebra.Order.Group.Nat
import Mathlib.Tactic.Common

/-! # Groups

A list is cut into groups of a fixed size, of which the last may be shorter. A conversion that keeps full groups full can
be undone group by group, since what it writes falls into the same groups again.
-/

namespace Libp2p.Library

variable {α β : Type} {size : ℕ}

def groupsLoop (size : ℕ) : ℕ → List α → List (List α)
  | 0, _ => []
  | _ + 1, [] => []
  | room + 1, first :: rest => (first :: rest).take size :: groupsLoop size room ((first :: rest).drop size)

def groups (size : ℕ) (items : List α) : List (List α) := groupsLoop size items.length items

@[simp] theorem groups_nil : groups size ([] : List α) = [] := rfl

/-- Every group takes at least one element, so that the room for as many groups as elements is enough. -/
theorem groupsLoop_eq_groups (positive : 0 < size) {room : ℕ} {items : List α} (enough : items.length ≤ room) :
    groupsLoop size room items = groups size items := by
  unfold groups
  have agree : ∀ first second : ℕ, ∀ items : List α, items.length ≤ first → items.length ≤ second →
      groupsLoop size first items = groupsLoop size second items := by
    intro first
    induction first with
    | zero =>
      intro second items small _
      obtain rfl := List.length_eq_zero_iff.mp (Nat.le_zero.mp small)
      cases second <;> rfl
    | succ first ih =>
      intro second items small large
      cases items with
      | nil => cases second <;> rfl
      | cons item rest =>
        cases second with
        | zero => simp at large
        | succ second =>
          rw [groupsLoop, groupsLoop]
          congr 1
          rw [List.length_cons] at small large
          apply ih
          · rw [List.length_drop, List.length_cons]
            omega
          · rw [List.length_drop, List.length_cons]
            omega
  exact agree _ _ items enough le_rfl

theorem groups_cons (positive : 0 < size) {items : List α} (nonempty : items ≠ []) :
    groups size items = items.take size :: groups size (items.drop size) := by
  cases items with
  | nil => exact absurd rfl nonempty
  | cons item rest =>
    rw [groups, List.length_cons, groupsLoop, groupsLoop_eq_groups positive]
    rw [List.length_drop, List.length_cons]
    omega

/-- Induction on the groups of a list. -/
theorem groups_induction {motive : List α → Prop} (positive : 0 < size) (nil : motive [])
    (last : ∀ group, group ≠ [] → group.length < size → motive group)
    (full : ∀ group rest, group.length = size → motive rest → motive (group ++ rest)) (items : List α) :
    motive items := by
  induction bound : items.length using Nat.strongRecOn generalizing items with
  | _ total ih =>
    subst bound
    by_cases short : items.length < size
    · by_cases empty : items = []
      · rw [empty]
        exact nil
      · exact last items empty short
    · rw [← List.take_append_drop size items]
      apply full
      · rw [List.length_take]
        omega
      · apply ih _ _ _ rfl
        rw [List.length_drop]
        omega

theorem groups_append (positive : 0 < size) {group rest : List α} (whole : group.length = size) :
    groups size (group ++ rest) = group :: groups size rest := by
  have nonempty : group ++ rest ≠ [] := by
    intro empty
    rw [(List.append_eq_nil_iff.mp empty).1, List.length_nil] at whole
    omega
  rw [groups_cons positive nonempty, List.take_left' whole, List.drop_left' whole]

theorem groups_of_short (positive : 0 < size) {group : List α} (nonempty : group ≠ []) (short : group.length ≤ size) :
    groups size group = [group] := by
  rw [groups_cons positive nonempty, List.take_of_length_le short, List.drop_eq_nil_of_le short, groups_nil]

theorem flatten_groups (positive : 0 < size) (items : List α) : (groups size items).flatten = items := by
  induction items using groups_induction positive with
  | nil => rfl
  | last group nonempty short => rw [groups_of_short positive nonempty short.le, List.flatten_singleton]
  | full group rest whole ih => rw [groups_append positive whole, List.flatten_cons, ih]

theorem mem_groups (positive : 0 < size) {items group : List α} (member : group ∈ groups size items) :
    group ≠ [] ∧ group.length ≤ size := by
  induction items using groups_induction positive with
  | nil => cases member
  | last only nonempty short =>
    rw [groups_of_short positive nonempty short.le, List.mem_singleton] at member
    rw [member]
    exact ⟨nonempty, short.le⟩
  | full first rest whole ih =>
    rw [groups_append positive whole] at member
    rcases List.mem_cons.mp member with rfl | later
    · refine ⟨?_, whole.le⟩
      rintro rfl
      rw [List.length_nil] at whole
      omega
    · exact ih later

/-- A conversion of groups that keeps full groups full and short ones short, as lists of another size. -/
structure Fits (source target : ℕ) (convert : List α → List β) : Prop where
  full : ∀ group, group.length = source → (convert group).length = target
  short : ∀ group, group ≠ [] → group.length < source → convert group ≠ [] ∧ (convert group).length ≤ target

/-- What a conversion writes falls into the groups that it wrote. -/
theorem groups_flatMap {source target : ℕ} {convert : List α → List β} (fits : Fits source target convert)
    (some : 0 < source) (positive : 0 < target) (items : List α) :
    groups target ((groups source items).flatMap convert) = (groups source items).map convert := by
  induction items using groups_induction some with
  | nil => rfl
  | last group nonempty short =>
    rw [groups_of_short some nonempty short.le, List.flatMap_singleton, List.map_singleton]
    exact groups_of_short positive (fits.short group nonempty short).1 (fits.short group nonempty short).2
  | full group rest whole ih =>
    rw [groups_append some whole, List.flatMap_cons, List.map_cons, groups_append positive (fits.full group whole), ih]

theorem mapM_map_of_inverse {ε : Type} {convert : List α → List β} {revert : List β → Except ε (List α)}
    {lists : List (List α)} (inverse : ∀ list ∈ lists, revert (convert list) = .ok list) :
    (lists.map convert).mapM revert = .ok lists := by
  induction lists with
  | nil => rfl
  | cons list rest ih =>
    obtain ⟨first, later⟩ := List.forall_mem_cons.mp inverse
    rw [List.map_cons, List.mapM_cons, first, ih later]
    rfl

/-- Converting group by group is undone group by group. -/
theorem revert_convert {ε : Type} {source target : ℕ} {convert : List α → List β}
    {revert : List β → Except ε (List α)} (fits : Fits source target convert) (some : 0 < source)
    (positive : 0 < target)
    (inverse : ∀ group, group ≠ [] → group.length ≤ source → revert (convert group) = .ok group) (items : List α) :
    ((groups target ((groups source items).flatMap convert)).mapM revert).map List.flatten = .ok items := by
  rw [groups_flatMap fits some positive, mapM_map_of_inverse, Except.map, flatten_groups some]
  intro group member
  obtain ⟨nonempty, bound⟩ := mem_groups some member
  exact inverse group nonempty bound

end Libp2p.Library
