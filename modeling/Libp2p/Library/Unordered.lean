import Mathlib.Data.List.AList
import Mathlib.Tactic.Common

/-! # Unordered containers

An unordered set is a list without duplicates and an unordered map is an association list without duplicate
keys; both lists are only one of the orders in which the container may be visited. The lemmas describe the
operations through membership and lookup, which do not depend on that order.
-/

namespace Libp2p.Library

/-- A finite set with a chosen order of its elements. -/
structure UnorderedSet (α : Type) where
  elements : List α
  nodup : elements.Nodup

namespace UnorderedSet

variable {α : Type}

instance : Membership α (UnorderedSet α) := ⟨fun set value => value ∈ set.elements⟩

instance [DecidableEq α] (value : α) (set : UnorderedSet α) : Decidable (value ∈ set) :=
  inferInstanceAs (Decidable (value ∈ set.elements))

instance : EmptyCollection (UnorderedSet α) := ⟨⟨[], List.nodup_nil⟩⟩

def size (set : UnorderedSet α) : ℕ := set.elements.length

/-- `emplace`: the value is added unless it is present. -/
def insert [DecidableEq α] (set : UnorderedSet α) (value : α) : UnorderedSet α :=
  ⟨set.elements.insert value, set.nodup.insert⟩

def erase [DecidableEq α] (set : UnorderedSet α) (value : α) : UnorderedSet α :=
  ⟨set.elements.erase value, set.nodup.erase value⟩

/-- `retainIf`. -/
def retain (set : UnorderedSet α) (keep : α → Bool) : UnorderedSet α :=
  ⟨set.elements.filter keep, set.nodup.filter keep⟩

theorem mem_elements {value : α} {set : UnorderedSet α} : value ∈ set.elements ↔ value ∈ set := .rfl

@[simp] theorem not_mem_empty (value : α) : value ∉ (∅ : UnorderedSet α) := List.not_mem_nil

@[simp] theorem mem_insert [DecidableEq α] {value other : α} {set : UnorderedSet α} :
    other ∈ set.insert value ↔ other = value ∨ other ∈ set := List.mem_insert_iff

@[simp] theorem mem_erase [DecidableEq α] {value other : α} {set : UnorderedSet α} :
    other ∈ set.erase value ↔ other ≠ value ∧ other ∈ set := set.nodup.mem_erase_iff

@[simp] theorem mem_retain {value : α} {set : UnorderedSet α} {keep : α → Bool} :
    value ∈ set.retain keep ↔ value ∈ set ∧ keep value := List.mem_filter

section Many

variable [DecidableEq α] {set : UnorderedSet α} {values : List α} {value : α}

theorem elements_insert (absent : value ∉ set) : (set.insert value).elements = value :: set.elements :=
  List.insert_of_not_mem absent

theorem mem_insertAll {other : α} : other ∈ values.foldl insert set ↔ other ∈ values ∨ other ∈ set := by
  induction values generalizing set with
  | nil => simp
  | cons value rest ih => simp only [List.foldl_cons, ih, mem_insert, List.mem_cons, or_left_comm, or_assoc]

/-- Distinct new values are counted on top of the others. -/
theorem countP_insertAll {counts : α → Bool} (distinct : values.Nodup) (absent : ∀ value ∈ values, value ∉ set) :
    (values.foldl insert set).elements.countP counts = values.countP counts + set.elements.countP counts := by
  induction values generalizing set with
  | nil => simp
  | cons value rest ih =>
    obtain ⟨fresh, distinct⟩ := List.nodup_cons.mp distinct
    obtain ⟨new, absent⟩ := List.forall_mem_cons.mp absent
    have later : ∀ other ∈ rest, other ∉ set.insert value := by
      intro other member inside
      rcases mem_insert.mp inside with rfl | old
      · exact fresh member
      · exact absent other member old
    rw [List.foldl_cons, ih distinct later, elements_insert new, List.countP_cons, List.countP_cons]
    omega

theorem mem_eraseAll {other : α} : other ∈ values.foldl erase set ↔ other ∉ values ∧ other ∈ set := by
  induction values generalizing set with
  | nil => simp
  | cons value rest ih => simp only [List.foldl_cons, ih, mem_erase, List.mem_cons, not_or, and_assoc, and_left_comm]

/-- Distinct values of a set are no longer counted after they were erased. -/
theorem countP_eraseAll {counts : α → Bool} (distinct : values.Nodup) (present : ∀ value ∈ values, value ∈ set) :
    (values.foldl erase set).elements.countP counts + values.countP counts = set.elements.countP counts := by
  induction values generalizing set with
  | nil => simp
  | cons value rest ih =>
    obtain ⟨fresh, distinct⟩ := List.nodup_cons.mp distinct
    obtain ⟨old, present⟩ := List.forall_mem_cons.mp present
    have later : ∀ other ∈ rest, other ∈ set.erase value :=
      fun other member => mem_erase.mpr ⟨fun same => fresh (same ▸ member), present other member⟩
    have split := (List.perm_cons_erase old).countP_eq counts
    have erased := ih distinct later
    rw [List.countP_cons] at split ⊢
    rw [List.foldl_cons]
    change _ + _ = (set.elements.erase value).countP counts at erased
    omega

end Many

theorem size_eq_countP (set : UnorderedSet α) : set.size = set.elements.countP fun _ => true := by
  simp [size]

end UnorderedSet

/-- A finite map with a chosen order of its entries. -/
abbrev UnorderedMap (α β : Type) := AList fun _ : α => β

namespace UnorderedMap

variable {α β : Type} [DecidableEq α] {map : UnorderedMap α β} {key other : α}

/-- `emplace`: the entry is added unless the key is present. -/
def emplace (map : UnorderedMap α β) (key : α) (value : β) : UnorderedMap α β :=
  if key ∈ map then map else map.insert key value

/-- Change the value of a key that is present. -/
def modify (map : UnorderedMap α β) (key : α) (change : β → β) : UnorderedMap α β :=
  match map.lookup key with
  | none => map
  | some value => map.insert key (change value)

theorem lookup_insert_eq (value : β) :
    (map.insert key value).lookup other = if other = key then some value else map.lookup other := by
  split_ifs with same
  · rw [same, AList.lookup_insert]
  · exact AList.lookup_insert_ne same

theorem lookup_erase_eq : (map.erase key).lookup other = if other = key then none else map.lookup other := by
  split_ifs with same
  · rw [same, AList.lookup_erase]
  · exact AList.lookup_erase_ne same

theorem lookup_emplace (value : β) :
    (emplace map key value).lookup other =
      if other = key then some ((map.lookup key).getD value) else map.lookup other := by
  unfold emplace
  by_cases present : key ∈ map
  · obtain ⟨old, found⟩ := Option.isSome_iff_exists.mp (AList.lookup_isSome.mpr present)
    rw [if_pos present, found]
    split_ifs with same
    · rw [same, found]
      rfl
    · rfl
  · rw [if_neg present, lookup_insert_eq, AList.lookup_eq_none.mpr present]
    rfl

theorem lookup_modify (change : β → β) :
    (modify map key change).lookup other =
      if other = key then (map.lookup key).map change else map.lookup other := by
  unfold modify
  cases found : map.lookup key with
  | none =>
    split_ifs with same
    · rw [same, found]
      rfl
    · rfl
  | some value => rw [lookup_insert_eq]; rfl

theorem lookup_foldl_erase {keys : List α} : (keys.foldl (fun map key => map.erase key) map).lookup other =
    if other ∈ keys then none else map.lookup other := by
  induction keys generalizing map with
  | nil => simp
  | cons first rest ih =>
    rw [List.foldl_cons, ih, lookup_erase_eq]
    by_cases same : other = first
    · simp [same]
    · simp [same]

/-- The loops that erase entries while they visit them. -/
def eraseIf (map : UnorderedMap α β) (drop : β → Bool) : UnorderedMap α β :=
  ((map.entries.filter fun entry => drop entry.2).map Sigma.fst).foldl (fun map key => map.erase key) map

theorem lookup_eraseIf {drop : β → Bool} :
    (eraseIf map drop).lookup key = (map.lookup key).filter fun value => !drop value := by
  have dropped : key ∈ (map.entries.filter fun entry => drop entry.2).map Sigma.fst ↔
      ∃ value, map.lookup key = some value ∧ drop value := by
    constructor
    · intro member
      obtain ⟨⟨other, value⟩, kept, rfl⟩ := List.mem_map.mp member
      obtain ⟨stored, chosen⟩ := List.mem_filter.mp kept
      exact ⟨value, AList.mem_lookup_iff.mpr stored, chosen⟩
    · rintro ⟨value, found, chosen⟩
      exact List.mem_map.mpr ⟨⟨key, value⟩, List.mem_filter.mpr ⟨AList.mem_lookup_iff.mp found, chosen⟩, rfl⟩
  unfold eraseIf
  rw [lookup_foldl_erase]
  rcases found : map.lookup key with _ | value
  · simp
  · simp only [dropped, found, Option.some.injEq, exists_eq_left', Option.filter_some, Bool.not_eq_true']
    split_ifs with chosen kept kept
    · rw [chosen] at kept
      cases kept
    · rfl
    · rfl
    · exact (kept (by simpa using chosen)).elim

/-- Changing the values of distinct keys one after the other changes each of them once. -/
theorem lookup_foldl_modify {keys : List α} (distinct : keys.Nodup) (change : α → β → β) :
    (keys.foldl (fun map key => modify map key (change key)) map).lookup other =
      if other ∈ keys then (map.lookup other).map (change other) else map.lookup other := by
  induction keys generalizing map with
  | nil => simp
  | cons first rest ih =>
    obtain ⟨fresh, distinct⟩ := List.nodup_cons.mp distinct
    rw [List.foldl_cons, ih distinct, lookup_modify]
    by_cases same : other = first
    · subst same
      simp [fresh]
    · simp [same]

theorem mem_of_lookup {value : β} (found : map.lookup key = some value) : key ∈ map :=
  AList.lookup_isSome.mp (by rw [found]; rfl)

theorem exists_lookup_of_mem (present : key ∈ map) : ∃ value, map.lookup key = some value :=
  Option.isSome_iff_exists.mp (AList.lookup_isSome.mpr present)

end UnorderedMap

end Libp2p.Library
