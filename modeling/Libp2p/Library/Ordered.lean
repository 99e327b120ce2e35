import Mathlib.Data.List.Basic
import Mathlib.Order.Defs.Unbundled
import Mathlib.Tactic.Common

/-! # Ordered sets

An ordered set is a list that strictly increases. Values that the order does not tell apart are one value to the set, and
the one that came first stays; where the order is total the operations are those of sets. The intersection walks over both
lists at once.
-/

namespace Libp2p.Library

/-- A set that is visited in ascending order. -/
structure OrderedSet (α : Type) [LT α] where
  elements : List α
  ascending : elements.Pairwise (· < ·)

namespace OrderedSet

variable {α : Type} [LT α]

instance : Membership α (OrderedSet α) := ⟨fun set value => value ∈ set.elements⟩

instance [DecidableEq α] (value : α) (set : OrderedSet α) : Decidable (value ∈ set) :=
  inferInstanceAs (Decidable (value ∈ set.elements))

instance : EmptyCollection (OrderedSet α) := ⟨⟨[], .nil⟩⟩

def isEmpty (set : OrderedSet α) : Bool := set.elements.isEmpty

theorem not_mem_empty (value : α) : value ∉ (∅ : OrderedSet α) := List.not_mem_nil

theorem isEmpty_iff {set : OrderedSet α} : set.isEmpty ↔ ∀ value, value ∉ set := by
  rw [isEmpty, List.isEmpty_iff, List.eq_nil_iff_forall_not_mem]
  rfl

variable [DecidableLT α]

/-- The place of a value is in front of the first greater one. -/
def insertLoop (value : α) : List α → List α
  | [] => [value]
  | first :: rest =>
    if value < first then value :: first :: rest
    else if first < value then first :: insertLoop value rest
    else first :: rest

/-- What the order does not tell apart from the value is removed. -/
def eraseLoop (value : α) (elements : List α) : List α :=
  elements.filter fun other => other < value ∨ value < other

/-- `set_intersection`: the values of the first list that the second one has as well; both are walked over once. -/
def intersection : List α → List α → List α
  | [], _ => []
  | value :: rest, others =>
    match others.dropWhile (· < value) with
    | [] => []
    | other :: others => if value < other then intersection rest (other :: others) else value :: intersection rest others

variable {value other : α} {elements others : List α}

section Loops

theorem mem_of_mem_insertLoop (member : other ∈ insertLoop value elements) : other = value ∨ other ∈ elements := by
  induction elements with
  | nil => exact .inl (List.mem_singleton.mp member)
  | cons first rest ih =>
    rw [insertLoop] at member
    split_ifs at member
    · exact List.mem_cons.mp member
    · rcases List.mem_cons.mp member with rfl | later
      · exact .inr (List.mem_cons_self ..)
      · exact (ih later).imp_right (List.mem_cons_of_mem _)
    · exact .inr member

theorem mem_insertLoop_of_mem (member : other ∈ elements) : other ∈ insertLoop value elements := by
  induction elements with
  | nil => cases member
  | cons first rest ih =>
    rw [insertLoop]
    split_ifs
    · exact List.mem_cons_of_mem _ member
    · rcases List.mem_cons.mp member with rfl | later
      · exact List.mem_cons_self ..
      · exact List.mem_cons_of_mem _ (ih later)
    · exact member

variable [IsTrans α (· < ·)]

theorem ascending_insertLoop (ascending : elements.Pairwise (· < ·)) :
    (insertLoop value elements).Pairwise (· < ·) := by
  induction elements with
  | nil => exact List.pairwise_singleton _ _
  | cons first rest ih =>
    obtain ⟨least, sorted⟩ := List.pairwise_cons.mp ascending
    rw [insertLoop]
    split_ifs with before after
    · refine List.pairwise_cons.mpr ⟨fun other member => ?_, ascending⟩
      rcases List.mem_cons.mp member with rfl | later
      · exact before
      · exact IsTrans.trans _ _ _ before (least other later)
    · refine List.pairwise_cons.mpr ⟨fun other member => ?_, ih sorted⟩
      rcases mem_of_mem_insertLoop member with rfl | later
      · exact after
      · exact least other later
    · exact ascending

/-- A value is added when the order tells it apart from all others. -/
theorem mem_insertLoop_self [Std.Irrefl (α := α) (· < ·)] (ascending : elements.Pairwise (· < ·)) :
    value ∈ insertLoop value elements ↔ value ∈ elements ∨ ∀ other ∈ elements, value < other ∨ other < value := by
  induction elements with
  | nil => simp [insertLoop]
  | cons first rest ih =>
    obtain ⟨least, sorted⟩ := List.pairwise_cons.mp ascending
    rw [insertLoop]
    split_ifs with before after
    · refine iff_of_true (List.mem_cons_self ..) (.inr fun other member => .inl ?_)
      rcases List.mem_cons.mp member with rfl | later
      · exact before
      · exact IsTrans.trans _ _ _ before (least other later)
    · have different : value ≠ first := by
        rintro rfl
        exact before after
      rw [List.mem_cons, List.mem_cons, ih sorted, or_iff_right different, or_iff_right different, List.forall_mem_cons,
        and_iff_right (.inr after)]
    · refine ⟨.inl, fun present => present.elim id fun apart => ?_⟩
      exact ((apart first (List.mem_cons_self ..)).elim before after).elim

end Loops

section Intersection

/-- What is below a value is in neither of two lists that begin at it. -/
theorem mem_dropWhile_iff (ascending : elements.Pairwise (· < ·)) (large : ¬ other < value) :
    other ∈ elements.dropWhile (· < value) ↔ other ∈ elements := by
  induction elements with
  | nil => rfl
  | cons first rest ih =>
    rw [List.dropWhile_cons]
    split_ifs with small
    · rw [ih (List.pairwise_cons.mp ascending).2, List.mem_cons]
      refine (or_iff_right ?_).symm
      rintro rfl
      exact large (of_decide_eq_true small)
    · rfl

variable [Std.Asymm (α := α) (· < ·)] [Std.Trichotomous (α := α) (· < ·)] [DecidableEq α]

/-- The walk over both lists finds the common values, in their order. -/
theorem intersection_eq (first : elements.Pairwise (· < ·)) (second : others.Pairwise (· < ·)) :
    intersection elements others = elements.filter (· ∈ others) := by
  induction elements generalizing others with
  | nil => rfl
  | cons value rest ih =>
    obtain ⟨least, sorted⟩ := List.pairwise_cons.mp first
    have large : ∀ other ∈ value :: rest, ¬ other < value := by
      rintro other member below
      rcases List.mem_cons.mp member with rfl | later
      · exact Std.Asymm.asymm _ _ below below
      · exact Std.Asymm.asymm _ _ below (least other later)
    have same : (value :: rest).filter (· ∈ others) = (value :: rest).filter (· ∈ others.dropWhile (· < value)) :=
      List.filter_congr fun other member => decide_eq_decide.mpr (mem_dropWhile_iff second (large other member)).symm
    have ascending : (others.dropWhile (· < value)).Pairwise (· < ·) := second.sublist (List.dropWhile_sublist _)
    rw [same, intersection]
    rcases dropped : others.dropWhile (· < value) with _ | ⟨other, later⟩
    · simp
    · rw [dropped] at ascending
      obtain ⟨next, ending⟩ := List.pairwise_cons.mp ascending
      have reached : ¬ other < value := by
        have head := List.head?_dropWhile_not (· < value) others
        rw [dropped] at head
        simpa using head
      dsimp only
      split_ifs with behind
      · have absent : value ∉ other :: later := by
          rintro member
          rcases List.mem_cons.mp member with rfl | member
          · exact reached behind
          · exact Std.Asymm.asymm _ _ behind (next value member)
        rw [ih sorted ascending, List.filter_cons_of_neg (by simpa using absent)]
      · obtain rfl : value = other := Std.Trichotomous.trichotomous _ _ behind reached
        rw [ih sorted ending, List.filter_cons_of_pos (by simp)]
        refine congrArg _ (List.filter_congr fun other member => decide_eq_decide.mpr ?_)
        refine (List.mem_cons.trans (or_iff_right ?_)).symm
        rintro rfl
        exact Std.Asymm.asymm _ _ (least _ member) (least _ member)

end Intersection

section Sets

/-- `erase`. -/
def erase (set : OrderedSet α) (value : α) : OrderedSet α :=
  ⟨eraseLoop value set.elements, set.ascending.filter _⟩

variable {set : OrderedSet α} {values : List α}

variable [Std.Asymm (α := α) (· < ·)] [Std.Trichotomous (α := α) (· < ·)]

theorem mem_erase : other ∈ set.erase value ↔ other ≠ value ∧ other ∈ set := by
  have apart : (other < value ∨ value < other) ↔ other ≠ value := by
    constructor
    · rintro (below | above) rfl
      · exact Std.Asymm.asymm _ _ below below
      · exact Std.Asymm.asymm _ _ above above
    · intro different
      by_contra same
      rw [not_or] at same
      exact different (Std.Trichotomous.trichotomous _ _ same.1 same.2)
  refine (List.mem_filter.trans ?_).trans and_comm
  rw [decide_eq_true_iff, apart]
  rfl

theorem mem_eraseAll : other ∈ values.foldl erase set ↔ other ∉ values ∧ other ∈ set := by
  induction values generalizing set with
  | nil => simp
  | cons value rest ih => simp only [List.foldl_cons, ih, mem_erase, List.mem_cons, not_or, and_assoc, and_left_comm]

variable [IsTrans α (· < ·)]

omit [Std.Asymm (α := α) (· < ·)] [Std.Trichotomous (α := α) (· < ·)] in
/-- `insert`. -/
def insert (set : OrderedSet α) (value : α) : OrderedSet α :=
  ⟨insertLoop value set.elements, ascending_insertLoop set.ascending⟩

theorem mem_insert : other ∈ set.insert value ↔ other = value ∨ other ∈ set := by
  constructor
  · exact mem_of_mem_insertLoop
  · rintro (rfl | member)
    · refine (mem_insertLoop_self set.ascending).mpr ?_
      by_cases present : other ∈ set.elements
      · exact .inl present
      · refine .inr fun first member => ?_
        by_contra same
        rw [not_or] at same
        obtain rfl := Std.Trichotomous.trichotomous _ _ same.1 same.2
        exact present member
    · exact mem_insertLoop_of_mem member

theorem mem_insertAll : other ∈ values.foldl insert set ↔ other ∈ values ∨ other ∈ set := by
  induction values generalizing set with
  | nil => simp
  | cons value rest ih => simp only [List.foldl_cons, ih, mem_insert, List.mem_cons, or_left_comm, or_assoc]

end Sets

end OrderedSet

end Libp2p.Library
