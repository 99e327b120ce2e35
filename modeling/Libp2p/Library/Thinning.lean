import Mathlib.Algebra.Order.Group.Nat
import Mathlib.Data.List.Basic

/-! # Thinning a list under a quota

Items are taken from the front of a list until there are no longer too many. Some items are guarded, and of those a
number stays whatever the order of the list is.
-/

namespace Libp2p.Library

variable {α : Type} {guarded : α → Bool} {keep : ℕ} {present surplus : ℕ} {items more : List α}

/-- Take items from the front while there are too many. A guarded item is passed over once no more than `keep` guarded
ones are present. -/
def thin (guarded : α → Bool) (keep : ℕ) : ℕ → ℕ → List α → List α
  | _, _, [] => []
  | present, surplus, item :: rest =>
    if surplus = 0 then []
    else if guarded item then
      if present ≤ keep then thin guarded keep present surplus rest
      else item :: thin guarded keep (present - 1) (surplus - 1) rest
    else item :: thin guarded keep present (surplus - 1) rest

variable {item : α} {rest : List α}

theorem thin_cons : thin guarded keep present surplus (item :: rest) =
    if surplus = 0 then []
    else if guarded item then
      if present ≤ keep then thin guarded keep present surplus rest
      else item :: thin guarded keep (present - 1) (surplus - 1) rest
    else item :: thin guarded keep present (surplus - 1) rest := rfl

theorem thin_zero : thin guarded keep present 0 items = [] := by
  cases items <;> rfl

theorem thin_sublist : (thin guarded keep present surplus items).Sublist items := by
  induction items generalizing present surplus with
  | nil => exact .refl _
  | cons item rest ih =>
    rw [thin_cons]
    split_ifs
    · exact List.nil_sublist _
    · exact ih.cons item
    · exact ih.cons_cons item
    · exact ih.cons_cons item

/-- As many items are taken as there are too many, unless the items that may be taken run out. -/
theorem length_thin : (thin guarded keep present surplus items).length =
    min surplus (items.countP (fun item => ! guarded item) + min (items.countP guarded) (present - keep)) := by
  induction items generalizing present surplus with
  | nil =>
    change 0 = min surplus (0 + min 0 (present - keep))
    omega
  | cons item rest ih =>
    cases surplus with
    | zero => rw [thin_zero, Nat.zero_min, List.length_nil]
    | succ surplus =>
      rw [thin_cons, if_neg (Nat.succ_ne_zero _), Nat.succ_sub_one]
      by_cases kind : guarded item
      · rw [if_pos kind, List.countP_cons_of_neg (by simpa using kind), List.countP_cons_of_pos kind]
        split_ifs
        · rw [ih]
          omega
        · rw [List.length_cons, ih]
          omega
      · rw [if_neg kind, List.countP_cons_of_pos (by simpa using kind), List.countP_cons_of_neg kind, List.length_cons, ih]
        omega

/-- No more guarded items are taken than there are above the number that stays. -/
theorem countP_thin_le : (thin guarded keep present surplus items).countP guarded ≤ present - keep := by
  induction items generalizing present surplus with
  | nil => exact Nat.zero_le _
  | cons item rest ih =>
    rw [thin_cons]
    split_ifs with none_ kind few
    · exact Nat.zero_le _
    · exact ih
    · have fewer := @ih (present - 1) (surplus - 1)
      rw [List.countP_cons_of_pos kind]
      omega
    · rw [List.countP_cons_of_neg kind]
      exact ih

theorem length_thin_le : (thin guarded keep present surplus items).length ≤ surplus :=
  length_thin.le.trans (min_le_left _ _)

theorem countP_guarded (items : List α) : items.length = items.countP (fun item => ! guarded item) + items.countP guarded := by
  rw [List.length_eq_countP_add_countP guarded, Nat.add_comm]
  simp only [Bool.not_eq_true, Bool.decide_eq_false]

/-- The same bounds hold for the items of one kind. -/
theorem countP_kind_thin_le (kind : α → Bool) : (thin guarded keep present surplus items).countP kind ≤
    min surplus ((items.filter kind).countP (fun item => ! guarded item) +
      min ((items.filter kind).countP guarded) (present - keep)) := by
  have part : ((thin guarded keep present surplus items).filter kind).Sublist (items.filter kind) := thin_sublist.filter kind
  have split := @countP_guarded _ guarded ((thin guarded keep present surplus items).filter kind)
  have plain := @List.Sublist.countP_le _ (fun item => ! guarded item) _ _ part
  have guards := @List.Sublist.countP_le _ guarded _ _ part
  have few : ((thin guarded keep present surplus items).filter kind).countP guarded ≤ present - keep :=
    List.filter_sublist.countP_le.trans countP_thin_le
  have short : (thin guarded keep present surplus items).countP kind ≤ surplus := List.countP_le_length.trans length_thin_le
  rw [List.countP_eq_length_filter] at short ⊢
  omega

/-- What stands at the front is taken first. -/
theorem thin_prefix : thin guarded keep present surplus items <+: thin guarded keep present surplus (items ++ more) := by
  induction items generalizing present surplus with
  | nil => exact List.nil_prefix
  | cons item rest ih =>
    rw [List.cons_append, thin_cons, thin_cons]
    split_ifs
    · exact List.prefix_rfl
    · exact ih
    · exact (List.prefix_cons_inj item).mpr ih
    · exact (List.prefix_cons_inj item).mpr ih

end Libp2p.Library
