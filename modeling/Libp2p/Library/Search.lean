import Libp2p.Library.Words

/-! # Searching in lists

Positions of a list inside another one: the first at or after some place, and the last. A table that is inverse to a
list of symbols gives their positions at once.
-/

namespace Libp2p.Library

/-- A table gives every symbol the value of its place, if the values of the places are among its entries. -/
theorem getD_of_entries {α β : Type} {table : List β} {symbols : List α} {code : α → ℕ} {value : ℕ → β} {place : ℕ}
    {symbol : α} {absent : β} (listed : (symbols.zipIdx.map fun entry => (value entry.2, code entry.1)) ⊆ table.zipIdx)
    (inside : place < symbols.length) : table.getD (code (symbols.getD place symbol)) absent = value place := by
  have member : (symbols.getD place symbol, place) ∈ symbols.zipIdx := by
    rw [List.mk_mem_zipIdx_iff_getElem?, List.getD_eq_getElem?_getD, List.getElem?_eq_getElem inside, Option.getD_some]
  have entry := listed (List.mem_map_of_mem member)
  rw [List.mk_mem_zipIdx_iff_getElem?] at entry
  rw [List.getD_eq_getElem?_getD, entry, Option.getD_some]

/-- What is read from a table and is not the value for absent places is an entry of it. -/
theorem mem_zipIdx_of_getD {β : Type} {table : List β} {absent : β} {place : ℕ}
    (present : table.getD place absent ≠ absent) : (table.getD place absent, place) ∈ table.zipIdx := by
  rw [List.mk_mem_zipIdx_iff_getElem?]
  rw [List.getD_eq_getElem?_getD] at present ⊢
  cases entry : table[place]? with
  | none => exact absurd (by rw [entry, Option.getD_none]) present
  | some value => rw [Option.getD_some]

variable {α : Type} [DecidableEq α]

/-- The first position of `sub`. -/
def findFirst (sub : List α) : List α → Option ℕ
  | [] => if sub = [] then some 0 else none
  | item :: rest => if sub.isPrefixOf (item :: rest) then some 0 else (findFirst sub rest).map (· + 1)

/-- The first position of `sub` that is not before `from_`. -/
def findFrom (text sub : List α) (from_ : ℕ) : Option ℕ := (findFirst sub (text.drop from_)).map (from_ + ·)

/-- The last position of `sub`. -/
def findLast (sub : List α) : List α → Option ℕ
  | [] => if sub = [] then some 0 else none
  | item :: rest =>
    match findLast sub rest with
    | some position => some (position + 1)
    | none => if sub.isPrefixOf (item :: rest) then some 0 else none

section Last

variable {sub text : List α} {position : ℕ}

theorem findLast_eq_some (found : findLast sub text = some position) : sub <+: text.drop position := by
  induction text generalizing position with
  | nil =>
    unfold findLast at found
    split_ifs at found with empty
    rw [empty]
    exact List.nil_prefix
  | cons item rest ih =>
    unfold findLast at found
    rcases later : findLast sub rest with _ | further
    · rw [later] at found
      dsimp only at found
      split_ifs at found with here
      obtain rfl := Option.some.inj found
      exact List.isPrefixOf_iff_prefix.mp here
    · rw [later] at found
      obtain rfl := Option.some.inj found
      exact ih later

theorem length_of_findLast (found : findLast sub text = some position) : position + sub.length ≤ text.length := by
  induction text generalizing position with
  | nil =>
    unfold findLast at found
    split_ifs at found with empty
    obtain rfl := Option.some.inj found
    rw [empty]
    exact Nat.le_refl _
  | cons item rest ih =>
    unfold findLast at found
    rcases later : findLast sub rest with _ | further
    · rw [later] at found
      dsimp only at found
      split_ifs at found with here
      obtain rfl := Option.some.inj found
      simpa using (List.isPrefixOf_iff_prefix.mp here).length_le
    · rw [later] at found
      obtain rfl := Option.some.inj found
      have := ih later
      rw [List.length_cons]
      omega

/-- What a text ends with has its last place there. -/
theorem findLast_append (front : List α) : findLast sub (front ++ sub) = some front.length := by
  induction front with
  | nil =>
    rcases sub with _ | ⟨item, rest⟩
    · rfl
    · have shorter : findLast (item :: rest) rest = none := by
        refine Option.eq_none_iff_forall_ne_some.mpr fun position found => ?_
        have within := length_of_findLast found
        rw [List.length_cons] at within
        omega
      rw [List.nil_append, findLast, shorter, if_pos (List.isPrefixOf_iff_prefix.mpr List.prefix_rfl)]
      rfl
  | cons item rest ih => rw [List.cons_append, findLast, ih, List.length_cons]

end Last

section Parts

variable {separator : α} {pattern word name front : List α} {words : List (List α)}

omit [DecidableEq α]

/-- A prefix without separators of a joined text is one of its first word. -/
theorem prefix_joined_iff (plain : separator ∉ pattern) : pattern <+: word ++ joined separator words ↔ pattern <+: word := by
  constructor
  · intro within
    rcases List.prefix_or_prefix_of_prefix within (List.prefix_append word _) with small | ⟨rest, rfl⟩
    · exact small
    · rw [List.prefix_append_right_inj] at within
      rcases rest with _ | ⟨item, rest⟩
      · simp
      · exfalso
        rcases words with _ | ⟨next, words⟩
        · exact absurd (List.prefix_nil.mp within) (List.cons_ne_nil _ _)
        · rw [joined_cons, List.cons_prefix_cons] at within
          exact plain (by simp [within.1])
  · exact fun small => small.trans (List.prefix_append _ _)

/-- The same for a prefix that ends with a separator: it is the whole first word, and there is another one. -/
theorem word_joined_iff (named : separator ∉ name) (plain : separator ∉ word) :
    name ++ [separator] <+: word ++ joined separator words ↔ word = name ∧ words ≠ [] := by
  constructor
  · intro within
    have short := (prefix_joined_iff named).mp ((List.prefix_append name [separator]).trans within)
    obtain ⟨rest, rfl⟩ := short
    rw [List.append_assoc, List.prefix_append_right_inj] at within
    rcases rest with _ | ⟨item, rest⟩
    · refine ⟨List.append_nil _, ?_⟩
      rintro rfl
      exact absurd (List.prefix_nil.mp within) (List.cons_ne_nil _ _)
    · rw [List.cons_append, List.cons_prefix_cons] at within
      exact absurd (by simp [within.1]) plain
  · rintro ⟨rfl, some_⟩
    obtain ⟨next, words, rfl⟩ := List.exists_cons_of_ne_nil some_
    rw [List.prefix_append_right_inj, joined_cons, List.cons_prefix_cons]
    exact ⟨rfl, List.nil_prefix⟩

/-- A part without separators that ends a text ends its last word. -/
theorem suffix_append_cons_iff (named : separator ∉ name) :
    name <:+ front ++ separator :: word ↔ name <:+ word := by
  constructor
  · intro ended
    rcases List.suffix_or_suffix_of_suffix ended (List.suffix_append front (separator :: word)) with small | ⟨rest, rfl⟩
    · rcases List.suffix_cons_iff.mp small with rfl | within
      · exact absurd List.mem_cons_self named
      · exact within
    · exact absurd (by simp) named
  · exact fun within => (within.trans (List.suffix_cons _ _)).trans (List.suffix_append _ _)

end Parts

section Words

variable {separator : α} {pattern word : List α} {words : List (List α)}

/-- What starts with the separator is not found in a part without one. -/
theorem findFirst_append_plain {front text : List α} (plain : separator ∉ front) :
    findFirst (separator :: pattern) (front ++ text) =
      (findFirst (separator :: pattern) text).map (front.length + ·) := by
  induction front with
  | nil => simp
  | cons item rest ih =>
    have different : separator ≠ item := fun same => plain (same ▸ List.mem_cons_self)
    have missing : (separator :: pattern).isPrefixOf (item :: (rest ++ text)) = false := by
      simp [List.isPrefixOf, different]
    rw [List.cons_append, findFirst, missing, if_neg (by decide),
      ih fun member => plain (List.mem_cons_of_mem _ member), Option.map_map]
    congr 1
    funext position
    simp only [Function.comp_apply, List.length_cons]
    omega

/-- A pattern behind the separator is found where a word starts with it, or behind that word. -/
theorem findFirst_joined_here (start : pattern <+: word ++ joined separator words) :
    findFirst (separator :: pattern) (joined separator (word :: words)) = some 0 := by
  rw [joined_cons, findFirst, if_pos]
  exact List.isPrefixOf_iff_prefix.mpr (List.prefix_cons_inj _ |>.mpr start)

theorem findFirst_joined_later (plain : separator ∉ word) (other : ¬ pattern <+: word ++ joined separator words) :
    findFirst (separator :: pattern) (joined separator (word :: words)) =
      (findFirst (separator :: pattern) (joined separator words)).map (word.length + 1 + ·) := by
  rw [joined_cons, findFirst, if_neg, findFirst_append_plain plain, Option.map_map]
  · congr 1
    funext position
    simp only [Function.comp_apply]
    omega
  · exact fun start => other (List.prefix_cons_inj _ |>.mp (List.isPrefixOf_iff_prefix.mp start))

/-- A search goes on behind a part without separators. -/
theorem findFrom_append_plain {front part text : List α} (plain : separator ∉ part) :
    findFrom (front ++ (part ++ text)) (separator :: pattern) front.length =
      findFrom (front ++ part ++ text) (separator :: pattern) (front ++ part).length := by
  unfold findFrom
  rw [List.drop_left, List.drop_left, findFirst_append_plain plain, Option.map_map]
  congr 1
  funext position
  simp only [Function.comp_apply, List.length_append]
  omega

theorem findFrom_here {front text : List α} (here : pattern <+: text) :
    findFrom (front ++ text) pattern front.length = some front.length := by
  have found : findFirst pattern text = some 0 := by
    cases text with
    | nil => rw [findFirst, if_pos (List.prefix_nil.mp here)]
    | cons item rest => rw [findFirst, if_pos (List.isPrefixOf_iff_prefix.mpr here)]
  unfold findFrom
  rw [List.drop_left, found]
  rfl

/-- The next separator stands behind the next word, if there is another one. -/
theorem findFrom_joined {front : List α} (plain : separator ∉ word) :
    findFrom (front ++ joined separator (word :: words)) [separator] (front.length + 1) =
      if words = [] then none else some (front ++ joined separator [word]).length := by
  have searched := @findFrom_append_plain _ _ separator [] (front ++ [separator]) word (joined separator words) plain
  have spelled : front ++ [separator] ++ (word ++ joined separator words) = front ++ joined separator (word :: words) := by
    simp
  have parted : front ++ joined separator [word] = front ++ [separator] ++ word := by simp
  have position : (front ++ [separator]).length = front.length + 1 := List.length_append
  rw [spelled, position] at searched
  rw [searched, parted]
  cases words with
  | nil =>
    rw [if_pos rfl]
    unfold findFrom
    rw [List.drop_left]
    rfl
  | cons next rest =>
    rw [if_neg (List.cons_ne_nil _ _)]
    exact findFrom_here (by simp)

/-- Nothing behind a separator is found exactly when no word starts with it. -/
theorem findFirst_joined_eq_none (named : separator ∉ pattern) (plain : ∀ word ∈ words, separator ∉ word) :
    findFirst (separator :: pattern) (joined separator words) = none ↔ ∀ word ∈ words, ¬ pattern <+: word := by
  induction words with
  | nil => simp [findFirst]
  | cons word rest ih =>
    rw [List.forall_mem_cons]
    by_cases here : pattern <+: word ++ joined separator rest
    · rw [findFirst_joined_here here]
      exact iff_of_false (by simp) fun none => none.1 ((prefix_joined_iff named).mp here)
    · rw [findFirst_joined_later (plain word List.mem_cons_self) here, Option.map_eq_none_iff,
        ih fun other member => plain other (List.mem_cons_of_mem _ member)]
      exact (and_iff_right (mt (prefix_joined_iff named).mpr here)).symm

/-- A name between separators is found exactly when it is a word other than the last. -/
theorem findFirst_joined_isSome {name : List α} (named : separator ∉ name) (plain : ∀ word ∈ words, separator ∉ word) :
    (findFirst (separator :: (name ++ [separator])) (joined separator words)).isSome ↔ name ∈ words.dropLast := by
  induction words with
  | nil => simp [findFirst]
  | cons word rest ih =>
    have later := ih fun other member => plain other (List.mem_cons_of_mem _ member)
    have whole := @word_joined_iff _ _ word name rest named (plain word List.mem_cons_self)
    by_cases here : name ++ [separator] <+: word ++ joined separator rest
    · obtain ⟨rfl, some_⟩ := whole.mp here
      obtain ⟨next, rest, rfl⟩ := List.exists_cons_of_ne_nil some_
      rw [findFirst_joined_here here]
      simp
    · rw [findFirst_joined_later (plain word List.mem_cons_self) here, Option.isSome_map, later]
      rcases rest with _ | ⟨next, rest⟩
      · rfl
      · have other : ¬ name = word := fun equal => here (whole.mpr ⟨equal.symm, List.cons_ne_nil _ _⟩)
        rw [List.dropLast_cons_cons, List.mem_cons]
        exact (or_iff_right other).symm

end Words

end Libp2p.Library
