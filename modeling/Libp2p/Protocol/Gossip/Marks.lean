import Libp2p.Library.Run
import Libp2p.Protocol.Gossip.TimeCache
import Mathlib.Data.Finset.Card

/-! # Marks of unwanted messages

A bounded set whose entries expire is a queue: a new mark goes to the back, a purge and an eviction take from the front.
A mark therefore stays until it expires or until as many other marks as the set holds have been entered behind it. An
insertion of a mark that is there changes nothing, so what counts is the insertion that entered the mark.
-/

namespace Libp2p.Gossip

open Library

variable {K : Type} [DecidableEq K]

namespace TimeCache

variable {cache : TimeCache K Unit} {key : K} {now : Time}

/-- The map and the queue have the same size. -/
theorem size_eq (cache : TimeCache K Unit) : cache.size = cache.expirations.length := by
  have same : cache.map.keys.Perm (cache.expirations.map Prod.snd) :=
    (List.perm_ext_iff_of_nodup cache.map.nodupKeys cache.distinct).mpr fun key => cache.tracked key
  have lengths := same.length_eq
  rwa [List.length_map, AList.keys, List.keys, List.length_map] at lengths

theorem popFront_of_ne_nil (some_ : cache.expirations ≠ []) : cache.popFront = some cache.dropFront := if_neg some_

/-- What is queued after an absent key was given a default, and for how long. -/
theorem getOrDefault_absent (absent : key ∉ cache.map) : (cache.getOrDefault key () now).ttl = cache.ttl ∧
    (cache.getOrDefault key () now).expirations =
      (cache.expirations.dropWhile fun entry => entry.1 ≤ now) ++ [(now + cache.ttl, key)] :=
  ⟨getOrDefault_ttl, by rw [getOrDefault_expirations absent, clearExpired_expirations]⟩

theorem absent_dropFront (absent : key ∉ cache.map) : key ∉ cache.dropFront.map := by
  rw [tracked, dropFront_expirations]
  rw [tracked] at absent
  exact fun member => absent ((List.tail_sublist _).map Prod.snd |>.subset member)

end TimeCache

/-- What is done to the marks of a peer, with the reading of the clock. -/
inductive MarkOp (K : Type) where
  | insert (key : K) (now : Time)
  | clearExpired (now : Time)

namespace MarkOp

def now : MarkOp K → Time
  | insert _ now => now
  | clearExpired now => now

def key : MarkOp K → Option K
  | insert key _ => some key
  | clearExpired _ => none

/-- The other keys that the operations insert. -/
def others (key : K) (ops : List (MarkOp K)) : Finset K := (ops.filterMap MarkOp.key).toFinset.erase key

theorem others_append {key : K} {ops : List (MarkOp K)} {op : MarkOp K} :
    others key ops ⊆ others key (ops ++ [op]) := by
  intro other
  simp only [others, Finset.mem_erase, List.mem_toFinset, List.filterMap_append, List.mem_append]
  exact fun member => ⟨member.1, .inl member.2⟩

theorem mem_others_insert {key other : K} {ops : List (MarkOp K)} {now : Time} (different : other ≠ key) :
    other ∈ others key (ops ++ [insert other now]) := by
  simp [others, different, MarkOp.key]

end MarkOp

namespace IDontWantCache

def apply (marks : IDontWantCache K) : MarkOp K → Option (IDontWantCache K)
  | .insert key now => marks.insert key now
  | .clearExpired now => some (marks.clearExpired now)

/-- The marks that a sequence of operations leaves; absent when one of them throws. -/
def run (marks : IDontWantCache K) (ops : List (MarkOp K)) : Option (IDontWantCache K) := ops.foldlM apply marks

variable {marks after : IDontWantCache K} {key other : K} {now time : Time} {op : MarkOp K}

theorem contains_iff : marks.contains key ↔ ∃ time, (time, key) ∈ marks.cache.expirations := by
  rw [← TimeCache.mem_map_iff_queued, contains, TimeCache.contains, decide_eq_true_iff]

theorem insert_of_contains (present : marks.contains key) : marks.insert key now = some marks := by
  have known : marks.cache.contains key = true := present
  simp [insert, known]

/-- An insertion of an absent key appends it to what eviction and purge leave of the queue. -/
theorem insert_of_absent (absent : ¬ marks.contains key) : ∃ evicted after, marks.insert key now = some after ∧
    (evicted = marks.cache.expirations ∧ marks.cache.expirations.length < kCapacity ∨
      evicted = marks.cache.expirations.tail ∧ kCapacity ≤ marks.cache.expirations.length) ∧
    after.cache.ttl = marks.cache.ttl ∧
      after.cache.expirations = evicted.dropWhile (fun entry => entry.1 ≤ now) ++ [(now + marks.cache.ttl, key)] := by
  have unknown : marks.cache.contains key = false := Bool.not_eq_true _ ▸ absent
  have missing : key ∉ marks.cache.map := of_decide_eq_false unknown
  by_cases full : kCapacity ≤ marks.cache.expirations.length
  · have large : marks.cache.size ≥ kCapacity := by rwa [TimeCache.size_eq]
    have filled : marks.cache.expirations ≠ [] := by
      intro empty
      rw [empty, List.length_nil] at full
      exact absurd full (by decide)
    obtain ⟨ttl, queue⟩ := @TimeCache.getOrDefault_absent _ _ _ _ now (TimeCache.absent_dropFront missing)
    rw [TimeCache.dropFront_expirations, TimeCache.dropFront_ttl] at queue
    rw [TimeCache.dropFront_ttl] at ttl
    refine ⟨_, ⟨marks.cache.dropFront.getOrDefault key () now⟩, ?_, .inr ⟨rfl, full⟩, ttl, queue⟩
    simp [insert, unknown, large, TimeCache.popFront_of_ne_nil filled]
  · have small : ¬ marks.cache.size ≥ kCapacity := by rwa [TimeCache.size_eq]
    obtain ⟨ttl, queue⟩ := @TimeCache.getOrDefault_absent _ _ _ _ now missing
    refine ⟨_, ⟨marks.cache.getOrDefault key () now⟩, ?_, .inl ⟨rfl, not_le.mp full⟩, ttl, queue⟩
    simp [insert, unknown, small]

/-- No operation throws or exceeds the capacity. -/
theorem apply_bounded (bounded : marks.cache.expirations.length ≤ kCapacity) (op : MarkOp K) : ∃ after,
    marks.apply op = some after ∧ after.cache.ttl = marks.cache.ttl ∧ after.cache.expirations.length ≤ kCapacity := by
  cases op with
  | clearExpired now =>
    refine ⟨_, rfl, TimeCache.clearExpired_ttl _ _, ?_⟩
    rw [clearExpired, TimeCache.clearExpired_expirations]
    exact (List.dropWhile_sublist _).length_le.trans bounded
  | insert key now =>
    by_cases present : marks.contains key
    · exact ⟨marks, insert_of_contains present, rfl, bounded⟩
    · obtain ⟨evicted, after, inserted, room, ttl, queue⟩ := @insert_of_absent _ _ _ _ now present
      refine ⟨after, inserted, ttl, ?_⟩
      have purged : (evicted.dropWhile fun entry => entry.1 ≤ now).length ≤ evicted.length :=
        (List.dropWhile_sublist _).length_le
      rw [queue, List.length_append, List.length_singleton]
      rcases room with ⟨rfl, small⟩ | ⟨rfl, full⟩
      · exact Nat.succ_le_of_lt (purged.trans_lt small)
      · rw [List.length_tail] at purged
        have positive : 0 < kCapacity := by decide
        omega

/-- A mark is queued, and the marks behind it are other keys that were inserted since. -/
def Holds (marks : IDontWantCache K) (key : K) (deadline : Time) (since : List (MarkOp K)) : Prop :=
  ∃ older younger, marks.cache.expirations = older ++ (deadline, key) :: younger ∧
    ∀ entry ∈ younger, entry.2 ∈ MarkOp.others key since

theorem Holds.contains {deadline : Time} {since : List (MarkOp K)} (held : marks.Holds key deadline since) :
    marks.contains key := by
  obtain ⟨older, younger, queue, -⟩ := held
  exact contains_iff.mpr ⟨deadline, by simp [queue]⟩

theorem Holds.more {deadline : Time} {since : List (MarkOp K)} (held : marks.Holds key deadline since) (op : MarkOp K) :
    marks.Holds key deadline (since ++ [op]) := by
  obtain ⟨older, younger, queue, behind⟩ := held
  exact ⟨older, younger, queue, fun entry member => MarkOp.others_append (behind entry member)⟩

theorem dropWhile_append_cons {α : Type} {condition : α → Bool} {older younger : List α} {entry : α}
    (stops : ¬ condition entry) :
    (older ++ entry :: younger).dropWhile condition = older.dropWhile condition ++ entry :: younger := by
  rw [List.dropWhile_append]
  split_ifs with gone
  · rw [List.isEmpty_iff.mp gone, List.dropWhile_cons_of_neg stops, List.nil_append]
  · rfl

/-- Behind a mark stand fewer marks than the set holds, if few other keys were inserted. -/
theorem length_younger {deadline : Time} {since : List (MarkOp K)} {younger : List (Time × K)}
    (queue : marks.cache.expirations = (deadline, key) :: younger) (absent : ¬ marks.contains other)
    (behind : ∀ entry ∈ younger, entry.2 ∈ MarkOp.others key since) (inserted : other ∈ MarkOp.others key since) :
    younger.length + 1 ≤ (MarkOp.others key since).card := by
  have distinct := marks.cache.distinct
  rw [queue, List.map_cons, List.nodup_cons] at distinct
  have outside : other ∉ (younger.map Prod.snd).toFinset := by
    intro member
    obtain ⟨⟨time, _⟩, entry, rfl⟩ := List.mem_map.mp (List.mem_toFinset.mp member)
    exact absent (contains_iff.mpr ⟨time, by rw [queue]; exact List.mem_cons_of_mem _ entry⟩)
  have subset : Insert.insert other (younger.map Prod.snd).toFinset ⊆ MarkOp.others key since := by
    intro mark member
    rcases Finset.mem_insert.mp member with rfl | old
    · exact inserted
    · obtain ⟨entry, listed, rfl⟩ := List.mem_map.mp (List.mem_toFinset.mp old)
      exact behind entry listed
  have counted := Finset.card_le_card subset
  rwa [Finset.card_insert_of_notMem outside, List.toFinset_card_of_nodup distinct.2, List.length_map] at counted

/-- An operation keeps a mark that has not expired, as long as fewer other keys than the set holds were inserted. -/
theorem Holds.step {deadline : Time} {since : List (MarkOp K)} (held : marks.Holds key deadline since)
    (early : op.now < deadline) (few : (MarkOp.others key (since ++ [op])).card < kCapacity)
    (applied : marks.apply op = some after) : after.Holds key deadline (since ++ [op]) := by
  have unexpired : ¬ decide (deadline ≤ op.now) = true := by simpa using early
  cases op with
  | clearExpired now =>
    obtain ⟨older, younger, queue, behind⟩ := held.more (.clearExpired now)
    obtain rfl := Option.some.inj applied
    refine ⟨older.dropWhile fun entry => entry.1 ≤ now, younger, ?_, behind⟩
    rw [clearExpired, TimeCache.clearExpired_expirations, queue]
    exact dropWhile_append_cons unexpired
  | insert other now =>
    by_cases present : marks.contains other
    · obtain rfl := Option.some.inj ((insert_of_contains present).symm.trans applied)
      exact held.more _
    · have different : other ≠ key := fun same => present (same ▸ held.contains)
      obtain ⟨older, younger, queue, behind⟩ := held.more (.insert other now)
      obtain ⟨evicted, result, inserted, room, -, final⟩ := @insert_of_absent _ _ _ _ now present
      obtain rfl := Option.some.inj (inserted.symm.trans applied)
      have left : ∃ rest, evicted = rest ++ (deadline, key) :: younger := by
        rcases room with ⟨rfl, -⟩ | ⟨rfl, full⟩
        · exact ⟨older, queue⟩
        · cases older with
          | cons first rest => exact ⟨rest, by rw [queue]; rfl⟩
          | nil =>
            -- the mark itself would be evicted
            have count := length_younger queue present behind (MarkOp.mem_others_insert different)
            rw [queue, List.nil_append, List.length_cons] at full
            exact absurd (full.trans count) (Nat.not_le.mpr few)
      obtain ⟨rest, rfl⟩ := left
      have purged : (rest ++ (deadline, key) :: younger).dropWhile (fun entry => entry.1 ≤ now) =
          rest.dropWhile (fun entry => entry.1 ≤ now) ++ (deadline, key) :: younger := dropWhile_append_cons unexpired
      refine ⟨rest.dropWhile fun entry => entry.1 ≤ now, younger ++ [(now + marks.cache.ttl, other)], ?_, ?_⟩
      · rw [final, purged, List.append_assoc, List.cons_append]
      · intro entry member
        rcases List.mem_append.mp member with old | new
        · exact behind entry old
        · rw [List.mem_singleton.mp new]
          exact MarkOp.mem_others_insert different

/-- Operations keep a mark until it expires, as long as fewer other keys than the set holds were inserted. -/
theorem Holds.run {deadline : Time} {since : List (MarkOp K)} (held : marks.Holds key deadline [])
    (early : ∀ op ∈ since, op.now < deadline) (few : (MarkOp.others key since).card < kCapacity)
    (ran : marks.run since = some after) : after.Holds key deadline since := by
  induction since using List.reverseRecOn generalizing after with
  | nil =>
    obtain rfl := Option.some.inj ran
    exact held
  | append_singleton since op ih =>
    rw [run, List.foldlM_append, Option.bind_eq_bind, Option.bind_eq_some_iff] at ran
    obtain ⟨middle, followed, taken⟩ := ran
    simp only [List.foldlM_cons, List.foldlM_nil, bind_pure] at taken
    have fewer := (Finset.card_le_card MarkOp.others_append).trans_lt few
    have before := ih (fun op member => early op (List.mem_append_left _ member)) fewer followed
    exact before.step (early op (by simp)) few taken

/-- No sequence of operations throws or exceeds the capacity. -/
theorem run_bounded (ops : List (MarkOp K)) : ∃ final, ({} : IDontWantCache K).run ops = some final ∧
    final.cache.ttl = 3 * 10 ^ 9 ∧ final.cache.expirations.length ≤ kCapacity := by
  induction ops using List.reverseRecOn with
  | nil => exact ⟨{}, rfl, rfl, Nat.zero_le _⟩
  | append_singleton ops op ih =>
    obtain ⟨middle, ran, ttl, bounded⟩ := ih
    obtain ⟨final, applied, same, bounded'⟩ := apply_bounded bounded op
    refine ⟨final, ?_, same.trans ttl, bounded'⟩
    rw [run] at ran ⊢
    rw [List.foldlM_append, ran, Option.bind_eq_bind, Option.bind_some, List.foldlM_cons, applied]
    rfl

/-- Every sequence of operations succeeds within the capacity, and a mark that an insertion entered is there for three
seconds, unless as many other keys as the set holds were inserted since. -/
theorem marks_kept (ops : List (MarkOp K)) : ∃ final, ({} : IDontWantCache K).run ops = some final ∧
    final.cache.size ≤ kCapacity ∧ ∀ early key time since later, ops = early ++ .insert key time :: since →
      (∀ before, ({} : IDontWantCache K).run early = some before → ¬ before.contains key) →
      (∀ op ∈ since, op.now ≤ later) → later < time + 3 * 10 ^ 9 → (MarkOp.others key since).card < kCapacity →
      final.contains key := by
  obtain ⟨final, ran, -, bounded⟩ := run_bounded ops
  refine ⟨final, ran, by rwa [TimeCache.size_eq], ?_⟩
  rintro early key time since later rfl absent clock soon few
  obtain ⟨before, arrived, ttl, -⟩ := run_bounded early
  obtain ⟨evicted, marked, inserted, -, -, queue⟩ := @insert_of_absent _ _ _ _ time (absent before arrived)
  have held : marked.Holds key (time + 3 * 10 ^ 9) [] :=
    ⟨evicted.dropWhile fun entry => entry.1 ≤ time, [], by rw [queue, ttl], fun _ impossible => by cases impossible⟩
  have followed : marked.run since = some final := by
    rw [run, List.foldlM_append, Option.bind_eq_bind, Option.bind_eq_some_iff] at ran
    obtain ⟨middle, ran, taken⟩ := ran
    obtain rfl := Option.some.inj (ran.symm.trans arrived)
    rw [List.foldlM_cons, Option.bind_eq_bind, Option.bind_eq_some_iff] at taken
    obtain ⟨next, applied, taken⟩ := taken
    obtain rfl := Option.some.inj (applied.symm.trans inserted)
    exact taken
  exact (held.run (fun op member => (clock op member).trans_lt soon) few followed).contains

/-- A mark that is entered once and inserted again two seconds later, among others. -/
theorem marks_kept_twice : ∃ final, ({} : IDontWantCache ℕ).run [.insert 1 0, .insert 2 1, .insert 1 (2 * 10 ^ 9)] =
    some final ∧ final.contains 1 := by
  obtain ⟨final, ran, -, kept⟩ := marks_kept [MarkOp.insert 1 0, .insert 2 1, .insert 1 (2 * 10 ^ 9)]
  refine ⟨final, ran, kept [] 1 0 [.insert 2 1, .insert 1 (2 * 10 ^ 9)] (2 * 10 ^ 9) rfl ?_ ?_ ?_ ?_⟩
  · intro before empty
    obtain rfl := Option.some.inj empty
    decide
  · simp [MarkOp.now]
  · decide
  · decide

/-- A mark that is inserted again shortly before it expires is gone with its first deadline. -/
theorem insertion_not_renewed : ∃ final, ({} : IDontWantCache ℕ).run
    [.insert 1 0, .insert 1 2900000000, .clearExpired 3000000000] = some final ∧
      MarkOp.others 1 [MarkOp.insert 1 0, .insert 1 2900000000, .clearExpired 3000000000] = ∅ ∧
      (3000000000 : Time) < 2900000000 + 3 * 10 ^ 9 ∧ final.contains 1 = false :=
  ⟨_, rfl, by decide, by decide, by decide⟩

end IDontWantCache

end Libp2p.Gossip
