import Libp2p.Protocol.Gossip.TimeCache
import Mathlib.Data.List.Induction

/-! # Runs of a cache whose entries expire

The queue and the map of a cache name the same keys in every state. When the clock does not run backwards the queue is
sorted as well, so that a purge, which looks at the front alone, removes exactly what has expired. An entry lives until
the first purge at its deadline; a call that asks for the key itself at that time enters it anew.
-/

namespace Libp2p.Gossip

open Library

/-- The calls of a cache, and what a caller writes through a reference that it was given. -/
inductive CacheOp (K V : Type) where
  | getOrDefault (key : K) (now : Time)
  | clearExpired (now : Time)
  | popFront
  | write (key : K) (value : V)
deriving DecidableEq

namespace TimeCache

variable {K V : Type} [DecidableEq K]

/-- The reading of the clock that a call is given. -/
def readingOf : CacheOp K V → Option Time
  | .getOrDefault _ now | .clearExpired now => some now
  | .popFront | .write _ _ => none

/-- `popFront` of an empty cache throws, and changes nothing. -/
def apply (default : V) (cache : TimeCache K V) : CacheOp K V → TimeCache K V
  | .getOrDefault key now => cache.getOrDefault key default now
  | .clearExpired now => cache.clearExpired now
  | .popFront => cache.popFront.getD cache
  | .write key value => cache.modify key fun _ => value

def run (ttl : Ttl) (default : V) (ops : List (CacheOp K V)) : TimeCache K V := ops.foldl (apply default) (.empty ttl)

/-- The clock does not run backwards. -/
def Ordered (ops : List (CacheOp K V)) : Prop := (ops.filterMap readingOf).Pairwise (· ≤ ·)

instance (ops : List (CacheOp K V)) : Decidable (Ordered ops) := inferInstanceAs (Decidable (List.Pairwise _ _))

/-- A call that ends the life of an entry: a purge at its deadline or later, or its removal from the front. -/
def Ends (cache : TimeCache K V) (deadline : Time) (key : K) : CacheOp K V → Prop
  | .getOrDefault _ now | .clearExpired now => deadline ≤ now
  | .popFront => cache.expirations.head?.map Prod.snd = some key
  | .write _ _ => False

/-- No call of a run ends the life of an entry. -/
def Alive (default : V) (deadline : Time) (key : K) : TimeCache K V → List (CacheOp K V) → Prop
  | _, [] => True
  | cache, op :: rest => ¬ cache.Ends deadline key op ∧ Alive default deadline key (cache.apply default op) rest

variable {cache : TimeCache K V} {default : V} {key other : K} {now time deadline : Time} {op : CacheOp K V}
  {ops rest : List (CacheOp K V)}

/-- The entries of the queue are sorted by their times. -/
def Sorted (cache : TimeCache K V) : Prop := cache.expirations.Pairwise fun first second => first.1 ≤ second.1

theorem popFront_eq : cache.popFront.getD cache = cache.dropFront := by
  unfold popFront
  split_ifs with empty
  · unfold dropFront
    split
    · rfl
    · next queue =>
      rw [empty] at queue
      cases queue
  · rfl

@[simp] theorem apply_ttl : (cache.apply default op).ttl = cache.ttl := by
  cases op with
  | getOrDefault key now => exact getOrDefault_ttl
  | clearExpired now => exact clearExpired_ttl cache now
  | popFront => exact (congrArg TimeCache.ttl popFront_eq).trans (dropFront_ttl cache)
  | write key value => rfl

/-- What is in the queue after a call: entries that were in it, in their order, and one that is new. -/
theorem apply_expirations (default : V) (cache : TimeCache K V) (op : CacheOp K V) :
    ∃ kept new, (cache.apply default op).expirations = kept ++ new ∧ kept.Sublist cache.expirations ∧
      (new = [] ∨ ∃ now, readingOf op = some now ∧ new.map Prod.fst = [now + cache.ttl]) := by
  cases op with
  | getOrDefault key now =>
    have fewer : (cache.clearExpired now).expirations.Sublist cache.expirations := by
      rw [clearExpired_expirations]
      exact List.dropWhile_sublist _
    by_cases kept : key ∈ (cache.clearExpired now).map
    · refine ⟨_, [], ?_, fewer, .inl rfl⟩
      rw [apply, getOrDefault_of_kept kept, List.append_nil]
    · exact ⟨_, _, (getOrDefault_of_purged kept).1, fewer, .inr ⟨now, rfl, rfl⟩⟩
  | clearExpired now =>
    refine ⟨_, [], (List.append_nil _).symm, ?_, .inl rfl⟩
    rw [apply, clearExpired_expirations]
    exact List.dropWhile_sublist _
  | popFront =>
    refine ⟨_, [], (List.append_nil _).symm, ?_, .inl rfl⟩
    rw [apply, popFront_eq, dropFront_expirations]
    exact List.tail_sublist _
  | write key value => exact ⟨_, [], (List.append_nil _).symm, List.Sublist.refl _, .inl rfl⟩

/-- The queue is sorted, and no later entry is due before those that are in it. -/
structure InOrder (cache : TimeCache K V) (rest : List (CacheOp K V)) : Prop where
  sorted : cache.Sorted
  early : ∀ entry ∈ cache.expirations, ∀ now ∈ rest.filterMap readingOf, entry.1 ≤ now + cache.ttl

theorem InOrder.apply (inOrder : cache.InOrder (op :: rest)) (ordered : Ordered (op :: rest)) :
    (cache.apply default op).InOrder rest := by
  obtain ⟨kept, new, queue, fewer, added⟩ := apply_expirations default cache op
  have more : ∀ now ∈ rest.filterMap readingOf, now ∈ (op :: rest).filterMap readingOf := fun now member =>
    ((List.sublist_cons_self op rest).filterMap readingOf).subset member
  have old : ∀ entry ∈ kept, ∀ now ∈ (op :: rest).filterMap readingOf, entry.1 ≤ now + cache.ttl :=
    fun entry member => inOrder.early entry (fewer.subset member)
  rcases added with rfl | ⟨now, reading, times⟩
  · rw [List.append_nil] at queue
    refine ⟨?_, fun entry member later due => ?_⟩
    · rw [Sorted, queue]
      exact inOrder.sorted.sublist fewer
    · rw [queue] at member
      rw [apply_ttl]
      exact old entry member later (more later due)
  · obtain ⟨entry, rfl, due⟩ := List.map_eq_singleton_iff.mp times
    have readings : (op :: rest).filterMap readingOf = now :: rest.filterMap readingOf :=
      List.filterMap_cons_some reading
    rw [Ordered, readings, List.pairwise_cons] at ordered
    rw [readings] at old
    refine ⟨?_, fun other member later behind => ?_⟩
    · rw [Sorted, queue, List.pairwise_append]
      refine ⟨inOrder.sorted.sublist fewer, List.pairwise_singleton _ _, fun first member second last => ?_⟩
      rw [List.mem_singleton.mp last, due]
      exact old first member now List.mem_cons_self
    · rw [queue, List.mem_append, List.mem_singleton] at member
      rw [apply_ttl]
      rcases member with member | rfl
      · exact old other member later (List.mem_cons_of_mem _ behind)
      · rw [due]
        exact Nat.add_le_add_right (ordered.1 later behind) _

omit [DecidableEq K] in
theorem Ordered.of_append (ordered : Ordered (ops ++ rest)) : Ordered ops := by
  rw [Ordered, List.filterMap_append] at ordered
  exact (List.pairwise_append.mp ordered).1

theorem InOrder.foldl (inOrder : cache.InOrder ops) (ordered : Ordered ops) :
    (ops.foldl (TimeCache.apply default) cache).Sorted := by
  induction ops generalizing cache with
  | nil => exact inOrder.sorted
  | cons op rest ih =>
    refine ih (inOrder.apply ordered) ?_
    exact ordered.sublist ((List.sublist_cons_self op rest).filterMap readingOf)

theorem sorted_run {ttl : Ttl} (ordered : Ordered ops) : (run ttl default ops).Sorted :=
  InOrder.foldl ⟨List.Pairwise.nil, fun _ member => nomatch member⟩ ordered

omit [DecidableEq K] in
/-- What a purge of a sorted queue leaves is not due. -/
theorem later_of_purged {queue : List (Time × K)} (sorted : queue.Pairwise fun first second => first.1 ≤ second.1)
    {entry : Time × K} (left : entry ∈ queue.dropWhile fun entry => entry.1 ≤ now) : now < entry.1 := by
  induction queue with
  | nil => cases left
  | cons first queue ih =>
    obtain ⟨least, sorted⟩ := List.pairwise_cons.mp sorted
    by_cases due : first.1 ≤ now
    · rw [List.dropWhile_cons_of_pos (by simpa using due)] at left
      exact ih sorted left
    · rw [List.dropWhile_cons_of_neg (by simpa using due)] at left
      rcases List.mem_cons.mp left with rfl | behind
      · exact not_le.mp due
      · exact (not_le.mp due).trans_le (least entry behind)

/-- A purge at its deadline removes a key. -/
theorem purged_of_due (sorted : cache.Sorted) (queued : (deadline, key) ∈ cache.expirations) (due : deadline ≤ now) :
    key ∉ (cache.clearExpired now).map := by
  intro present
  obtain ⟨time, left⟩ := mem_map_iff_queued.mp present
  rw [clearExpired_expirations] at left
  have same := queued_unique queued ((List.dropWhile_sublist _).subset left)
  exact absurd due (not_le.mpr (same ▸ later_of_purged sorted left))

/-- An entry stays in the queue unless the call ends its life. -/
theorem queued_apply (queued : (deadline, key) ∈ cache.expirations) (lives : ¬ cache.Ends deadline key op) :
    (deadline, key) ∈ (cache.apply default op).expirations := by
  cases op with
  | getOrDefault other now =>
    have left := (mem_clearExpired_or now queued).resolve_right lives
    by_cases kept : other ∈ (cache.clearExpired now).map
    · rwa [apply, getOrDefault_of_kept kept]
    · rw [apply, (getOrDefault_of_purged kept).1]
      exact List.mem_append_left _ left
  | clearExpired now => exact (mem_clearExpired_or now queued).resolve_right lives
  | popFront =>
    rw [apply, popFront_eq, dropFront_expirations]
    cases queue : cache.expirations with
    | nil =>
      rw [queue] at queued
      cases queued
    | cons front behind =>
      rw [queue] at queued
      refine (List.mem_cons.mp queued).resolve_left fun first => lives ?_
      rw [Ends, queue, ← first]
      rfl
  | write other value => exact queued

/-- After a call that ends the life of an entry its key is absent, unless the call enters it anew. -/
theorem absent_apply (sorted : cache.Sorted) (queued : (deadline, key) ∈ cache.expirations)
    (ends : cache.Ends deadline key op) (other : ∀ now, op ≠ .getOrDefault key now) :
    key ∉ (cache.apply default op).map := by
  cases op with
  | getOrDefault asked now =>
    have gone := purged_of_due sorted queued ends
    by_cases kept : asked ∈ (cache.clearExpired now).map
    · rwa [apply, getOrDefault_of_kept kept]
    · rw [apply, (getOrDefault_of_purged kept).2, AList.mem_insert, not_or]
      exact ⟨fun same => other now (by rw [same]), gone⟩
  | clearExpired now => exact purged_of_due sorted queued ends
  | popFront =>
    rw [apply, popFront_eq, tracked, dropFront_expirations]
    cases queue : cache.expirations with
    | nil =>
      rw [queue] at queued
      cases queued
    | cons front behind =>
      rw [Ends, queue] at ends
      obtain rfl : front.2 = key := Option.some.inj ends
      have distinct := cache.distinct
      rw [queue, List.map_cons, List.nodup_cons] at distinct
      exact distinct.1
  | write other value => exact ends.elim

theorem queued_foldl (queued : (deadline, key) ∈ cache.expirations) (alive : Alive default deadline key cache ops) :
    (deadline, key) ∈ (ops.foldl (apply default) cache).expirations := by
  induction ops generalizing cache with
  | nil => exact queued
  | cons op rest ih => exact ih (queued_apply queued alive.1) alive.2

/-- An entry whose time has not come is left as it is when its key is asked for. -/
theorem getOrDefault_of_live (queued : (deadline, key) ∈ cache.expirations) (early : now < deadline) :
    (cache.getOrDefault key default now).map.lookup key = cache.map.lookup key ∧
      (deadline, key) ∈ (cache.getOrDefault key default now).expirations := by
  have left := (mem_clearExpired_or now queued).resolve_right (not_le.mpr early)
  have present := mem_map_of_queued left
  rw [getOrDefault_of_kept present]
  exact ⟨lookup_clearExpired present, left⟩

/-- The front of a sorted queue expires first, and is what `popFront` removes. -/
theorem apply_popFront (sorted : cache.Sorted) {queue : List (Time × K)}
    (front : cache.expirations = (deadline, key) :: queue) : (∀ entry ∈ queue, deadline ≤ entry.1) ∧
      key ∉ (cache.apply default .popFront).map ∧ (cache.apply default .popFront).expirations = queue := by
  rw [Sorted, front, List.pairwise_cons] at sorted
  have behind : (cache.apply default .popFront).expirations = queue := by
    rw [apply, popFront_eq, dropFront_expirations, front, List.tail_cons]
  have distinct := cache.distinct
  rw [front, List.map_cons, List.nodup_cons] at distinct
  exact ⟨sorted.1, by rw [tracked, behind]; exact distinct.1, behind⟩

theorem run_append {ttl : Ttl} : run ttl default (ops ++ rest) = rest.foldl (apply default) (run ttl default ops) :=
  List.foldl_append

@[simp] theorem run_ttl {ttl : Ttl} : (run ttl default ops).ttl = ttl := by
  induction ops using List.reverseRecOn with
  | nil => rfl
  | append_singleton ops op ih =>
    rw [run_append, List.foldl_cons, List.foldl_nil, apply_ttl, ih]

/-- A call that finds its key absent once it has purged the cache. -/
def Enters (ttl : Ttl) (default : V) (before : List (CacheOp K V)) (key : K) (now : Time) : Prop :=
  key ∉ ((run ttl default before).clearExpired now).map

instance (ttl : Ttl) (default : V) (before : List (CacheOp K V)) (key : K) (now : Time) :
    Decidable (Enters ttl default before key now) := inferInstanceAs (Decidable (¬ _ ∈ _))

/-- What holds after some calls: what the queue is, how long the entries live, and what the last call has done. -/
structure Coherent (ttl : Ttl) (default : V) (ops : List (CacheOp K V)) : Prop where
  distinct : ((run ttl default ops).expirations.map Prod.snd).Nodup
  tracked : ∀ key, key ∈ (run ttl default ops).map ↔ key ∈ (run ttl default ops).expirations.map Prod.snd
  sorted : (run ttl default ops).expirations.Pairwise fun first second => first.1 ≤ second.1
  entered : ∀ before key now, ops = before ++ [.getOrDefault key now] → Enters ttl default before key now →
    (now + ttl, key) ∈ (run ttl default ops).expirations ∧ (run ttl default ops).map.lookup key = some default
  lives : ∀ before key now after, ops = before ++ [.getOrDefault key now] ++ after → Enters ttl default before key now →
    Alive default (now + ttl) key (run ttl default (before ++ [.getOrDefault key now])) after →
      key ∈ (run ttl default ops).map
  ends : ∀ before key now after op, ops = before ++ [.getOrDefault key now] ++ after ++ [op] →
    Enters ttl default before key now →
    Alive default (now + ttl) key (run ttl default (before ++ [.getOrDefault key now])) after →
    (run ttl default (before ++ [.getOrDefault key now] ++ after)).Ends (now + ttl) key op →
    (∀ later, op ≠ .getOrDefault key later) → key ∉ (run ttl default ops).map
  anew : ∀ before key now after later, ops = before ++ [.getOrDefault key now] ++ after ++ [.getOrDefault key later] →
    Enters ttl default before key now →
    Alive default (now + ttl) key (run ttl default (before ++ [.getOrDefault key now])) after → now + ttl ≤ later →
      Enters ttl default (before ++ [.getOrDefault key now] ++ after) key later
  kept : ∀ before key now deadline, ops = before ++ [.getOrDefault key now] →
    (deadline, key) ∈ (run ttl default before).expirations → now < deadline →
      (run ttl default ops).map.lookup key = (run ttl default before).map.lookup key ∧
        (deadline, key) ∈ (run ttl default ops).expirations
  front : ∀ before key deadline queue, ops = before ++ [.popFront] →
    (run ttl default before).expirations = (deadline, key) :: queue → (∀ entry ∈ queue, deadline ≤ entry.1) ∧
      key ∉ (run ttl default ops).map ∧ (run ttl default ops).expirations = queue

/-- An entry is in the queue as long as its life has not ended. -/
theorem queued_of_entered {ttl : Ttl} {before after : List (CacheOp K V)} (enters : Enters ttl default before key now)
    (alive : Alive default (now + ttl) key (run ttl default (before ++ [.getOrDefault key now])) after) :
    (now + ttl, key) ∈ (run ttl default (before ++ [.getOrDefault key now] ++ after)).expirations := by
  rw [run_append]
  refine queued_foldl ?_ alive
  rw [run_append, List.foldl_cons, List.foldl_nil, apply, (getOrDefault_of_purged enters).1, run_ttl]
  exact List.mem_append_right _ (List.mem_singleton_self _)

/-- The two containers of a cache are in step in every run with a clock that does not run backwards. -/
theorem coherent_of_ordered (ttl : Ttl) (default : V) (ops : List (CacheOp K V)) (ordered : Ordered ops) :
    Coherent ttl default ops := by
  constructor
  case distinct => exact (run ttl default ops).distinct
  case tracked => exact (run ttl default ops).tracked
  case sorted => exact sorted_run ordered
  case entered =>
    rintro before key now rfl enters
    rw [run_append, List.foldl_cons, List.foldl_nil, apply, (getOrDefault_of_purged enters).1,
      (getOrDefault_of_purged enters).2, run_ttl]
    exact ⟨List.mem_append_right _ (List.mem_singleton_self _), AList.lookup_insert _⟩
  case lives =>
    rintro before key now after rfl enters alive
    exact mem_map_of_queued (queued_of_entered enters alive)
  case ends =>
    rintro before key now after op rfl enters alive ends other
    rw [run_append, List.foldl_cons, List.foldl_nil]
    exact absent_apply (sorted_run ordered.of_append) (queued_of_entered enters alive) ends other
  case anew =>
    rintro before key now after later rfl enters alive due
    exact purged_of_due (sorted_run ordered.of_append) (queued_of_entered enters alive) due
  case kept =>
    rintro before key now deadline rfl queued early
    rw [run_append, List.foldl_cons, List.foldl_nil]
    exact getOrDefault_of_live queued early
  case front =>
    rintro before key deadline queue rfl front
    rw [run_append, List.foldl_cons, List.foldl_nil]
    exact apply_popFront (sorted_run ordered.of_append) front

theorem coherent_twice : Coherent 3 0 [.getOrDefault 7 0, .write 7 5, .getOrDefault 8 1, .popFront, .clearExpired 4] :=
  coherent_of_ordered (K := ℕ) 3 0 _ (by decide)

/-- A key that is asked for at its deadline is present right after that, and has its default again. -/
theorem absent_not_always : ¬ ∀ (ttl : Ttl) (default : ℕ) (before after : List (CacheOp ℕ ℕ)) (key : ℕ) (now : Time)
    (op : CacheOp ℕ ℕ), Ordered (before ++ [.getOrDefault key now] ++ after ++ [op]) →
    Enters ttl default before key now →
    Alive default (now + ttl) key (run ttl default (before ++ [.getOrDefault key now])) after →
    (run ttl default (before ++ [.getOrDefault key now] ++ after)).Ends (now + ttl) key op →
    key ∉ (run ttl default (before ++ [.getOrDefault key now] ++ after ++ [op])).map := by
  intro always
  have absent := always 1 0 [] [] 7 0 (.getOrDefault 7 1) (by decide) (by decide) trivial (Nat.le_refl 1)
  exact absent (by decide)

end TimeCache

end Libp2p.Gossip
