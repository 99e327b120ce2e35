import Libp2p.Library.Unordered
import Mathlib.Algebra.Group.Nat.Defs
import Mathlib.Data.List.TakeWhile

/-! # Caches whose entries expire

A `TimeCache` keeps its keys twice, in a map and in a queue of expirations. The structure carries what ties
the two together: the queue names every key of the map exactly once. Entries leave only through the front of
the queue, so a key that was inserted is present until a purge at a time that is not before its expiration.
The queue of the source holds iterators of the map. They are taken to stay usable when the map grows and is
rehashed, as the nodes they point to do, so an iterator is modelled by the key of its node.

Every operation that reads the clock takes the reading as an argument; `DuplicateCache.insert` reads it
twice, once for the purge and once for the entry.
-/

namespace Libp2p.Gossip

open Library

/-- A point of the steady clock, in nanoseconds. -/
abbrev Time := ℕ

/-- A duration in nanoseconds. -/
abbrev Ttl := ℕ

/-- `expirations` names the entries by their keys where `expirations_` stores iterators of the map; these are taken to
survive a rehash, which moves no node. -/
structure TimeCache (K V : Type) [DecidableEq K] where
  ttl : Ttl
  map : UnorderedMap K V := ∅
  expirations : List (Time × K) := []
  distinct : (expirations.map Prod.snd).Nodup := by simp
  tracked : ∀ key, key ∈ map ↔ key ∈ expirations.map Prod.snd := by simp

namespace TimeCache

variable {K V : Type} [DecidableEq K]

def empty (ttl : Ttl) : TimeCache K V := { ttl }

def size (cache : TimeCache K V) : ℕ := cache.map.entries.length

def contains (cache : TimeCache K V) (key : K) : Bool := key ∈ cache.map

/-- Remove the entry at the front of the queue, if there is one. -/
def dropFront (cache : TimeCache K V) : TimeCache K V :=
  match queue : cache.expirations with
  | [] => cache
  | (_, key) :: rest =>
    { ttl := cache.ttl
      map := cache.map.erase key
      expirations := rest
      distinct := by
        have := cache.distinct
        rw [queue, List.map_cons, List.nodup_cons] at this
        exact this.2
      tracked := fun other => by
        have distinct := cache.distinct
        have tracked := cache.tracked other
        rw [queue, List.map_cons] at distinct tracked
        rw [AList.mem_erase, tracked, List.mem_cons]
        constructor
        · rintro ⟨different, same | later⟩
          · exact (different same).elim
          · exact later
        · intro later
          refine ⟨?_, .inr later⟩
          rintro rfl
          exact (List.nodup_cons.mp distinct).1 later }

/-- `popFront` throws on an empty cache. -/
def popFront (cache : TimeCache K V) : Option (TimeCache K V) :=
  if cache.expirations = [] then none else some cache.dropFront

/-- One iteration of the purge per unit of `room`; the queue is no longer than its length. -/
def clearLoop (now : Time) : ℕ → TimeCache K V → TimeCache K V
  | 0, cache => cache
  | room + 1, cache =>
    match cache.expirations.head? with
    | some (time, _) => if time ≤ now then clearLoop now room cache.dropFront else cache
    | none => cache

def clearExpired (cache : TimeCache K V) (now : Time) : TimeCache K V :=
  clearLoop now cache.expirations.length cache

/-- Add a key that is absent. -/
def append (cache : TimeCache K V) (key : K) (value : V) (time : Time) (absent : key ∉ cache.map) :
    TimeCache K V where
  ttl := cache.ttl
  map := cache.map.insert key value
  expirations := cache.expirations ++ [(time, key)]
  distinct := by
    rw [cache.tracked] at absent
    rw [List.map_append, List.map_singleton]
    exact cache.distinct.append (List.nodup_singleton _) (by simpa using absent)
  tracked other := by
    rw [AList.mem_insert, cache.tracked, List.map_append, List.mem_append, List.map_singleton,
      List.mem_singleton, or_comm]

/-- `getOrDefault`: the cache in which the key is present, with `default` if it was absent. -/
def getOrDefault (cache : TimeCache K V) (key : K) (default : V) (now : Time) : TimeCache K V :=
  let cache := cache.clearExpired now
  if absent : key ∉ cache.map then cache.append key default (now + cache.ttl) absent else cache

/-- Change the value of a key through the reference that `getOrDefault` returned. -/
def modify (cache : TimeCache K V) (key : K) (change : V → V) : TimeCache K V where
  ttl := cache.ttl
  map := UnorderedMap.modify cache.map key change
  expirations := cache.expirations
  distinct := cache.distinct
  tracked other := by
    rw [← cache.tracked, ← AList.lookup_isSome, ← AList.lookup_isSome, UnorderedMap.lookup_modify]
    split_ifs with same
    · rw [same, Option.isSome_map]
    · rfl

theorem dropFront_expirations (cache : TimeCache K V) :
    cache.dropFront.expirations = cache.expirations.tail := by
  unfold dropFront
  split
  · next empty => rw [empty, List.tail_nil]
  · next queue => exact (congrArg List.tail queue).symm

@[simp] theorem dropFront_ttl (cache : TimeCache K V) : cache.dropFront.ttl = cache.ttl := by
  unfold dropFront
  split <;> rfl

private theorem clearLoop_expirations (now : Time) {room : ℕ} {cache : TimeCache K V}
    (enough : cache.expirations.length ≤ room) :
    (clearLoop now room cache).expirations = cache.expirations.dropWhile fun entry => entry.1 ≤ now := by
  induction room generalizing cache with
  | zero =>
    have empty : cache.expirations = [] := List.length_eq_zero_iff.mp (Nat.le_zero.mp enough)
    rw [clearLoop, empty, List.dropWhile_nil]
  | succ room ih =>
    rw [clearLoop]
    cases queue : cache.expirations with
    | nil => simp [queue]
    | cons entry rest =>
      obtain ⟨time, key⟩ := entry
      rw [List.head?_cons]
      by_cases expired : time ≤ now
      · have shorter : cache.dropFront.expirations.length ≤ room := by
          simpa [dropFront_expirations, queue] using enough
        simp only [if_pos expired, ih shorter, dropFront_expirations, queue, List.tail_cons]
        rw [List.dropWhile_cons_of_pos (by simpa using expired)]
      · simp only [if_neg expired, queue]
        rw [List.dropWhile_cons_of_neg (by simpa using expired)]

/-- A purge removes the expired front of the queue and nothing else. -/
theorem clearExpired_expirations (cache : TimeCache K V) (now : Time) :
    (cache.clearExpired now).expirations = cache.expirations.dropWhile fun entry => entry.1 ≤ now :=
  clearLoop_expirations now le_rfl

@[simp] theorem clearExpired_ttl (cache : TimeCache K V) (now : Time) : (cache.clearExpired now).ttl = cache.ttl := by
  have loop : ∀ room (cache : TimeCache K V), (clearLoop now room cache).ttl = cache.ttl := by
    intro room
    induction room with
    | zero => intro cache; rfl
    | succ room ih =>
      intro cache
      rw [clearLoop]
      split
      · split_ifs
        · rw [ih, dropFront_ttl]
        · rfl
      · rfl
  exact loop _ cache

/-- An entry that a purge removed had expired. -/
theorem mem_clearExpired_or {cache : TimeCache K V} (now : Time) {time : Time} {key : K}
    (queued : (time, key) ∈ cache.expirations) :
    (time, key) ∈ (cache.clearExpired now).expirations ∨ time ≤ now := by
  have split := List.takeWhile_append_dropWhile (p := fun entry : Time × K => decide (entry.1 ≤ now))
    (l := cache.expirations)
  rw [← split, List.mem_append] at queued
  rw [clearExpired_expirations]
  rcases queued with removed | kept
  · exact .inr (by simpa using List.mem_takeWhile_imp removed)
  · exact .inl kept

/-- A queued key is present. -/
theorem mem_map_of_queued {cache : TimeCache K V} {time : Time} {key : K}
    (queued : (time, key) ∈ cache.expirations) : key ∈ cache.map :=
  (cache.tracked key).mpr (List.mem_map.mpr ⟨_, queued, rfl⟩)

theorem mem_map_iff_queued {cache : TimeCache K V} {key : K} :
    key ∈ cache.map ↔ ∃ time, (time, key) ∈ cache.expirations := by
  rw [cache.tracked, List.mem_map]
  constructor
  · rintro ⟨⟨time, _⟩, queued, rfl⟩
    exact ⟨time, queued⟩
  · rintro ⟨time, queued⟩
    exact ⟨(time, key), queued, rfl⟩

/-- A key expires once. -/
theorem queued_unique {cache : TimeCache K V} {first second : Time} {key : K}
    (early : (first, key) ∈ cache.expirations) (late : (second, key) ∈ cache.expirations) : first = second :=
  congrArg Prod.fst (List.inj_on_of_nodup_map cache.distinct early late rfl)

/-- A purge adds nothing. -/
theorem mem_of_mem_clearExpired {cache : TimeCache K V} {now : Time} {key : K}
    (present : key ∈ (cache.clearExpired now).map) : key ∈ cache.map := by
  rw [tracked, clearExpired_expirations] at present
  rw [tracked]
  exact ((List.dropWhile_sublist _).map Prod.snd).subset present

/-- What the removal of the front of the queue leaves keeps its value. -/
theorem lookup_dropFront {cache : TimeCache K V} {key : K} (present : key ∈ cache.dropFront.map) :
    cache.dropFront.map.lookup key = cache.map.lookup key := by
  unfold dropFront at present ⊢
  split at present
  · rfl
  · dsimp only at present ⊢
    rw [UnorderedMap.lookup_erase_eq, if_neg (AList.mem_erase.mp present).1]

/-- What a purge leaves keeps its value. -/
theorem lookup_clearExpired {cache : TimeCache K V} {now : Time} {key : K}
    (present : key ∈ (cache.clearExpired now).map) : (cache.clearExpired now).map.lookup key = cache.map.lookup key := by
  have loop : ∀ room (cache : TimeCache K V), key ∈ (clearLoop now room cache).map →
      (clearLoop now room cache).map.lookup key = cache.map.lookup key := by
    intro room
    induction room with
    | zero => exact fun _ _ => rfl
    | succ room ih =>
      intro cache present
      rw [clearLoop] at present ⊢
      split at present
      · split_ifs at present ⊢
        · have left := ih cache.dropFront present
          rw [left]
          exact lookup_dropFront (AList.lookup_isSome.mp (by rw [← left]; exact AList.lookup_isSome.mpr present))
        · rfl
      · rfl
  exact loop _ cache present

theorem getOrDefault_of_kept {cache : TimeCache K V} {key : K} {default : V} {now : Time}
    (kept : key ∈ (cache.clearExpired now).map) : cache.getOrDefault key default now = cache.clearExpired now := by
  rw [getOrDefault, dif_neg (not_not.mpr kept)]

/-- A key that a purge leaves absent is entered. -/
theorem getOrDefault_of_purged {cache : TimeCache K V} {key : K} {default : V} {now : Time}
    (purged : key ∉ (cache.clearExpired now).map) :
    (cache.getOrDefault key default now).expirations = (cache.clearExpired now).expirations ++ [(now + cache.ttl, key)] ∧
      (cache.getOrDefault key default now).map = (cache.clearExpired now).map.insert key default := by
  rw [getOrDefault, dif_pos purged, append, clearExpired_ttl]
  exact ⟨rfl, rfl⟩

/-- What is queued after a key was given a default: the new entry, and what a purge left. -/
theorem getOrDefault_expirations {cache : TimeCache K V} {key : K} {default : V} {now : Time}
    (absent : key ∉ cache.map) : (cache.getOrDefault key default now).expirations =
      (cache.clearExpired now).expirations ++ [(now + cache.ttl, key)] :=
  (getOrDefault_of_purged fun present => absent (mem_of_mem_clearExpired present)).1

@[simp] theorem getOrDefault_ttl {cache : TimeCache K V} {key : K} {default : V} {now : Time} :
    (cache.getOrDefault key default now).ttl = cache.ttl := by
  unfold getOrDefault
  dsimp only
  split_ifs
  · exact clearExpired_ttl cache now
  · exact clearExpired_ttl cache now

/-- An entry that stays in the queue keeps its value: nothing that was purged is entered again for the same time. -/
theorem lookup_getOrDefault_of_kept {cache : TimeCache K V} {key other : K} {default : V} {now time : Time}
    (lasting : 0 < cache.ttl) (before : (time, other) ∈ cache.expirations)
    (after : (time, other) ∈ (cache.getOrDefault key default now).expirations) :
    (cache.getOrDefault key default now).map.lookup other = cache.map.lookup other := by
  unfold getOrDefault at after ⊢
  dsimp only at after ⊢
  split_ifs at after ⊢ with absent
  · exact lookup_clearExpired (mem_map_of_queued after)
  · have left : (time, other) ∈ (cache.clearExpired now).expirations := by
      rcases mem_clearExpired_or now before with left | expired
      · exact left
      · rw [append, List.mem_append, List.mem_singleton, clearExpired_ttl] at after
        refine after.resolve_right fun new => ?_
        have late : time = now + cache.ttl := congrArg Prod.fst new
        exact absurd (late ▸ expired) (Nat.not_le.mpr (Nat.lt_add_of_pos_right lasting))
    have present := mem_map_of_queued left
    have different : other ≠ key := fun same => absent (same ▸ present)
    rw [append, UnorderedMap.lookup_insert_eq, if_neg different, lookup_clearExpired present]

end TimeCache

/-- A set for the suppression of duplicates. -/
structure DuplicateCache (K : Type) [DecidableEq K] where
  cache : TimeCache K Unit

namespace DuplicateCache

variable {K : Type} [DecidableEq K]

def contains (duplicates : DuplicateCache K) (key : K) : Bool := duplicates.cache.contains key

/-- `insert` with the reading that purges and the reading that dates the new entry; false for a duplicate. -/
def insert (duplicates : DuplicateCache K) (key : K) (now later : Time) : DuplicateCache K × Bool :=
  let cache := duplicates.cache.clearExpired now
  if cache.contains key then (⟨cache⟩, false) else (⟨cache.getOrDefault key () later⟩, true)

section Insertion

variable {duplicates : DuplicateCache K} {key other : K} {now later time : Time}

/-- A key is new to an insertion unless the purge left it. -/
theorem insert_fresh_iff : (duplicates.insert key now later).2 = true ↔
    key ∉ (duplicates.cache.clearExpired now).map := by
  unfold insert
  dsimp only
  split_ifs with present
  · simpa [TimeCache.contains] using present
  · simpa [TimeCache.contains] using present

theorem insert_cache : (duplicates.insert key now later).1.cache =
    if key ∈ (duplicates.cache.clearExpired now).map then duplicates.cache.clearExpired now
    else (duplicates.cache.clearExpired now).getOrDefault key () later := by
  unfold insert
  dsimp only
  simp only [TimeCache.contains, decide_eq_true_eq]
  split_ifs <;> rfl

@[simp] theorem insert_ttl : (duplicates.insert key now later).1.cache.ttl = duplicates.cache.ttl := by
  rw [insert_cache]
  split_ifs
  · exact TimeCache.clearExpired_ttl _ _
  · rw [TimeCache.getOrDefault_ttl, TimeCache.clearExpired_ttl]

/-- A new key is queued with its expiration, which counts from the second reading. -/
theorem queued_insert (fresh : (duplicates.insert key now later).2 = true) :
    (later + duplicates.cache.ttl, key) ∈ (duplicates.insert key now later).1.cache.expirations := by
  have absent := insert_fresh_iff.mp fresh
  rw [insert_cache, if_neg absent, TimeCache.getOrDefault_expirations absent, TimeCache.clearExpired_ttl]
  simp

/-- An insertion removes an entry only if it has expired. -/
theorem queued_insert_or (ordered : now ≤ later) (queued : (time, other) ∈ duplicates.cache.expirations) :
    (time, other) ∈ (duplicates.insert key now later).1.cache.expirations ∨ time ≤ later := by
  rw [insert_cache]
  rcases TimeCache.mem_clearExpired_or now queued with kept | expired
  · split_ifs with present
    · exact .inl kept
    · rw [TimeCache.getOrDefault_expirations present]
      rcases TimeCache.mem_clearExpired_or later kept with kept | expired
      · exact .inl (List.mem_append_left _ kept)
      · exact .inr expired
  · exact .inr (expired.trans ordered)

/-- Nothing but the key, if it is new, enters the queue. -/
theorem queued_of_insert (queued : (time, other) ∈ (duplicates.insert key now later).1.cache.expirations) :
    (time, other) ∈ duplicates.cache.expirations ∨
      (duplicates.insert key now later).2 = true ∧ other = key ∧ time = later + duplicates.cache.ttl := by
  rw [insert_cache] at queued
  split_ifs at queued with known
  · rw [TimeCache.clearExpired_expirations] at queued
    exact .inl ((List.dropWhile_sublist _).subset queued)
  · rw [TimeCache.getOrDefault_expirations known, TimeCache.clearExpired_expirations,
      TimeCache.clearExpired_expirations, TimeCache.clearExpired_ttl, List.mem_append, List.mem_singleton] at queued
    refine queued.imp (fun kept => ?_) fun new => ⟨insert_fresh_iff.mpr known, ?_⟩
    · exact (List.dropWhile_sublist _).subset ((List.dropWhile_sublist _).subset kept)
    · exact ⟨congrArg Prod.snd new, congrArg Prod.fst new⟩

/-- Nothing but the key enters the cache. -/
theorem mem_insert_or (present : other ∈ (duplicates.insert key now later).1.cache.map) :
    other = key ∨ other ∈ duplicates.cache.map := by
  rw [insert_cache] at present
  split_ifs at present with known
  · exact .inr (TimeCache.mem_of_mem_clearExpired present)
  · rw [TimeCache.tracked, TimeCache.getOrDefault_expirations known] at present
    simp only [List.map_append, List.mem_append, List.map_cons, List.map_nil, List.mem_singleton] at present
    rcases present with kept | new
    · rw [← TimeCache.tracked] at kept
      exact .inr (TimeCache.mem_of_mem_clearExpired (TimeCache.mem_of_mem_clearExpired kept))
    · exact .inl new

end Insertion

end DuplicateCache

/-- A bounded set of the messages a peer does not want. -/
structure IDontWantCache (K : Type) [DecidableEq K] where
  cache : TimeCache K Unit := .empty (3 * 10 ^ 9)

namespace IDontWantCache

variable {K : Type} [DecidableEq K]

def kCapacity : ℕ := 10000

def clearExpired (marks : IDontWantCache K) (now : Time) : IDontWantCache K := ⟨marks.cache.clearExpired now⟩

def contains (marks : IDontWantCache K) (key : K) : Bool := marks.cache.contains key

/-- `insert`; absent when `popFront` throws. -/
def insert (marks : IDontWantCache K) (key : K) (now : Time) : Option (IDontWantCache K) := do
  if marks.cache.contains key then return marks
  let cache ← if marks.cache.size ≥ kCapacity then marks.cache.popFront else some marks.cache
  return ⟨cache.getOrDefault key () now⟩

end IDontWantCache

/-- The peers that were asked for a message, each with the time by which it should arrive. -/
structure GossipPromises (MessageId Peer : Type) where
  ttl : Ttl
  map : UnorderedMap MessageId (UnorderedMap Peer Time) := ∅

namespace GossipPromises

variable {MessageId Peer : Type} [DecidableEq MessageId] [DecidableEq Peer]

def contains (promises : GossipPromises MessageId Peer) (messageId : MessageId) : Bool := messageId ∈ promises.map

def add (promises : GossipPromises MessageId Peer) (messageId : MessageId) (peer : Peer) (now : Time) :
    GossipPromises MessageId Peer :=
  let promised := (promises.map.lookup messageId).getD ∅
  { promises with map := promises.map.insert messageId (UnorderedMap.emplace promised peer (now + promises.ttl)) }

def remove (promises : GossipPromises MessageId Peer) (messageId : MessageId) : GossipPromises MessageId Peer :=
  { promises with map := promises.map.erase messageId }

def peers (promises : GossipPromises MessageId Peer) (messageId : MessageId) : List Peer :=
  ((promises.map.lookup messageId).map AList.keys).getD []

/-- The promises of one message that are still open, and the peers whose promise has expired. -/
def expireOne (now : Time) (promised : UnorderedMap Peer Time) : UnorderedMap Peer Time × List Peer :=
  promised.entries.foldl (fun (kept, expired) entry =>
    if entry.2 < now then (kept.erase entry.1, expired ++ [entry.1]) else (kept, expired)) (promised, [])

/-- `++result[peer]`. -/
def count (result : UnorderedMap Peer ℕ) (peer : Peer) : UnorderedMap Peer ℕ :=
  result.insert peer ((result.lookup peer).getD 0 + 1)

/-- `clearExpired`: the promises that are still open and how many of each peer's promises expired. -/
def clearExpired (promises : GossipPromises MessageId Peer) (now : Time) :
    GossipPromises MessageId Peer × UnorderedMap Peer ℕ :=
  promises.map.entries.foldl (fun (promises, result) entry =>
    let (kept, expired) := expireOne now entry.2
    let result := expired.foldl count result
    let map := if kept.entries = [] then promises.map.erase entry.1 else promises.map.insert entry.1 kept
    ({ promises with map }, result)) (promises, ∅)

end GossipPromises

end Libp2p.Gossip
