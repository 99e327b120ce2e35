import Libp2p.Library.Ordered
import Libp2p.Library.Since
import Libp2p.Peer.AddressRepository
import Libp2p.ProtocolMuxer.Multiselect

/-! # The protocol repository

The protocols of a peer are an ordered set. A peer that is cleared stays without protocols until the garbage is collected,
so what is stored of a peer is told by the last commands about it.
-/

namespace Libp2p

open Library Multiselect

structure InmemProtocolRepository where
  db : UnorderedMap PeerId (OrderedSet ProtocolName) := ∅

namespace InmemProtocolRepository

def getProtocolSet (p : PeerId) (repository : InmemProtocolRepository) : Except PeerError (OrderedSet ProtocolName) :=
  match repository.db.lookup p with
  | none => .error .notFound
  | some s => .ok s

def getOrAllocateProtocolSet (p : PeerId) (repository : InmemProtocolRepository) : OrderedSet ProtocolName :=
  (repository.db.lookup p).getD ∅

def addProtocols (p : PeerId) (ms : List ProtocolName) (repository : InmemProtocolRepository) : InmemProtocolRepository :=
  { db := repository.db.insert p (ms.foldl OrderedSet.insert (repository.getOrAllocateProtocolSet p)) }

def removeProtocols (p : PeerId) (ms : List ProtocolName) (repository : InmemProtocolRepository) :
    InmemProtocolRepository × Except PeerError Unit :=
  match repository.getProtocolSet p with
  | .error error => (repository, .error error)
  | .ok s => ({ db := repository.db.insert p (ms.foldl OrderedSet.erase s) }, .ok ())

def getProtocols (p : PeerId) (repository : InmemProtocolRepository) : Except PeerError (List ProtocolName) :=
  (repository.getProtocolSet p).map OrderedSet.elements

def supportsProtocols (p : PeerId) (protocols : OrderedSet ProtocolName) (repository : InmemProtocolRepository) :
    Except PeerError (List ProtocolName) :=
  (repository.getProtocolSet p).map fun s => OrderedSet.intersection protocols.elements s.elements

/-- The peer stays, without protocols. -/
def clear (p : PeerId) (repository : InmemProtocolRepository) : InmemProtocolRepository :=
  match repository.getProtocolSet p with
  | .error _ => repository
  | .ok _ => { db := repository.db.insert p ∅ }

/-- Peers without protocols are erased. -/
def collectGarbage (repository : InmemProtocolRepository) : InmemProtocolRepository :=
  { db := UnorderedMap.eraseIf repository.db OrderedSet.isEmpty }

def getPeers (repository : InmemProtocolRepository) : List PeerId := repository.db.keys

inductive Command where
  | addProtocols (p : PeerId) (ms : List ProtocolName)
  | removeProtocols (p : PeerId) (ms : List ProtocolName)
  | clear (p : PeerId)
  | collectGarbage

def step (repository : InmemProtocolRepository) : Command → InmemProtocolRepository
  | .addProtocols p ms => repository.addProtocols p ms
  | .removeProtocols p ms => (repository.removeProtocols p ms).1
  | .clear p => repository.clear p
  | .collectGarbage => repository.collectGarbage

def run (commands : List Command) : InmemProtocolRepository := commands.foldl step {}

section History

def Command.Adds (p : PeerId) (m : ProtocolName) (_ : List Command) : Command → Prop
  | .addProtocols q ms => q = p ∧ m ∈ ms
  | _ => False

def Command.Removes (p : PeerId) (m : ProtocolName) (_ : List Command) : Command → Prop
  | .removeProtocols q ms => q = p ∧ m ∈ ms
  | .clear q => q = p
  | _ => False

/-- The protocol was added to the peer and not removed since. -/
def Supports (p : PeerId) (m : ProtocolName) : List Command → Prop := Since (Command.Adds p m) (Command.Removes p m)

def Command.Introduces (p : PeerId) (_ : List Command) : Command → Prop
  | .addProtocols q _ => q = p
  | _ => False

def Command.Forgets (p : PeerId) (history : List Command) : Command → Prop
  | .collectGarbage => ∀ m, ¬ Supports p m history
  | _ => False

/-- Something was added to the peer, if only no protocols, and at every collection since then it had some. -/
def Knows (p : PeerId) : List Command → Prop := Since (Command.Introduces p) (Command.Forgets p)

end History

variable {repository : InmemProtocolRepository} {p q : PeerId} {m : ProtocolName} {ms : List ProtocolName}
  {history commands : List Command} {command : Command} {s : Option (OrderedSet ProtocolName)}

/-- What a command makes of the set of one peer. -/
def effect (p : PeerId) (s : Option (OrderedSet ProtocolName)) : Command → Option (OrderedSet ProtocolName)
  | .addProtocols q ms => if p = q then some (ms.foldl OrderedSet.insert (s.getD ∅)) else s
  | .removeProtocols q ms => if p = q then s.map (ms.foldl OrderedSet.erase) else s
  | .clear q => if p = q then s.map fun _ => ∅ else s
  | .collectGarbage => s.filter fun set => !set.isEmpty

theorem getProtocolSet_eq : repository.getProtocolSet p = (repository.db.lookup p).elim (.error .notFound) .ok := by
  unfold getProtocolSet
  cases repository.db.lookup p <;> rfl

/-- Every command acts on each peer alone. -/
theorem lookup_step : (repository.step command).db.lookup p = effect p (repository.db.lookup p) command := by
  have replaced (q : PeerId) (before after : OrderedSet ProtocolName) (found : repository.db.lookup q = some before) :
      (repository.db.insert q after).lookup p = if p = q then (repository.db.lookup p).map fun _ => after
        else repository.db.lookup p := by
    rw [UnorderedMap.lookup_insert_eq]
    split_ifs with same
    · rw [same, found]
      rfl
    · rfl
  have missing (q : PeerId) (change : OrderedSet ProtocolName → OrderedSet ProtocolName)
      (absent : repository.db.lookup q = none) :
      repository.db.lookup p = if p = q then (repository.db.lookup p).map change else repository.db.lookup p := by
    split_ifs with same
    · rw [same, absent]
      rfl
    · rfl
  cases command with
  | addProtocols q ms =>
    rw [step, addProtocols, UnorderedMap.lookup_insert_eq, effect, getOrAllocateProtocolSet]
    split_ifs with same
    · rw [same]
    · rfl
  | removeProtocols q ms =>
    rw [step, removeProtocols, getProtocolSet_eq, effect]
    rcases found : repository.db.lookup q with _ | set
    · exact missing q _ found
    · refine (replaced q set _ found).trans ?_
      split_ifs with same
      · rw [same, found]
        rfl
      · rfl
  | clear q =>
    rw [step, clear, getProtocolSet_eq, effect]
    rcases found : repository.db.lookup q with _ | set
    · exact missing q _ found
    · exact replaced q set _ found
  | collectGarbage => exact UnorderedMap.lookup_eraseIf

/-- The set of a peer is what the history tells of it. -/
structure Recorded (p : PeerId) (history : List Command) (s : Option (OrderedSet ProtocolName)) : Prop where
  known : s.isSome ↔ Knows p history
  supported : ∀ m, (∃ set, s = some set ∧ m ∈ set) ↔ Supports p m history

theorem recorded_nil : Recorded p [] none := by
  refine ⟨iff_of_false (by simp) not_since_nil, fun m => iff_of_false ?_ not_since_nil⟩
  rintro ⟨set, found, -⟩
  cases found

/-- A command that tells nothing about the peer. -/
theorem Recorded.other (recorded : Recorded p history s) (introduces : ¬ Command.Introduces p history command)
    (forgets : ¬ Command.Forgets p history command) (adds : ∀ m, ¬ Command.Adds p m history command)
    (removes : ∀ m, ¬ Command.Removes p m history command) : Recorded p (history ++ [command]) s := by
  refine ⟨recorded.known.trans ?_, fun m => (recorded.supported m).trans ?_⟩
  · rw [Knows, since_snoc_of_not_begins introduces, and_iff_left forgets]
  · rw [Supports, since_snoc_of_not_begins (adds m), and_iff_left (removes m)]

theorem Recorded.effect (recorded : Recorded p history s) (command : Command) :
    Recorded p (history ++ [command]) (effect p s command) := by
  have knows := recorded.known
  have supports := recorded.supported
  cases command with
  | addProtocols q ms =>
    rw [InmemProtocolRepository.effect]
    split_ifs with same
    · refine ⟨iff_of_true rfl (since_snoc.mpr (.inl same.symm)), fun m => ?_⟩
      have old : m ∈ s.getD ∅ ↔ Supports p m history := by
        rw [← supports]
        rcases s with _ | set
        · simp [OrderedSet.not_mem_empty]
        · simp
      simp only [Option.some.injEq, exists_eq_left', OrderedSet.mem_insertAll, old]
      rw [Supports, since_snoc]
      exact or_congr (and_iff_right same.symm).symm (and_iff_left id).symm
    · exact recorded.other (fun begun => same (Eq.symm begun)) id (fun m begun => same begun.1.symm) fun m => id
  | removeProtocols q ms =>
    rw [InmemProtocolRepository.effect]
    split_ifs with same
    · refine ⟨?_, fun m => ?_⟩
      · rw [Option.isSome_map, knows, Knows, since_snoc_of_not_begins id]
        exact (and_iff_left id).symm
      · rw [Supports, since_snoc_of_not_begins id, ← Supports, ← supports]
        rcases s with _ | set
        · simp
        · simp only [Option.map_some, Option.some.injEq, exists_eq_left', OrderedSet.mem_eraseAll]
          rw [and_comm]
          exact and_congr_right fun _ => not_congr (and_iff_right same.symm).symm
    · exact recorded.other id id (fun m => id) fun m ended => same ended.1.symm
  | clear q =>
    rw [InmemProtocolRepository.effect]
    split_ifs with same
    · refine ⟨?_, fun m => iff_of_false ?_ ?_⟩
      · rw [Option.isSome_map, knows, Knows, since_snoc_of_not_begins id]
        exact (and_iff_left id).symm
      · rintro ⟨set, found, member⟩
        obtain ⟨-, -, rfl⟩ := Option.map_eq_some_iff.mp found
        exact OrderedSet.not_mem_empty m member
      · rw [Supports, since_snoc_of_not_begins id]
        exact fun kept => kept.2 same.symm
    · exact recorded.other id id (fun m => id) fun m ended => same (Eq.symm ended)
  | collectGarbage =>
    rw [InmemProtocolRepository.effect]
    rcases s with _ | set
    · refine ⟨iff_of_false Bool.false_ne_true ?_, fun m => (supports m).trans ?_⟩
      · rw [Knows, since_snoc_of_not_begins id]
        exact fun kept => Bool.false_ne_true (knows.mpr kept.1)
      · rw [Supports, since_snoc_of_not_begins id]
        exact (and_iff_left id).symm
    · have empty : set.isEmpty ↔ ∀ m, ¬ Supports p m history := by
        rw [OrderedSet.isEmpty_iff]
        refine forall_congr' fun m => not_congr ((supports m).symm.trans ?_).symm
        simp
      rw [Option.filter_some]
      by_cases gone : set.isEmpty
      · rw [if_neg (by simpa using gone)]
        refine ⟨iff_of_false Bool.false_ne_true ?_, fun m => iff_of_false (by simp) ?_⟩
        · rw [Knows, since_snoc_of_not_begins id]
          exact fun kept => kept.2 (empty.mp gone)
        · rw [Supports, since_snoc_of_not_begins id]
          exact fun kept => empty.mp gone m kept.1
      · rw [if_pos (by simpa using gone)]
        exact recorded.other id (mt empty.mpr gone) (fun m => id) fun m => id

theorem recorded_of_run (commands : List Command) : Recorded p commands ((run commands).db.lookup p) := by
  induction commands using List.reverseRecOn with
  | nil => exact recorded_nil
  | append_singleton commands command ih =>
    rw [run, List.foldl_append, List.foldl_cons, List.foldl_nil, lookup_step]
    exact ih.effect command

/-- After any commands the peers are those that something was added to and that had a protocol whenever garbage was
collected since. The protocols of such a peer are listed in ascending order, each once; they are those that were added and
neither removed nor cleared since, and of the wanted ones exactly these are found. Any other peer has none, and removing
from it fails and changes nothing. -/
theorem protocols_of_run (commands : List Command) (p : PeerId) :
    (p ∈ (run commands).getPeers ↔ Knows p commands) ∧
    (Knows p commands → ∃ ms, (run commands).getProtocols p = .ok ms ∧ ms.Pairwise (· < ·) ∧
      (∀ m, m ∈ ms ↔ Supports p m commands) ∧
      ∀ wanted, (run commands).supportsProtocols p wanted = .ok (wanted.elements.filter (· ∈ ms))) ∧
    (¬ Knows p commands → (∀ m, ¬ Supports p m commands) ∧ (run commands).getProtocols p = .error .notFound ∧
      (∀ wanted, (run commands).supportsProtocols p wanted = .error .notFound) ∧
      ∀ ms, (run commands).removeProtocols p ms = (run commands, .error .notFound)) := by
  obtain ⟨known, supported⟩ := @recorded_of_run p commands
  refine ⟨?_, fun knows => ?_, fun unknown => ?_⟩
  · rw [← known, AList.lookup_isSome]
    exact AList.mem_keys
  · obtain ⟨set, found⟩ := Option.isSome_iff_exists.mp (known.mpr knows)
    refine ⟨set.elements, ?_, set.ascending, fun m => ?_, fun wanted => ?_⟩
    · rw [getProtocols, getProtocolSet_eq, found]
      rfl
    · rw [← supported, found]
      simp only [Option.some.injEq, exists_eq_left']
      rfl
    · have common := OrderedSet.intersection_eq wanted.ascending set.ascending
      rw [supportsProtocols, getProtocolSet_eq, found]
      exact congrArg Except.ok (common.trans (List.filter_congr fun m _ => decide_eq_decide.mpr Iff.rfl))
  · have absent : (run commands).db.lookup p = none := Option.not_isSome_iff_eq_none.mp (mt known.mp unknown)
    refine ⟨fun m supports => ?_, ?_, fun wanted => ?_, fun ms => ?_⟩
    · obtain ⟨set, found, -⟩ := (supported m).mpr supports
      rw [absent] at found
      cases found
    · rw [getProtocols, getProtocolSet_eq, absent]
      rfl
    · rw [supportsProtocols, getProtocolSet_eq, absent]
      rfl
    · rw [removeProtocols, getProtocolSet_eq, absent]
      rfl

end InmemProtocolRepository

end Libp2p
