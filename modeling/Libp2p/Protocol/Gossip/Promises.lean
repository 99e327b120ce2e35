import Libp2p.Protocol.Gossip.Amplification

/-! # Promises of advertised messages

A peer that advertises a message promises it once it is asked for. The history of a run notes when a promise is made,
when its message is taken as new and when the promise is charged to the peer. A promise is open as long as the last
note about its message is the one that made it, and only open promises are charged.
-/

namespace Libp2p.Gossip

open Library State

namespace GossipPromises

variable {Key Peer : Type} [DecidableEq Key] [DecidableEq Peer] {promises : GossipPromises Key Peer} {now : Time}
  {result : UnorderedMap Peer ℕ} {promised : UnorderedMap Peer Time} {peer : Peer} {time : Time} {key : Key}

/-- Every message is promised by one peer. -/
def Single (promises : GossipPromises Key Peer) : Prop :=
  ∀ key promised, promises.map.lookup key = some promised → ∃ peer time, promised.entries = [⟨peer, time⟩]

theorem expireOne_single (one : promised.entries = [⟨peer, time⟩]) : expireOne now promised =
    if time < now then (promised.erase peer, [peer]) else (promised, []) := by
  simp [expireOne, one]

theorem erase_single (one : promised.entries = [⟨peer, time⟩]) : (promised.erase peer).entries = [] := by
  change List.kerase peer promised.entries = []
  simp [one]

/-- The promises of one message that are charged. -/
def overdue (now : Time) (promised : UnorderedMap Peer Time) : List Peer :=
  (promised.entries.filter fun entry => entry.2 < now).map Sigma.fst

omit [DecidableEq Peer] in
theorem overdue_single (one : promised.entries = [⟨peer, time⟩]) :
    overdue now promised = if time < now then [peer] else [] := by
  rw [overdue, one]
  by_cases late : time < now <;> simp [late]

theorem lookup_count {other : Peer} : ((count result peer).lookup other).getD 0 =
    (result.lookup other).getD 0 + [peer].count other := by
  rw [count, UnorderedMap.lookup_insert_eq]
  by_cases same : other = peer
  · subst same
    simp
  · simp [same, Ne.symm same]

/-- The sweep over some entries of the promises: it erases what is overdue and counts it. -/
theorem sweep_entries {entries : List (Sigma fun _ : Key => UnorderedMap Peer Time)}
    (single : ∀ entry ∈ entries, ∃ peer time, entry.2.entries = [⟨peer, time⟩])
    (held : ∀ entry ∈ entries, promises.map.lookup entry.1 = some entry.2) (distinct : (entries.map Sigma.fst).Nodup) :
    let swept := entries.foldl (fun (pair : GossipPromises Key Peer × UnorderedMap Peer ℕ) entry =>
      ({ pair.1 with map := if (expireOne now entry.2).1.entries = [] then pair.1.map.erase entry.1
          else pair.1.map.insert entry.1 (expireOne now entry.2).1 }, (expireOne now entry.2).2.foldl count pair.2))
      (promises, result)
    swept.1.ttl = promises.ttl ∧
      (∀ entry ∈ entries, overdue now entry.2 ≠ [] → swept.1.map.lookup entry.1 = none) ∧
      (∀ key, (∀ entry ∈ entries, entry.1 = key → overdue now entry.2 = []) →
        swept.1.map.lookup key = promises.map.lookup key) ∧
      ∀ peer, (swept.2.lookup peer).getD 0 =
        (result.lookup peer).getD 0 + (entries.flatMap fun entry => overdue now entry.2).count peer := by
  induction entries generalizing promises result with
  | nil => simp
  | cons entry rest ih =>
    obtain ⟨peer, time, one⟩ := single entry (by simp)
    obtain ⟨fresh, distinct⟩ := List.nodup_cons.mp distinct
    have different : ∀ other ∈ rest, other.1 ≠ entry.1 := fun other member same =>
      fresh (same ▸ List.mem_map_of_mem member)
    have spared : ∀ other ∈ rest, other.1 = entry.1 → overdue now other.2 = [] :=
      fun other member same => absurd same (different other member)
    rw [List.foldl_cons]
    simp only [expireOne_single one]
    by_cases late : time < now
    · simp only [if_pos late, erase_single one, List.foldl_cons, List.foldl_nil, if_true]
      obtain ⟨ttl, gone, stayed, counts⟩ := @ih { promises with map := promises.map.erase entry.1 } (count result peer)
        (fun other member => single other (by simp [member]))
        (fun other member => by
          rw [UnorderedMap.lookup_erase_eq, if_neg (different other member)]
          exact held other (by simp [member])) distinct
      refine ⟨ttl, ?_, fun key kept => ?_, fun other => ?_⟩
      · refine List.forall_mem_cons.mpr ⟨fun _ => ?_, gone⟩
        rw [stayed entry.1 spared, UnorderedMap.lookup_erase_eq, if_pos rfl]
      · obtain ⟨first, kept⟩ := List.forall_mem_cons.mp kept
        have other : key ≠ entry.1 := by
          rintro rfl
          simpa [overdue_single one, late] using first rfl
        rw [stayed key kept, UnorderedMap.lookup_erase_eq, if_neg other]
      · rw [counts, lookup_count, List.flatMap_cons, overdue_single one, if_pos late, List.count_append, add_assoc]
    · have present : promises.map.lookup entry.1 = some entry.2 := held entry (by simp)
      have filled : ¬ entry.2.entries = [] := by simp [one]
      simp only [if_neg late, if_neg filled, List.foldl_nil]
      obtain ⟨ttl, gone, stayed, counts⟩ := @ih { promises with map := promises.map.insert entry.1 entry.2 } result
        (fun other member => single other (by simp [member]))
        (fun other member => by
          rw [UnorderedMap.lookup_insert_eq, if_neg (different other member)]
          exact held other (by simp [member])) distinct
      refine ⟨ttl, ?_, fun key kept => ?_, fun other => ?_⟩
      · refine List.forall_mem_cons.mpr ⟨fun overdue => ?_, gone⟩
        rw [overdue_single one, if_neg late] at overdue
        exact absurd rfl overdue
      · rw [stayed key (List.forall_mem_cons.mp kept).2, UnorderedMap.lookup_insert_eq]
        split_ifs with same
        · rw [same, present]
        · rfl
      · rw [counts, List.flatMap_cons, overdue_single one, if_neg late, List.nil_append]

/-- A sweep erases the overdue promises and counts them for their peers. -/
theorem clearExpired_spec (single : promises.Single) :
    (promises.clearExpired now).1.ttl = promises.ttl ∧
      (∀ key, (promises.clearExpired now).1.map.lookup key =
        (promises.map.lookup key).filter fun promised => overdue now promised = []) ∧
      ∀ peer, ((promises.clearExpired now).2.lookup peer).getD 0 =
        (promises.map.entries.flatMap fun entry => overdue now entry.2).count peer := by
  have held : ∀ entry ∈ promises.map.entries, promises.map.lookup entry.1 = some entry.2 :=
    fun entry member => AList.mem_lookup_iff.mpr member
  obtain ⟨ttl, gone, stayed, counts⟩ := @sweep_entries Key Peer _ _ promises now ∅ promises.map.entries
    (fun entry member => single entry.1 entry.2 (held entry member)) held promises.map.nodupKeys
  refine ⟨ttl, fun key => ?_, fun peer => (counts peer).trans (Nat.zero_add _)⟩
  cases found : promises.map.lookup key with
  | none =>
    refine (stayed key fun entry member same => ?_).trans found
    rw [← same, held entry member] at found
    cases found
  | some promised =>
    have listed : (⟨key, promised⟩ : Sigma fun _ => UnorderedMap Peer Time) ∈ promises.map.entries :=
      AList.mem_lookup_iff.mp found
    by_cases late : overdue now promised = []
    · rw [Option.filter_some, if_pos (decide_eq_true late)]
      refine (stayed key fun entry member same => ?_).trans found
      rw [← same, held entry member] at found
      obtain rfl := Option.some.inj found
      exact late
    · rw [Option.filter_some, if_neg (by simpa using late)]
      exact gone _ listed late

end GossipPromises

/-- What happens to the promises of messages along a run. -/
inductive PromiseNote where
  | made (messageId : MessageId) (peer : PeerPtr) (time : Time)
  | fulfilled (messageId : MessageId)
  | charged (messageId : MessageId) (peer : PeerPtr) (time : Time)
deriving DecidableEq

namespace PromiseNote

def messageId : PromiseNote → MessageId
  | made messageId _ _ => messageId
  | fulfilled messageId => messageId
  | charged messageId _ _ => messageId

/-- A charge of the peer. -/
def charges (peer : PeerPtr) : PromiseNote → Bool
  | charged _ other _ => other = peer
  | _ => false

end PromiseNote

/-- The charges of a sweep, one for every overdue promise. -/
def chargesOf (now : Time) (promises : GossipPromises MessageId PeerPtr) : List PromiseNote :=
  promises.map.entries.flatMap fun entry =>
    (GossipPromises.overdue now entry.2).map fun peer => .charged entry.1 peer now

/-- A message that was asked for. -/
def Observation.wanted : Observation → Option MessageId
  | .queued _ (.iwant messageId) => some messageId
  | _ => none

namespace State

variable {R : Type} [Double R] (env : Env R) (peer : PeerPtr)

/-- Promises are made one reading of the clock after the other. -/
def promisesMade : ℕ → List MessageId → List PromiseNote
  | _, [] => []
  | readings, messageId :: rest => .made messageId peer (env.clock readings) :: promisesMade (readings + 1) rest

/-- Accepted messages fulfil promises, and advertised messages that are asked for are promised. -/
def promising : Annotations R PromiseNote where
  publish state pbPublish := (state.admitted (state.onPublish env peer pbPublish)).map .fulfilled
  ihave state pbIhaves := promisesMade env peer state.readings
    ((state.gained (state.handleIhave env peer pbIhaves).1).filterMap Observation.wanted)
  iwant _ _ := []

/-- The promises that a heartbeat charges to the peers that made them. -/
def charges (state : State R) : List PromiseNote := chargesOf (state.now env) state.gossipPromises

/-- What a step notes about promises. -/
def promiseNotes (state : State R) : Event → List PromiseNote
  | .message peer encoded => state.notesMessage env peer (promising env peer) encoded
  | .publish topicHash data => (state.admitted (state.publish env topicHash data)).map .fulfilled
  | .publishTopic topicHash data => (state.admitted (state.publishTopic env topicHash data)).map .fulfilled
  | .heartbeat => state.charges env
  | _ => []

end State

/-- The last note about the message is the promise of the peer. -/
def Outstanding (notes : List PromiseNote) (messageId : MessageId) (peer : PeerPtr) (time : Time) : Prop :=
  ∃ early late, notes = early ++ .made messageId peer time :: late ∧ ∀ note ∈ late, note.messageId ≠ messageId

/-- Every charge is for a promise that was open, and comes later than the promise allows. -/
def Earned (followup : Ttl) (notes : List PromiseNote) : Prop :=
  ∀ early messageId peer time late, notes = early ++ .charged messageId peer time :: late →
    ∃ made, Outstanding early messageId peer made ∧ made + followup < time

section Notes

variable {notes more : List PromiseNote} {messageId : MessageId} {peer : PeerPtr} {time : Time} {followup : Ttl}

theorem Outstanding.append (open_ : Outstanding notes messageId peer time)
    (others : ∀ note ∈ more, note.messageId ≠ messageId) : Outstanding (notes ++ more) messageId peer time := by
  obtain ⟨early, late, rfl, silent⟩ := open_
  refine ⟨early, late ++ more, by simp, fun note member => ?_⟩
  rcases List.mem_append.mp member with here | here
  · exact silent note here
  · exact others note here

theorem outstanding_made : Outstanding (notes ++ [.made messageId peer time]) messageId peer time :=
  ⟨notes, [], rfl, by simp⟩

/-- New charges have to be earned in their turn. -/
theorem Earned.append (earned : Earned followup notes)
    (fresh : ∀ early messageId peer time late, more = early ++ .charged messageId peer time :: late →
      ∃ made, Outstanding (notes ++ early) messageId peer made ∧ made + followup < time) :
    Earned followup (notes ++ more) := by
  intro early messageId peer time late same
  rcases List.append_eq_append_iff.mp same with ⟨front, rfl, rest⟩ | ⟨back, rfl, rest⟩
  · exact fresh front messageId peer time late rest
  · cases back with
    | nil =>
      obtain ⟨made, open_, late⟩ := fresh [] messageId peer time late rest.symm
      simp only [List.append_nil] at open_
      exact ⟨made, open_, late⟩
    | cons note back =>
      obtain ⟨rfl, -⟩ := List.cons.inj rest
      exact earned early messageId peer time back rfl

theorem Earned.silent (earned : Earned followup notes) (silent : ∀ note ∈ more, ∀ messageId peer time,
    note ≠ .charged messageId peer time) : Earned followup (notes ++ more) := by
  refine earned.append fun early messageId peer time late same => ?_
  exact absurd rfl (silent (.charged messageId peer time) (by simp [same]) messageId peer time)

end Notes

variable {R : Type} [Double R] {env : Env R} {event : Event} {state before after : State R} {peer : PeerPtr}
  {notes : List PromiseNote} {requests : Requests} {messageId : MessageId}

/-- Promises are open, made by one peer each and for messages that are not known; charges are earned. -/
structure Promised (env : Env R) (notes : List PromiseNote) (requests : Requests) : Prop where
  ttl : requests.promises.ttl = env.config.iwantFollowupTime
  owed : ∀ messageId promised, requests.promises.map.lookup messageId = some promised → ∃ peer time,
    promised.entries = [⟨peer, time + env.config.iwantFollowupTime⟩] ∧ Outstanding notes messageId peer time
  unknown : ∀ messageId ∈ requests.promises.map, messageId ∉ requests.duplicates.cache.map
  earned : Earned env.config.iwantFollowupTime notes

section Operations

theorem Promised.frame {other : Requests} (promised : Promised env notes requests)
    (promises : other.promises = requests.promises) (duplicates : other.duplicates = requests.duplicates) :
    Promised env notes other := by
  obtain ⟨ttl, owed, unknown, earned⟩ := promised
  rw [← promises] at ttl owed unknown
  rw [← duplicates] at unknown
  exact ⟨ttl, owed, unknown, earned⟩

/-- A duplicate is known already, and nothing else becomes known. -/
theorem Promised.duplicate {now later : Time} (promised : Promised env notes requests)
    (known : (requests.duplicates.insert messageId now later).2 = false) :
    Promised env notes { requests with duplicates := (requests.duplicates.insert messageId now later).1 } := by
  have present : messageId ∈ requests.duplicates.cache.map := by
    by_contra absent
    have fresh : (requests.duplicates.insert messageId now later).2 = true :=
      DuplicateCache.insert_fresh_iff.mpr fun left => absent (TimeCache.mem_of_mem_clearExpired left)
    rw [known] at fresh
    cases fresh
  refine ⟨promised.ttl, promised.owed, fun other pending found => ?_, promised.earned⟩
  rcases DuplicateCache.mem_insert_or found with rfl | old
  · exact promised.unknown other pending present
  · exact promised.unknown other pending old

/-- A message that is taken as new is no longer promised. -/
theorem Promised.accept (promised : Promised env notes before.requests) :
    Promised env (notes ++ [.fulfilled messageId]) (.accept env before messageId) := by
  refine ⟨promised.ttl, fun other promise found => ?_, fun other pending known => ?_, ?_⟩
  · change (before.requests.promises.map.erase messageId).lookup other = some promise at found
    rw [UnorderedMap.lookup_erase_eq] at found
    split_ifs at found with same
    obtain ⟨peer, time, one, open_⟩ := promised.owed other promise found
    exact ⟨peer, time, one, open_.append (by simpa [PromiseNote.messageId] using Ne.symm same)⟩
  · obtain ⟨different, pending⟩ := AList.mem_erase.mp pending
    rcases DuplicateCache.mem_insert_or known with rfl | old
    · exact different rfl
    · exact promised.unknown other pending old
  · exact promised.earned.silent (by simp)

/-- A promise is made for a message that nobody has promised and that is not known. -/
theorem Promised.make {time : Time} (promised : Promised env notes requests)
    (free : messageId ∉ requests.promises.map) (fresh : messageId ∉ requests.duplicates.cache.map) :
    Promised env (notes ++ [.made messageId peer time])
      { requests with promises := requests.promises.add messageId peer time } := by
  have added : (requests.promises.add messageId peer time).map =
      requests.promises.map.insert messageId ((∅ : UnorderedMap PeerPtr Time).insert peer
        (time + env.config.iwantFollowupTime)) := by
    rw [GossipPromises.add, AList.lookup_eq_none.mpr free, promised.ttl]
    rfl
  refine ⟨promised.ttl, fun other promise found => ?_, fun other pending known => ?_, ?_⟩
  · dsimp only at found
    rw [added, UnorderedMap.lookup_insert_eq] at found
    split_ifs at found with same
    · subst same
      obtain rfl := Option.some.inj found
      exact ⟨peer, time, rfl, outstanding_made⟩
    · obtain ⟨peer, time, one, open_⟩ := promised.owed other promise found
      exact ⟨peer, time, one, open_.append (by simpa [PromiseNote.messageId] using Ne.symm same)⟩
  · dsimp only at pending
    rw [added, AList.mem_insert] at pending
    rcases pending with rfl | old
    · exact fresh known
    · exact promised.unknown other old known
  · exact promised.earned.silent (by simp)

theorem Promised.single (promised : Promised env notes requests) : requests.promises.Single := by
  intro key promise found
  obtain ⟨peer, time, one, -⟩ := promised.owed key promise found
  exact ⟨peer, _, one⟩

/-- Charges before that of a message are for other messages. -/
theorem charges_distinct {entries : List (Sigma fun _ : MessageId => UnorderedMap PeerPtr Time)} {now : Time}
    (single : ∀ entry ∈ entries, ∃ peer time, entry.2.entries = [⟨peer, time⟩])
    (distinct : (entries.map Sigma.fst).Nodup) {early late : List PromiseNote} {note : PromiseNote}
    (charges : (entries.flatMap fun entry =>
      (GossipPromises.overdue now entry.2).map fun peer => PromiseNote.charged entry.1 peer now) = early ++ note :: late) :
    (∃ entry ∈ entries, ∃ peer time, entry.2.entries = [⟨peer, time⟩] ∧ time < now ∧ note = .charged entry.1 peer now) ∧
      ∀ other ∈ early, other.messageId ≠ note.messageId := by
  induction entries generalizing early with
  | nil => simp at charges
  | cons entry rest ih =>
    obtain ⟨peer, time, one⟩ := single entry (by simp)
    obtain ⟨fresh, distinct⟩ := List.nodup_cons.mp distinct
    have later : ∀ entry ∈ rest, ∃ peer time, entry.2.entries = [⟨peer, time⟩] :=
      fun entry member => single entry (by simp [member])
    rw [List.flatMap_cons, GossipPromises.overdue_single one] at charges
    by_cases late : time < now
    · rw [if_pos late, List.map_singleton, List.singleton_append] at charges
      cases early with
      | nil =>
        obtain ⟨rfl, -⟩ := List.cons.inj charges
        exact ⟨⟨entry, by simp, peer, time, one, late, rfl⟩, by simp⟩
      | cons first early =>
        obtain ⟨rfl, following⟩ := List.cons.inj charges
        obtain ⟨⟨other, member, found⟩, different⟩ := ih later distinct following
        refine ⟨⟨other, by simp [member], found⟩, List.forall_mem_cons.mpr ⟨?_, different⟩⟩
        obtain ⟨peer, time, -, -, rfl⟩ := found
        intro same
        exact fresh (List.mem_map.mpr ⟨other, member, same.symm⟩)
    · rw [if_neg late, List.map_nil, List.nil_append] at charges
      obtain ⟨⟨other, member, found⟩, different⟩ := ih later distinct charges
      exact ⟨⟨other, by simp [member], found⟩, different⟩

/-- A sweep charges the promises that it drops. -/
theorem Promised.sweep {now : Time} (promised : Promised env notes requests) :
    Promised env (notes ++ chargesOf now requests.promises)
      { requests with promises := (requests.promises.clearExpired now).1 } := by
  obtain ⟨ttl, lookups, -⟩ := @GossipPromises.clearExpired_spec _ _ _ _ requests.promises now promised.single
  have held : ∀ entry ∈ requests.promises.map.entries, requests.promises.map.lookup entry.1 = some entry.2 :=
    fun entry member => AList.mem_lookup_iff.mpr member
  have kept : ∀ messageId promise, (requests.promises.clearExpired now).1.map.lookup messageId = some promise →
      requests.promises.map.lookup messageId = some promise ∧ GossipPromises.overdue now promise = [] := by
    intro messageId promise found
    rw [lookups, Option.filter_eq_some_iff, decide_eq_true_eq] at found
    exact found
  refine ⟨ttl.trans promised.ttl, fun messageId promise found => ?_, fun messageId pending => ?_, ?_⟩
  · obtain ⟨found, due⟩ := kept messageId promise found
    obtain ⟨peer, time, one, open_⟩ := promised.owed messageId promise found
    refine ⟨peer, time, one, open_.append fun note member => ?_⟩
    obtain ⟨entry, listed, charged⟩ := List.mem_flatMap.mp member
    obtain ⟨other, overdue, rfl⟩ := List.mem_map.mp charged
    rintro rfl
    rw [Option.some.inj ((held entry listed).symm.trans found), due] at overdue
    cases overdue
  · obtain ⟨promise, found⟩ := UnorderedMap.exists_lookup_of_mem pending
    exact promised.unknown messageId (UnorderedMap.mem_of_lookup (kept messageId promise found).1)
  · refine promised.earned.append fun early messageId peer time late charges => ?_
    obtain ⟨⟨entry, listed, other, expiry, one, overdue, same⟩, different⟩ := charges_distinct
      (fun entry member => promised.single entry.1 entry.2 (held entry member)) requests.promises.map.nodupKeys charges
    obtain ⟨rfl, rfl, rfl⟩ := PromiseNote.charged.inj same
    obtain ⟨peer', made, one', open_⟩ := promised.owed entry.1 entry.2 (held entry listed)
    rw [one] at one'
    obtain ⟨rfl, rfl⟩ : peer = peer' ∧ expiry = made + env.config.iwantFollowupTime := by simpa using one'
    exact ⟨made, open_.append different, overdue⟩

end Operations

section Parts

/-- Wanted ids are neither known nor promised. -/
theorem wanted_fresh {pbIhaves : List Pb.ControlIHave} {wanted : UnorderedSet MessageId}
    (start : ∀ messageId ∈ wanted.elements, messageId ∉ state.gossipPromises.map ∧
      messageId ∉ state.duplicateCache.cache.map) :
    ∀ messageId ∈ (pbIhaves.foldl (state.wantedIds env peer) wanted).elements,
      messageId ∉ state.gossipPromises.map ∧ messageId ∉ state.duplicateCache.cache.map := by
  have ids : ∀ (ids : List MessageId) (wanted : UnorderedSet MessageId),
      (∀ messageId ∈ wanted.elements, messageId ∉ state.gossipPromises.map ∧
        messageId ∉ state.duplicateCache.cache.map) →
      ∀ messageId ∈ (ids.foldl (fun wanted messageId =>
        if state.duplicateCache.contains messageId then wanted
        else if state.gossipPromises.contains messageId then wanted
        else wanted.insert messageId) wanted).elements,
        messageId ∉ state.gossipPromises.map ∧ messageId ∉ state.duplicateCache.cache.map := by
    intro ids
    induction ids with
    | nil => exact fun _ start => start
    | cons first rest ih =>
      intro wanted start
      rw [List.foldl_cons]
      apply ih
      split_ifs with known promised
      · exact start
      · exact start
      · intro messageId member
        rcases UnorderedSet.mem_insert.mp member with rfl | old
        · refine ⟨fun present => promised (decide_eq_true present), fun present => known (decide_eq_true present)⟩
        · exact start messageId old
  induction pbIhaves generalizing wanted with
  | nil => exact start
  | cons pbIhave rest ih =>
    rw [List.foldl_cons]
    apply ih
    unfold wantedIds
    split_ifs
    · exact start
    · exact ids _ _ start
    · exact start

theorem requests_requestMessage : (state.requestMessage env peer messageId).requests = { state.requests with
    promises := state.requests.promises.add messageId peer (state.now env) } := by
  rw [requestMessage, requests_enqueue]
  rfl

theorem readings_requestMessage : (state.requestMessage env peer messageId).readings = state.readings + 1 := by
  rw [requestMessage, enqueue_eq]
  rfl

/-- Every request is a promise. -/
theorem promised_requests {ids : List MessageId} (distinct : ids.Nodup)
    (fresh : ∀ messageId ∈ ids, messageId ∉ state.requests.promises.map ∧
      messageId ∉ state.requests.duplicates.cache.map) (promised : Promised env notes state.requests) :
    Promised env (notes ++ promisesMade env peer state.readings ids)
      (ids.foldl (requestMessage env peer) state).requests := by
  induction ids generalizing state notes with
  | nil => simpa [promisesMade] using promised
  | cons messageId rest ih =>
    obtain ⟨absent, distinct⟩ := List.nodup_cons.mp distinct
    obtain ⟨free, new⟩ := fresh messageId (by simp)
    have made : Promised env (notes ++ [.made messageId peer (state.now env)])
        (state.requestMessage env peer messageId).requests := by
      rw [requests_requestMessage]
      exact promised.make free new
    rw [promisesMade, List.foldl_cons, ← List.singleton_append, ← List.append_assoc, ← readings_requestMessage]
    refine ih distinct (fun other member => ?_) made
    obtain ⟨free, new⟩ := fresh other (by simp [member])
    rw [requests_requestMessage]
    refine ⟨fun pending => ?_, new⟩
    rcases (AList.mem_insert _).mp pending with rfl | old
    · exact absent member
    · exact free old

/-- The requests start from the same promises and the same reading. -/
theorem requestMessages_eq (wanted : UnorderedSet MessageId) : ∃ start : State R, start.readings = state.readings ∧
    start.requests.promises = state.gossipPromises ∧ start.requests.duplicates = state.duplicateCache ∧
    state.requestMessages env peer wanted = (wantedPart env peer wanted state).foldl (requestMessage env peer) start := by
  refine ⟨_, ?_, ?_, ?_, rfl⟩
  · rw [getBatch_eq]
  · rw [requests_getBatch]
    rfl
  · rw [requests_getBatch]
    rfl

theorem promised_handleIhave (promised : Promised env notes state.requests) (pbIhaves : List Pb.ControlIHave) :
    Promised env (notes ++ (promising env peer).ihave state pbIhaves) (state.handleIhave env peer pbIhaves).1.requests := by
  have silent : (state.countIhave peer).log = state.log := rfl
  have counted : Promised env notes (state.countIhave peer).requests := promised.frame rfl rfl
  dsimp only [promising]
  rcases handleIhave_cases env peer pbIhaves state with
    ⟨-, handled | handled⟩ | ⟨-, -, handled | handled⟩
  · rw [handled, gained_same rfl, List.filterMap_nil, promisesMade, List.append_nil]
    exact promised
  · rw [handled, gained_same silent, List.filterMap_nil, promisesMade, List.append_nil]
    exact counted
  · rw [handled, gained_same silent, List.filterMap_nil, promisesMade, List.append_nil]
    exact counted
  · obtain ⟨-, -, log⟩ := @requestMessages_spec R _ env (state.countIhave peer) peer
      (pbIhaves.foldl ((state.countIhave peer).wantedIds env peer) ∅)
    have fresh := @wanted_fresh R _ env (state.countIhave peer) peer pbIhaves ∅ (by simp [EmptyCollection.emptyCollection])
    generalize pbIhaves.foldl ((state.countIhave peer).wantedIds env peer) ∅ = wanted at handled log fresh
    have asked : (state.gained (state.handleIhave env peer pbIhaves).1).filterMap Observation.wanted =
        wantedPart env peer wanted (state.countIhave peer) := by
      rw [silent] at log
      rw [handled, gained_append log, List.reverse_reverse, List.filterMap_map]
      exact List.filterMap_some
    have part : (wantedPart env peer wanted (state.countIhave peer)).Sublist
        (env.shuffleIds (state.countIhave peer).random wanted.elements) := List.take_sublist _ _
    have shuffled := env.shuffleIds_perm (state.countIhave peer).random wanted.elements
    have distinct : (wantedPart env peer wanted (state.countIhave peer)).Nodup :=
      (shuffled.nodup_iff.mpr wanted.nodup).sublist part
    obtain ⟨start, readings, promises, duplicates, requested⟩ :=
      @requestMessages_eq R _ env (state.countIhave peer) peer wanted
    have begun : start.readings = state.readings := readings
    rw [asked, handled, requested, ← begun]
    refine promised_requests distinct (fun messageId member => ?_) (counted.frame promises duplicates)
    rw [promises, duplicates]
    exact fresh messageId (shuffled.subset (part.subset member))

/-- Every part of a frame keeps the promises. -/
theorem promised_parts (rpc : Pb.RPC) :
    KeptByParts env peer (promising env peer) rpc fun notes (state : State R) => Promised env notes state.requests where
  subscribed _ _ _ _ promised := by rwa [requests_onSubscription]
  published notes state entry _ promised := by
    have arrival : Arrival env state (state.onPublish env peer entry) := arrival_onPublish entry
    dsimp only [promising]
    cases arrival with
    | dropped requests none =>
      rw [none, requests, List.map_nil, List.append_nil]
      exact promised
    | duplicate messageId known requests none =>
      rw [none, requests, List.map_nil, List.append_nil]
      exact promised.duplicate known
    | accepted messageId requests one =>
      rw [one, requests]
      exact promised.accept
  grafted _ _ _ _ _ promised := by rwa [requests_onGraft]
  pruned _ _ _ _ promised := by rwa [requests_onPrune]
  advertised _ _ promised := promised_handleIhave promised _
  served notes state messageId promised := by
    rw [requests_serveMessage]
    simpa [promising] using promised
  refused _ _ _ _ promised := by rwa [requests_onIdontwant]

end Parts

section Runs

variable {lastSeqNo : Seqno} {events : List Event}

theorem Promised.publication (promised : Promised env notes before.requests)
    (publication : Publication env before after) :
    Promised env (notes ++ (before.admitted after).map .fulfilled) after.requests := by
  cases publication with
  | duplicate requests none =>
    rw [none, requests, List.map_nil, List.append_nil]
    exact promised
  | published messageId requests one =>
    rw [one, requests]
    exact promised.accept

/-- Penalties are applied and noted in the order of their list. -/
theorem penalties_eq {entries : List (Sigma fun _ : PeerPtr => ℕ)} : entries.foldl (fun (state : State R) entry =>
      (state.modifyScore fun score => score.addPenalty (state.heap entry.1).peerId entry.2).record
        (.penalized (state.heap entry.1).peerId entry.2)) state = { state with
    score := entries.foldl (fun score entry => score.addPenalty (state.heap entry.1).peerId entry.2) state.score
    log := (entries.map fun entry => .penalized (state.heap entry.1).peerId entry.2).reverse ++ state.log } := by
  induction entries generalizing state with
  | nil => rfl
  | cons entry rest ih =>
    rw [List.foldl_cons, ih, List.map_cons, List.reverse_cons, List.append_assoc]
    rfl

/-- The sweep of a heartbeat: it takes the reading at which the heartbeat starts, and applies what it counted. -/
theorem startHeartbeat_sweep :
    (state.startHeartbeat env).requests.promises = (state.gossipPromises.clearExpired (state.now env)).1 ∧
      (state.startHeartbeat env).requests.duplicates = state.duplicateCache ∧
      (state.startHeartbeat env).score = (state.gossipPromises.clearExpired (state.now env)).2.entries.foldl
        (fun score entry => score.addPenalty (state.heap entry.1).peerId entry.2) state.score ∧
      state.gained (state.startHeartbeat env) = (state.gossipPromises.clearExpired (state.now env)).2.entries.map
        fun entry => .penalized (state.heap entry.1).peerId entry.2 := by
  have swept : state.startHeartbeat env = _ := penalties_eq
  rw [shiftBackoffs_eq] at swept
  have log : (state.startHeartbeat env).log = ((state.gossipPromises.clearExpired (state.now env)).2.entries.map
      fun entry => Observation.penalized (state.heap entry.1).peerId entry.2).reverse ++ state.log := by
    rw [swept]
    rfl
  refine ⟨by rw [swept]; rfl, by rw [swept]; rfl, by rw [swept]; rfl, ?_⟩
  rw [gained_append log, List.reverse_reverse]

theorem promised_heartbeat (promised : Promised env notes state.requests) :
    Promised env (notes ++ state.charges env) (state.heartbeat env).requests := by
  obtain ⟨promises, duplicates, -⟩ := @startHeartbeat_sweep R _ env state
  rw [requests_heartbeat]
  have swept : Promised env (notes ++ state.charges env) _ :=
    @Promised.sweep R _ env notes state.requests (state.now env) promised
  exact swept.frame promises duplicates

theorem promised_step (sound : before.roster.Sound) (stepped : before.step env event = some after)
    (promised : Promised env notes before.requests) :
    Promised env (notes ++ before.promiseNotes env event) after.requests := by
  cases event with
  | message peer encoded =>
    obtain ⟨-, ⟨⟩⟩ := Option.ite_none_right_eq_some.mp stepped
    exact KeptByParts.onMessage (fun rpc _ => promised_parts rpc) promised
  | heartbeat =>
    obtain rfl := Option.some.inj stepped
    exact promised_heartbeat promised
  | publish topicHash data =>
    obtain rfl := Option.some.inj stepped
    exact promised.publication (publication_publish data)
  | publishTopic topicHash data =>
    obtain ⟨-, ⟨⟩⟩ := Option.ite_none_right_eq_some.mp stepped
    exact promised.publication (publication_publishTopic data)
  | _ =>
    have same : after.requests = before.requests :=
      step_preserves (fun state => state.requests = before.requests)
        (fun _ _ micro same => (micro.requests (by simp) rfl rfl).trans same) sound stepped rfl
    change Promised env (notes ++ []) after.requests
    rw [List.append_nil, same]
    exact promised

theorem promised_initial : Promised env [] (State.initial env lastSeqNo).requests where
  ttl := rfl
  owed _ _ found := by cases found
  unknown messageId pending := absurd pending (AList.notMem_empty messageId)
  earned early messageId peer time late same := by simp at same

theorem promised_of_run
    (collected : Run (Collecting (Stepping env) (State.promiseNotes env)) (State.initial env lastSeqNo, []) events
      (state, notes)) : Promised env notes state.requests := by
  have both : state.roster.Sound ∧ Promised env notes state.requests := by
    refine collected.preserves (fun pair => pair.1.roster.Sound ∧ Promised env pair.2 pair.1.requests)
      ⟨sound_of_runs .nil, promised_initial⟩ ?_
    rintro event ⟨before, notes⟩ ⟨after, more⟩ ⟨sound, promised⟩ ⟨stepped, rfl⟩
    exact ⟨sound_of_step sound stepped, promised_step sound stepped promised⟩
  exact both.2

theorem count_charges {entries : List (Sigma fun _ : MessageId => UnorderedMap PeerPtr Time)} {now : Time} :
    (entries.flatMap fun entry => (GossipPromises.overdue now entry.2).map fun peer =>
      PromiseNote.charged entry.1 peer now).countP (PromiseNote.charges peer) =
      (entries.flatMap fun entry => GossipPromises.overdue now entry.2).count peer := by
  induction entries with
  | nil => rfl
  | cons entry rest ih =>
    rw [List.flatMap_cons, List.flatMap_cons, List.countP_append, List.count_append, ih, List.countP_map, List.count]
    congr 1

/-- In every run, a promised message is promised by one peer and not known, and its promise is the last that happened
to it. Whatever a heartbeat charges was promised by the peer more than `iwant_followup_time` before, with nothing
happening to the message in between, so that no promise is charged twice or after its message has come; and the
penalties of a heartbeat are, for every peer, the number of its promises that are charged. -/
theorem promises_exact
    (collected : Run (Collecting (Stepping env) (State.promiseNotes env)) (State.initial env lastSeqNo, []) events
      (state, notes)) :
    (∀ messageId promised, state.gossipPromises.map.lookup messageId = some promised →
      ¬ state.duplicateCache.contains messageId ∧ ∃ peer time,
        promised.entries = [⟨peer, time + env.config.iwantFollowupTime⟩] ∧ Outstanding notes messageId peer time) ∧
    Earned env.config.iwantFollowupTime notes ∧
    ∃ expired : UnorderedMap PeerPtr ℕ,
      (state.startHeartbeat env).score = expired.entries.foldl
        (fun score entry => score.addPenalty (state.heap entry.1).peerId entry.2) state.score ∧
      state.gained (state.startHeartbeat env) =
        expired.entries.map (fun entry => .penalized (state.heap entry.1).peerId entry.2) ∧
      ∀ peer, (expired.lookup peer).getD 0 = (state.charges env).countP (PromiseNote.charges peer) := by
  have promised : Promised env notes state.requests := promised_of_run collected
  obtain ⟨-, -, score, penalties⟩ := @startHeartbeat_sweep R _ env state
  obtain ⟨-, -, counts⟩ := @GossipPromises.clearExpired_spec _ _ _ _ state.gossipPromises (state.now env) promised.single
  refine ⟨fun messageId promise found => ⟨?_, promised.owed messageId promise found⟩, promised.earned,
    (state.gossipPromises.clearExpired (state.now env)).2, score, penalties, fun peer => ?_⟩
  · intro known
    exact promised.unknown messageId (UnorderedMap.mem_of_lookup found) (of_decide_eq_true known)
  · exact (counts peer).trans count_charges.symm

/-- A peer advertises the next message of the node and another one; the node publishes, and its heartbeat fires. -/
def promisingEvents : List Event :=
  restedEvents ++ [.message 0 (Pb.RPC.encode { control :=
    { ihave := [{ topicId := some [0x74], messageIds := [firstId, [0x02], firstId] }] } }),
    .publishTopic [0x74] [0x68, 0x69], .heartbeat]

theorem promises_exact_promising : ∃ (state : State Rational) (notes : List PromiseNote),
    Run (Collecting (Stepping (sampleEnv true (10 ^ 10))) (State.promiseNotes (sampleEnv true (10 ^ 10))))
      (State.initial (sampleEnv true (10 ^ 10)) 0, []) promisingEvents (state, notes) ∧
      notes = [.made [0x02] 0 (3630 * 10 ^ 9), .made firstId 0 (3640 * 10 ^ 9), .fulfilled firstId,
        .charged [0x02] 0 (3670 * 10 ^ 9)] ∧ Earned (3 * 10 ^ 9) notes := by
  have followed : (promisingEvents.foldlM (collectM (State.step (sampleEnv true (10 ^ 10)))
      (State.promiseNotes (sampleEnv true (10 ^ 10)))) (State.initial (sampleEnv true (10 ^ 10)) 0, [])).map
      (fun pair : State Rational × List PromiseNote => pair.2) =
      some [.made [0x02] 0 (3630 * 10 ^ 9), .made firstId 0 (3640 * 10 ^ 9), .fulfilled firstId,
        .charged [0x02] 0 (3670 * 10 ^ 9)] := by
    decide +kernel
  obtain ⟨⟨state, notes⟩, collected, noted⟩ := Option.map_eq_some_iff.mp followed
  exact ⟨state, notes, Run.of_collectM collected, noted, (promises_exact (Run.of_collectM collected)).2.1⟩

end Runs

end Libp2p.Gossip
