import Libp2p.Protocol.Gossip.Defaults
import Libp2p.Protocol.Gossip.Requests

/-! # How much work a remote peer can cause

A peer makes a node work by advertising ids, which the node asks for, and by asking for messages, which the node
sends. What a step does for its sender is collected along a run as a list of answers. Requests and examined
advertisements are counted per peer object and heartbeat; served messages are counted per peer id in the cache entry
of the message, so that a new connection does not start a new count.
-/

namespace Libp2p.Gossip

open Library State

/-- What the handling of an RPC did for its sender. -/
inductive Answer where
  | examined (peer : PeerPtr)
  | requested (peer : PeerPtr) (messageId : MessageId)
  | served (peerId : PeerId) (messageId : MessageId)
deriving DecidableEq

def Answer.requests (peer : PeerPtr) : Answer → Bool
  | .requested other _ => other = peer
  | _ => false

/-- A request that was queued. -/
def Observation.answer : Observation → Option Answer
  | .queued peer (.iwant messageId) => some (.requested peer messageId)
  | _ => none

namespace State

variable {R : Type} [Double R] (env : Env R) (peer : PeerPtr)

/-- The advertisements of an RPC are read: neither counter has reached its limit. -/
def examinesIhave (pbIhaves : List Pb.ControlIHave) (state : State R) : Bool :=
  pbIhaves ≠ [] && (state.heap peer).isGossipsub &&
    decide ((state.countReceivedIhave.lookup peer).getD 0 + 1 ≤ env.config.maxIhaveMessages) &&
    ! (state.countSentIwant.lookup peer).any (· ≥ env.config.maxIhaveLength)

/-- What `handle_ihave` does: it may read the advertisements, and it queues requests. -/
def answersIhave (pbIhaves : List Pb.ControlIHave) (state : State R) : List Answer :=
  (if state.examinesIhave env peer pbIhaves then [.examined peer] else []) ++
    (state.gained (state.handleIhave env peer pbIhaves).1).filterMap Observation.answer

/-- A requested message is queued to the peer. -/
def answersIwant (messageId : MessageId) (state : State R) : List Answer :=
  if state.log.length < (state.serveMessage env peer messageId).log.length then
    [.served (state.heap peer).peerId messageId]
  else []

/-- Advertisements and requests are answered. -/
def answering : Annotations R Answer where
  publish _ _ := []
  ihave state pbIhaves := state.answersIhave env peer pbIhaves
  iwant state messageId := state.answersIwant env peer messageId

/-- Only frames are answered. -/
def answers (state : State R) : Event → List Answer
  | .message peer encoded => state.notesMessage env peer (answering env peer) encoded
  | _ => []

end State

variable {R : Type} [Double R] {env : Env R} {event : Event} {state before after : State R} {peer : PeerPtr}
  {answers : List Answer} {encoded : Bytes}

section Metering

/-- The counters of a heartbeat are what was done since then, within their limits. -/
structure Metered (env : Env R) (answers : List Answer) (requests : Requests) : Prop where
  sent : ∀ peer, answers.countP (Answer.requests peer) = (requests.sent.lookup peer).getD 0
  short : ∀ peer, (requests.sent.lookup peer).getD 0 ≤ env.config.maxIhaveLength
  received : ∀ peer, answers.count (.examined peer) ≤ (requests.received.lookup peer).getD 0
  few : ∀ peer, answers.count (.examined peer) ≤ env.config.maxIhaveMessages

theorem Metered.frame {first second : Requests} (metered : Metered env answers first)
    (received : second.received = first.received) (sent : second.sent = first.sent) :
    Metered env answers second := by
  obtain ⟨sentCount, short, receivedCount, few⟩ := metered
  refine ⟨?_, ?_, ?_, few⟩
  · rw [sent]
    exact sentCount
  · rw [sent]
    exact short
  · rw [received]
    exact receivedCount

/-- One RPC is counted, and read or not. -/
theorem Metered.receive {requests : Requests} (metered : Metered env answers requests) (examined : Bool)
    (within : examined = true → (requests.received.lookup peer).getD 0 + 1 ≤ env.config.maxIhaveMessages) :
    Metered env (answers ++ if examined then [.examined peer] else []) { requests with
      received := requests.received.insert peer ((requests.received.lookup peer).getD 0 + 1) } := by
  obtain ⟨sentCount, short, receivedCount, few⟩ := metered
  refine ⟨?_, short, ?_, ?_⟩
  · intro other
    rw [List.countP_append, ← sentCount]
    cases examined <;> simp [Answer.requests]
  · intro other
    have bound := receivedCount other
    simp only [UnorderedMap.lookup_insert_eq, List.count_append]
    by_cases same : other = peer
    · subst same
      rw [if_pos rfl, Option.getD_some]
      cases examined <;> simp <;> omega
    · rw [if_neg same]
      cases examined <;> simp [Ne.symm same] <;> omega
  · intro other
    have bound := receivedCount other
    have limit := few other
    rw [List.count_append]
    cases examined with
    | false => simpa using limit
    | true =>
      have room := within rfl
      by_cases same : other = peer
      · subst same
        simp
        omega
      · simpa [Ne.symm same] using limit

/-- Ids are requested and counted. -/
theorem Metered.send {requests : Requests} (metered : Metered env answers requests) (ids : List MessageId)
    (within : (requests.sent.lookup peer).getD 0 + ids.length ≤ env.config.maxIhaveLength) :
    Metered env (answers ++ ids.map (.requested peer)) { requests with
      sent := requests.sent.insert peer ((requests.sent.lookup peer).getD 0 + ids.length) } := by
  obtain ⟨sentCount, short, receivedCount, few⟩ := metered
  have none : ∀ other, (ids.map (Answer.requested peer)).count (.examined other) = 0 := by
    intro other
    rw [List.count_eq_zero]
    simp
  refine ⟨?_, ?_, ?_, ?_⟩
  · intro other
    rw [List.countP_append, List.countP_map, sentCount]
    simp only [UnorderedMap.lookup_insert_eq]
    by_cases same : other = peer
    · subst same
      have all : ids.countP (Answer.requests other ∘ Answer.requested other) = ids.length :=
        List.countP_eq_length.mpr fun _ _ => by simp [Answer.requests]
      rw [if_pos rfl, all]
      rfl
    · have no : ids.countP (Answer.requests other ∘ Answer.requested peer) = 0 :=
        List.countP_eq_zero.mpr fun _ _ => by simp [Answer.requests, Ne.symm same]
      rw [if_neg same, no]
      rfl
  · intro other
    simp only [UnorderedMap.lookup_insert_eq]
    split_ifs
    · exact within
    · exact short other
  · intro other
    rw [List.count_append, none]
    exact receivedCount other
  · intro other
    rw [List.count_append, none]
    exact few other

theorem log_requestMessage {messageId : MessageId} :
    (state.requestMessage env peer messageId).log = .queued peer (.iwant messageId) :: state.log := by
  rw [requestMessage, enqueue_eq]
  rfl

/-- Requests are queued one after the other. -/
theorem log_requests {ids : List MessageId} : (ids.foldl (requestMessage env peer) state).log =
    (ids.map fun messageId => Observation.queued peer (.iwant messageId)).reverse ++ state.log := by
  induction ids generalizing state with
  | nil => rfl
  | cons messageId rest ih =>
    rw [List.foldl_cons, ih, log_requestMessage]
    simp

theorem counters_requests {ids : List MessageId} :
    (ids.foldl (requestMessage env peer) state).countReceivedIhave = state.countReceivedIhave ∧
      (ids.foldl (requestMessage env peer) state).countSentIwant = state.countSentIwant := by
  refine ⟨foldl_field State.countReceivedIhave fun state messageId => ?_,
    foldl_field State.countSentIwant fun state messageId => ?_⟩
  · rw [requestMessage, enqueue_eq]
    rfl
  · rw [requestMessage, enqueue_eq]
    rfl

/-- The ids that are asked for: a random part of the wanted ones, within what may still be asked for. -/
def wantedPart (env : Env R) (peer : PeerPtr) (wanted : UnorderedSet MessageId) (state : State R) : List MessageId :=
  (env.shuffleIds state.random wanted.elements).take
    (min wanted.size (env.config.maxIhaveLength - (state.countSentIwant.lookup peer).getD 0))

theorem length_wantedPart (wanted : UnorderedSet MessageId) : (wantedPart env peer wanted state).length =
    min wanted.size (env.config.maxIhaveLength - (state.countSentIwant.lookup peer).getD 0) := by
  rw [wantedPart, List.length_take, (env.shuffleIds_perm _ _).length_eq]
  exact min_eq_left (min_le_left _ _)

theorem requestMessages_spec (wanted : UnorderedSet MessageId) :
    (state.requestMessages env peer wanted).countReceivedIhave = state.countReceivedIhave ∧
      (state.requestMessages env peer wanted).countSentIwant = state.countSentIwant.insert peer
        ((state.countSentIwant.lookup peer).getD 0 + (wantedPart env peer wanted state).length) ∧
      (state.requestMessages env peer wanted).log =
        ((wantedPart env peer wanted state).map fun messageId => Observation.queued peer (.iwant messageId)).reverse ++
          state.log := by
  unfold requestMessages
  dsimp only
  rw [counters_requests.1, counters_requests.2, log_requests, getBatch_eq, length_wantedPart]
  exact ⟨rfl, rfl, rfl⟩

/-- The state in which the advertisements of one more RPC are counted. -/
def State.countIhave (peer : PeerPtr) (state : State R) : State R :=
  { state with
    countReceivedIhave := state.countReceivedIhave.insert peer ((state.countReceivedIhave.lookup peer).getD 0 + 1) }

/-- The ways through `handle_ihave`: nothing to handle, counted but not read, and read. -/
theorem handleIhave_cases (env : Env R) (peer : PeerPtr) (pbIhaves : List Pb.ControlIHave) (state : State R) :
    (state.examinesIhave env peer pbIhaves = false ∧ ((state.handleIhave env peer pbIhaves).1 = state ∨
        (state.handleIhave env peer pbIhaves).1 = state.countIhave peer)) ∨
      state.examinesIhave env peer pbIhaves = true ∧
        (state.countReceivedIhave.lookup peer).getD 0 + 1 ≤ env.config.maxIhaveMessages ∧
        ((state.handleIhave env peer pbIhaves).1 = state.countIhave peer ∨
          (state.handleIhave env peer pbIhaves).1 = (state.countIhave peer).requestMessages env peer
            (pbIhaves.foldl ((state.countIhave peer).wantedIds env peer) ∅)) := by
  unfold handleIhave examinesIhave
  dsimp only
  split_ifs with none capable many full empty
  · exact .inl ⟨by simp [none], .inl rfl⟩
  · exact .inl ⟨by simp [none, capable, not_le.mpr many], .inr rfl⟩
  · exact .inl ⟨by simp [none, capable, full], .inr rfl⟩
  · exact .inr ⟨by simp [none, capable, not_lt.mp many, full], not_lt.mp many, .inl rfl⟩
  · exact .inr ⟨by simp [none, capable, not_lt.mp many, full], not_lt.mp many, .inr rfl⟩
  · exact .inl ⟨by simp [capable], .inl rfl⟩

/-- `handle_ihave` keeps its counters. -/
theorem metered_handleIhave (metered : Metered env answers state.requests) (pbIhaves : List Pb.ControlIHave) :
    Metered env (answers ++ state.answersIhave env peer pbIhaves) (state.handleIhave env peer pbIhaves).1.requests := by
  have silent : (state.countIhave peer).log = state.log := rfl
  unfold answersIhave
  rcases handleIhave_cases env peer pbIhaves state with
    ⟨unread, handled | handled⟩ | ⟨read, within, handled | handled⟩
  · rw [unread, handled, gained_same rfl]
    simpa using metered
  · have counted : Metered env (answers ++ if false then [.examined peer] else []) (state.countIhave peer).requests :=
      metered.receive false (by simp)
    rw [unread, handled, gained_same silent]
    exact counted
  · have counted : Metered env (answers ++ if true then [.examined peer] else []) (state.countIhave peer).requests :=
      metered.receive true fun _ => within
    rw [read, handled, gained_same silent]
    exact counted
  · obtain ⟨received, sent, log⟩ := @requestMessages_spec R _ env (state.countIhave peer) peer
      (pbIhaves.foldl ((state.countIhave peer).wantedIds env peer) ∅)
    set ids := wantedPart env peer (pbIhaves.foldl ((state.countIhave peer).wantedIds env peer) ∅) (state.countIhave peer)
      with part
    have room : (state.countSentIwant.lookup peer).getD 0 + ids.length ≤ env.config.maxIhaveLength := by
      have short := metered.short peer
      have length : ids.length ≤ env.config.maxIhaveLength - (state.countSentIwant.lookup peer).getD 0 := by
        rw [part, length_wantedPart]
        exact min_le_right _ _
      change (state.countSentIwant.lookup peer).getD 0 ≤ _ at short
      omega
    have asked : (state.gained (state.handleIhave env peer pbIhaves).1).filterMap Observation.answer =
        ids.map (.requested peer) := by
      rw [silent] at log
      rw [handled, gained_append log, List.reverse_reverse, List.filterMap_map]
      exact congrFun List.filterMap_eq_map ids
    rw [asked, read, handled, ← List.append_assoc]
    exact ((metered.receive true fun _ => within).send ids room).frame received sent

end Metering

section Answering

/-- The counters are kept by every part. -/
theorem metered_parts (rpc : Pb.RPC) :
    KeptByParts env peer (answering env peer) rpc fun answers (state : State R) => Metered env answers state.requests where
  subscribed _ _ _ _ metered := by rwa [requests_onSubscription]
  published answers state entry _ metered := by
    rw [answering, List.append_nil]
    have arrival : Arrival env state (state.onPublish env peer entry) := arrival_onPublish entry
    cases arrival with
    | dropped requests => rwa [requests]
    | duplicate messageId known requests => exact metered.frame (by rw [requests]) (by rw [requests])
    | accepted messageId requests => exact metered.frame (by rw [requests]; rfl) (by rw [requests]; rfl)
  grafted _ _ _ _ _ metered := by rwa [requests_onGraft]
  pruned _ _ _ _ metered := by rwa [requests_onPrune]
  advertised _ _ metered := metered_handleIhave metered _
  served answers state messageId metered := by
    rw [requests_serveMessage]
    change Metered env (answers ++ state.answersIwant env peer messageId) state.requests
    unfold answersIwant
    obtain ⟨sent, short, received, few⟩ := metered
    refine ⟨fun other => ?_, short, fun other => ?_, fun other => ?_⟩
    · rw [List.countP_append, ← sent other]
      split_ifs <;> simp [Answer.requests]
    · have bound := received other
      rw [List.count_append]
      split_ifs <;> simpa using bound
    · have bound := few other
      rw [List.count_append]
      split_ifs <;> simpa using bound
  refused _ _ _ _ metered := by rwa [requests_onIdontwant]

end Answering

section Rationing

variable {peerId : PeerId} {messageId : MessageId}

/-- The cache entry of a message counts at least the copies that were sent, within their limit; a message that is not
cached has not been sent in this life of its entry. -/
structure Rationed (env : Env R) (peerId : PeerId) (messageId : MessageId) (copies : ℕ) (state : State R) : Prop where
  absent : messageId ∉ state.messageCache → copies = 0
  counted : ∀ entry, state.messageCache.lookup messageId = some entry →
    copies ≤ (entry.iwant.lookup peerId).getD 0
  few : copies ≤ env.config.gossipRetransimission

theorem Rationed.frame {copies : ℕ} (rationed : Rationed env peerId messageId copies before)
    (same : after.messageCache = before.messageCache) : Rationed env peerId messageId copies after := by
  refine ⟨?_, ?_, rationed.few⟩
  · rw [same]
    exact rationed.absent
  · rw [same]
    exact rationed.counted

/-- A new entry has not been counted. -/
theorem Rationed.emplace {copies : ℕ} {other : MessageId} {message : Message}
    (rationed : Rationed env peerId messageId copies before)
    (cache : after.messageCache = UnorderedMap.emplace before.messageCache other { message }) :
    Rationed env peerId messageId copies after := by
  have lookup : after.messageCache.lookup messageId = if messageId = other then
      some ((before.messageCache.lookup other).getD { message }) else before.messageCache.lookup messageId := by
    rw [cache, UnorderedMap.lookup_emplace]
  refine ⟨?_, ?_, rationed.few⟩
  · intro absent
    rw [← AList.lookup_eq_none, lookup] at absent
    split_ifs at absent
    exact rationed.absent (AList.lookup_eq_none.mp absent)
  · intro entry found
    rw [lookup] at found
    split_ifs at found with same
    · subst same
      obtain rfl := Option.some.inj found
      cases present : before.messageCache.lookup messageId with
      | none =>
        rw [rationed.absent (AList.lookup_eq_none.mp present)]
        exact Nat.zero_le _
      | some old => exact rationed.counted old present
    · exact rationed.counted entry found

/-- Outside of heartbeats, no update forgets a count. -/
theorem Micro.rationed {copies : ℕ} (micro : Micro env event before after) (calm : event ≠ .heartbeat)
    (rationed : Rationed env peerId messageId copies before) : Rationed env peerId messageId copies after := by
  cases micro with
  | ledger ledger =>
    cases ledger with
    | duplicated => exact rationed.frame (by rw [countDuplicate_eq])
    | _ => exact rationed.frame rfl
  | batched => exact rationed.frame (by rw [getBatch_eq])
  | queued => exact rationed.frame (by rw [enqueue_eq])
  | grafted => exact rationed.frame (by rw [graft_eq])
  | expelled => exact rationed.frame (by rw [eraseFromMesh, modifyTopic, makePrune_eq])
  | cut => exact rationed.frame (by rw [makePrune_eq]; rfl)
  | refused => exact rationed.frame (by rw [makePrune_eq])
  | left => exact rationed.frame (by rw [leaveTopic_eq])
  | pruned => exact rationed.frame (by rw [removePeerFromMesh_eq])
  | upgraded => exact rationed.frame (by rw [announceUpgrade_eq])
  | admitted => exact rationed.emplace (by rw [deliver_eq]; rfl)
  | originated => exact rationed.emplace (by rw [originate_eq])
  | @served other entry iwant cached grown =>
    refine ⟨?_, ?_, rationed.few⟩
    · intro absent
      exact rationed.absent fun present => absent ((AList.mem_insert _).mpr (.inr present))
    · intro found lookup
      rw [UnorderedMap.lookup_insert_eq] at lookup
      split_ifs at lookup with same
      · subst same
        obtain rfl := Option.some.inj lookup
        exact (rationed.counted entry cached).trans (grown peerId)
      · exact rationed.counted found lookup
  | opened => exact rationed.frame (by rw [openStream_eq])
  | disconnected => exact rationed.frame (by rw [onPeerDisconnected_eq])
  | expired place source => exact absurd source calm
  | aged place source => exact absurd source calm
  | resumed => exact rationed.frame (by rw [resumeWriter_eq])
  | written => exact rationed.frame (by rw [onWritten_eq])
  | _ => exact rationed.frame rfl

theorem Chain.rationed {copies : ℕ} (chain : Chain env event before after) (calm : event ≠ .heartbeat)
    (rationed : Rationed env peerId messageId copies before) : Rationed env peerId messageId copies after :=
  chain_preserves (Rationed env peerId messageId copies) chain
    (fun _ _ micro rationed => micro.rationed calm rationed) rationed

/-- The count of a request for a cached message. -/
def State.countIwant (peer : PeerPtr) (messageId : MessageId) (entry : MessageCacheEntry) (state : State R) : State R :=
  { state with messageCache := state.messageCache.insert messageId { entry with
      iwant := entry.iwant.insert (state.heap peer).peerId
        ((entry.iwant.lookup (state.heap peer).peerId).getD 0 + 1) } }

/-- A request for a cached message is counted, and answered only within the limit. -/
theorem serveMessage_cases {entry : MessageCacheEntry} (found : state.messageCache.lookup messageId = some entry) :
    state.serveMessage env peer messageId = state.countIwant peer messageId entry ∨
      (entry.iwant.lookup (state.heap peer).peerId).getD 0 + 1 ≤ env.config.gossipRetransimission ∧
        state.serveMessage env peer messageId =
          (state.countIwant peer messageId entry).enqueue peer (.publish entry.message) := by
  simp only [serveMessage, found]
  split_ifs with many refused
  · exact .inl rfl
  · exact .inl rfl
  · exact .inr ⟨not_lt.mp many, rfl⟩

theorem rationed_countIwant {copies : ℕ} {other : MessageId} {entry : MessageCacheEntry} (more : ℕ)
    (found : state.messageCache.lookup other = some entry) (rationed : Rationed env peerId messageId copies state)
    (one : more ≤ if messageId = other ∧ peerId = (state.heap peer).peerId then 1 else 0)
    (few : copies + more ≤ env.config.gossipRetransimission) :
    Rationed env peerId messageId (copies + more) (state.countIwant peer other entry) := by
  refine ⟨?_, ?_, few⟩
  · intro absent
    have missing : messageId ∉ state.messageCache := fun present => absent ((AList.mem_insert _).mpr (.inr present))
    have different : messageId ≠ other := by
      rintro rfl
      exact missing (UnorderedMap.mem_of_lookup found)
    rw [if_neg (fun both => different both.1)] at one
    have none := rationed.absent missing
    omega
  · intro later lookup
    rw [countIwant, UnorderedMap.lookup_insert_eq] at lookup
    split_ifs at lookup with same
    · subst same
      obtain rfl := Option.some.inj lookup
      have counted := rationed.counted entry found
      dsimp only
      rw [UnorderedMap.lookup_insert_eq]
      split_ifs with own
      · subst own
        rw [if_pos ⟨rfl, rfl⟩] at one
        rw [Option.getD_some]
        omega
      · rw [if_neg (fun both => own both.2)] at one
        omega
    · rw [if_neg (fun both => same both.1)] at one
      have counted := rationed.counted later lookup
      omega

/-- Serving a message is counted before it is limited. -/
theorem rationed_serveMessage {other : MessageId}
    (rationed : Rationed env peerId messageId (answers.count (Answer.served peerId messageId)) state) :
    Rationed env peerId messageId ((answers ++ state.answersIwant env peer other).count (Answer.served peerId messageId))
      (state.serveMessage env peer other) := by
  unfold answersIwant
  cases found : state.messageCache.lookup other with
  | none =>
    have idle : state.serveMessage env peer other = state := by simp only [serveMessage, found]
    rw [idle, if_neg (lt_irrefl _), List.append_nil]
    exact rationed
  | some entry =>
    rcases @serveMessage_cases R _ env state peer other entry found with counted | ⟨within, sent⟩
    · have silent : (state.countIwant peer other entry).log = state.log := rfl
      rw [counted, silent, if_neg (lt_irrefl _), List.append_nil]
      exact rationed_countIwant 0 found rationed (Nat.zero_le _) rationed.few
    · have logged : state.log.length < (state.serveMessage env peer other).log.length := by
        rw [sent, enqueue_eq]
        exact Nat.lt_succ_self _
      have copies : ([Answer.served (state.heap peer).peerId other].count (Answer.served peerId messageId)) =
          if messageId = other ∧ peerId = (state.heap peer).peerId then 1 else 0 := by
        split_ifs with own
        · obtain ⟨rfl, rfl⟩ := own
          exact List.count_singleton_self
        · rw [List.count_eq_zero]
          intro member
          obtain ⟨same, sameId⟩ := Answer.served.inj (List.mem_singleton.mp member)
          exact own ⟨sameId, same⟩
      rw [if_pos logged, sent, List.count_append]
      refine Rationed.frame (rationed_countIwant _ found rationed copies.le ?_) (by rw [enqueue_eq])
      rw [copies]
      split_ifs with own
      · obtain ⟨rfl, rfl⟩ := own
        have counted := rationed.counted entry found
        omega
      · exact rationed.few

/-- Every part of a frame keeps the rations. -/
theorem rationed_parts {rpc : Pb.RPC} (decoded : Pb.RPC.decode encoded = some rpc) :
    KeptByParts env peer (answering env peer) rpc fun answers (state : State R) => peer < state.allocated ∧
      Rationed env peerId messageId (answers.count (Answer.served peerId messageId)) state := by
  have calm : Event.message peer encoded ≠ .heartbeat := by simp
  have kept : ∀ {answers : List Answer} {before after : State R}, Chain env (.message peer encoded) before after →
      (peer < before.allocated ∧ Rationed env peerId messageId (answers.count (Answer.served peerId messageId)) before) →
      peer < after.allocated ∧ Rationed env peerId messageId (answers.count (Answer.served peerId messageId)) after :=
    fun chain both => ⟨both.1.trans_le chain.allocated_le, chain.rationed calm both.2⟩
  have unserved : ∀ (answers more : List Answer), (∀ answer ∈ more, answer ≠ .served peerId messageId) →
      (answers ++ more).count (.served peerId messageId) = answers.count (.served peerId messageId) := by
    intro answers more others
    rw [List.count_append, List.count_eq_zero.mpr fun member => others _ member rfl]
    rfl
  refine ⟨?_, ?_, ?_, ?_, ?_, ?_, ?_⟩
  · intro answers state entry member both
    exact kept (chain_onSubscription rfl decoded both.1 member) both
  · intro answers state entry member both
    rw [answering, List.append_nil]
    exact kept (chain_onPublish rfl decoded member) both
  · intro answers state entry member capable both
    exact kept (chain_onGraft rfl decoded both.1 capable member) both
  · intro answers state entry member both
    exact kept (chain_onPrune rfl decoded member state) both
  · intro answers state both
    rw [unserved]
    · exact kept (chain_handleIhave rfl peer rpc.control.ihave) both
    · intro answer member
      rcases List.mem_append.mp member with examined | asked
      · split_ifs at examined
        · rw [List.mem_singleton.mp examined]
          simp
        · cases examined
      · obtain ⟨observation, -, same⟩ := List.mem_filterMap.mp asked
        rintro rfl
        unfold Observation.answer at same
        split at same
        · cases same
        · cases same
  · intro answers state other both
    have chain : Chain env (.message peer encoded) state (state.serveMessage env peer other) :=
      chain_serveMessage rfl other
    exact ⟨both.1.trans_le chain.allocated_le, rationed_serveMessage both.2⟩
  · intro answers state entry _ both
    exact kept (chain_onIdontwant rfl entry) both

/-- A heartbeat caches nothing. -/
theorem Micro.uncached (micro : Micro env .heartbeat before after) {entry : MessageCacheEntry}
    (found : after.messageCache.lookup messageId = some entry) :
    before.messageCache.lookup messageId = some entry := by
  have same : after.messageCache = before.messageCache → before.messageCache.lookup messageId = some entry := by
    intro same
    rwa [same] at found
  cases micro with
  | ledger ledger =>
    cases ledger with
    | duplicated => exact same (by rw [countDuplicate_eq])
    | _ => exact same rfl
  | batched => exact same (by rw [getBatch_eq])
  | queued => exact same (by rw [enqueue_eq])
  | grafted => exact same (by rw [graft_eq])
  | expelled => exact same (by rw [eraseFromMesh, modifyTopic, makePrune_eq])
  | cut => exact same (by rw [makePrune_eq]; rfl)
  | refused => exact same (by rw [makePrune_eq])
  | left => exact same (by rw [leaveTopic_eq])
  | pruned => exact same (by rw [removePeerFromMesh_eq])
  | upgraded => exact same (by rw [announceUpgrade_eq])
  | admitted source => cases source
  | originated source => rcases source with source | source <;> cases source
  | served other iwant cached grown source => cases source
  | opened => exact same (by rw [openStream_eq])
  | disconnected => exact same (by rw [onPeerDisconnected_eq])
  | expired => exact same (by rw [expireTopic_eq])
  | aged place =>
    unfold shiftHistory at found
    split at found
    · exact found
    · dsimp only at found
      rw [UnorderedMap.lookup_foldl_erase] at found
      split_ifs at found
      exact found
  | resumed => exact same (by rw [resumeWriter_eq])
  | written => exact same (by rw [onWritten_eq])
  | _ => exact same rfl

/-- An entry that a heartbeat leaves is the one that was there. -/
theorem rationed_heartbeat {copies : ℕ} (rationed : Rationed env peerId messageId copies state)
    (cached : messageId ∈ (state.heartbeat env).messageCache) :
    Rationed env peerId messageId copies (state.heartbeat env) := by
  refine ⟨fun absent => absurd cached absent, ?_, rationed.few⟩
  intro entry found
  have chain : Chain env .heartbeat state (state.heartbeat env) := chain_heartbeat rfl
  have back : ∀ after, Chain env .heartbeat state after → after.messageCache.lookup messageId = some entry →
      state.messageCache.lookup messageId = some entry := by
    intro after chain
    induction chain with
    | refl => exact id
    | tail _ micro ih => exact fun found => ih (micro.uncached found)
  exact rationed.counted entry (back _ chain found)

end Rationing

section Runs

variable {lastSeqNo : Seqno} {first events : List Event} {start : State R}

/-- Steps of the node. -/
abbrev Stepping (env : Env R) (before : State R) (event : Event) (after : State R) : Prop :=
  before.step env event = some after

/-- A heartbeat clears the counters. -/
theorem counters_heartbeat : (state.heartbeat env).requests.received = ∅ ∧ (state.heartbeat env).requests.sent = ∅ := by
  have started : (state.startHeartbeat env).countReceivedIhave = ∅ ∧ (state.startHeartbeat env).countSentIwant = ∅ := by
    unfold startHeartbeat applyIwantPenalties
    dsimp only
    refine ⟨(foldl_field State.countReceivedIhave (by exact fun _ _ => rfl)).trans rfl,
      (foldl_field State.countSentIwant (by exact fun _ _ => rfl)).trans rfl⟩
  rw [requests_heartbeat]
  exact started

theorem counters_settled (run : Runs env lastSeqNo first start)
    (settled : first = [] ∨ first.getLast? = some .heartbeat) :
    start.requests.received = ∅ ∧ start.requests.sent = ∅ := by
  cases run with
  | nil => exact ⟨rfl, rfl⟩
  | @snoc events event middle target earlier taken =>
    rcases settled with empty | last
    · simp at empty
    · rw [List.getLast?_concat] at last
      obtain rfl := Option.some.inj last
      obtain rfl := Option.some.inj taken
      exact counters_heartbeat

theorem metered_empty {requests : Requests} (sent : requests.sent = ∅) : Metered env [] requests := by
  refine ⟨?_, ?_, fun peer => Nat.zero_le _, fun peer => Nat.zero_le _⟩
  · intro peer
    rw [sent]
    rfl
  · intro peer
    rw [sent]
    exact Nat.zero_le _

theorem answers_of_deaf (deaf : event.receives = false) : before.answers env event = [] := by
  cases event with
  | message => cases deaf
  | _ => rfl

theorem Metered.publication (metered : Metered env answers before.requests)
    (publication : Publication env before after) : Metered env answers after.requests := by
  cases publication with
  | duplicate requests => rwa [requests]
  | published messageId requests => exact metered.frame (by rw [requests]; rfl) (by rw [requests]; rfl)

/-- A step between two heartbeats keeps the counters. -/
theorem metered_step (sound : before.roster.Sound) (stepped : before.step env event = some after)
    (calm : event ≠ .heartbeat) (metered : Metered env answers before.requests) :
    Metered env (answers ++ before.answers env event) after.requests := by
  by_cases deaf : event.receives
  · cases event with
    | message peer encoded =>
      obtain ⟨-, ⟨⟩⟩ := Option.ite_none_right_eq_some.mp stepped
      exact KeptByParts.onMessage (fun rpc _ => metered_parts rpc) metered
    | _ => cases deaf
  · rw [answers_of_deaf (Bool.eq_false_of_not_eq_true deaf), List.append_nil]
    cases event with
    | message peer encoded => exact absurd rfl deaf
    | heartbeat => exact absurd rfl calm
    | publish topicHash data =>
      obtain rfl := Option.some.inj stepped
      exact metered.publication (publication_publish data)
    | publishTopic topicHash data =>
      obtain ⟨-, ⟨⟩⟩ := Option.ite_none_right_eq_some.mp stepped
      exact metered.publication (publication_publishTopic data)
    | _ =>
      have same : after.requests = before.requests :=
        step_preserves (fun state => state.requests = before.requests)
          (fun _ _ micro same => (micro.requests (by simp) rfl rfl).trans same) sound stepped rfl
      rw [same]
      exact metered

/-- A step after which a message is cached keeps its rations. -/
theorem rationed_step {peerId : PeerId} {messageId : MessageId} (sound : before.roster.Sound)
    (stepped : before.step env event = some after) (cached : messageId ∈ after.messageCache)
    (rationed : Rationed env peerId messageId (answers.count (Answer.served peerId messageId)) before) :
    Rationed env peerId messageId ((answers ++ before.answers env event).count (Answer.served peerId messageId)) after := by
  by_cases deaf : event.receives
  · cases event with
    | message peer encoded =>
      obtain ⟨allocated, ⟨⟩⟩ := Option.ite_none_right_eq_some.mp stepped
      have kept := KeptByParts.onMessage (fun rpc (decoded : Pb.RPC.decode encoded = some rpc) => rationed_parts decoded)
        (And.intro allocated rationed)
      exact kept.2
    | _ => cases deaf
  · rw [answers_of_deaf (Bool.eq_false_of_not_eq_true deaf), List.append_nil]
    by_cases beating : event = .heartbeat
    · subst beating
      obtain rfl := Option.some.inj stepped
      exact rationed_heartbeat rationed cached
    · exact (chain_of_step (meshSound_of_roster sound) stepped).rationed beating rationed

/-- In every run, between two heartbeats a peer object is asked for at most `max_ihave_length` ids, which is what its
counter says, and the advertisements of at most `max_ihave_messages` of its RPCs are examined; and while a message
stays cached, at most `gossip_retransimission` copies of it are queued to a peer id in reply to its requests. -/
theorem amplification_bounded (run : Runs env lastSeqNo first start) :
    (∀ events state answers, (first = [] ∨ first.getLast? = some .heartbeat) → .heartbeat ∉ events →
      Run (Collecting (Stepping env) (State.answers env)) (start, []) events (state, answers) →
      ∀ peer, answers.countP (Answer.requests peer) ≤ env.config.maxIhaveLength ∧
        (state.countSentIwant.lookup peer).getD 0 = answers.countP (Answer.requests peer) ∧
        answers.count (.examined peer) ≤ env.config.maxIhaveMessages) ∧
    ∀ messageId events state answers,
      Run (Collecting (fun before event after => Stepping env before event after ∧ messageId ∈ after.messageCache)
        (State.answers env)) (start, []) events (state, answers) →
      ∀ peerId, answers.count (.served peerId messageId) ≤ env.config.gossipRetransimission := by
  constructor
  · intro events state answers settled calm collected peer
    have metered : state.roster.Sound ∧ (.heartbeat ∉ events → Metered env answers state.requests) := by
      refine collected.preserves_history (fun events pair =>
        pair.1.roster.Sound ∧ (.heartbeat ∉ events → Metered env pair.2 pair.1.requests))
        ⟨sound_of_runs run, fun _ => metered_empty (counters_settled run settled).2⟩ ?_
      rintro events event ⟨before, answers⟩ ⟨after, more⟩ ⟨sound, metered⟩ ⟨stepped, rfl⟩
      refine ⟨sound_of_step sound stepped, fun calm => ?_⟩
      simp only [List.mem_append, List.mem_singleton, not_or] at calm
      exact metered_step sound stepped (Ne.symm calm.2) (metered calm.1)
    obtain ⟨sent, short, -, few⟩ := metered.2 calm
    exact ⟨(sent peer).trans_le (short peer), (sent peer).symm, few peer⟩
  · intro messageId events state answers collected peerId
    have rationed : state.roster.Sound ∧
        Rationed env peerId messageId (answers.count (Answer.served peerId messageId)) state := by
      refine collected.preserves (fun pair => pair.1.roster.Sound ∧
        Rationed env peerId messageId (pair.2.count (Answer.served peerId messageId)) pair.1) ⟨sound_of_runs run, ?_⟩ ?_
      · exact ⟨fun _ => rfl, fun _ _ => Nat.zero_le _, Nat.zero_le _⟩
      · rintro event ⟨before, answers⟩ ⟨after, more⟩ ⟨sound, rationed⟩ ⟨⟨stepped, cached⟩, rfl⟩
        exact ⟨sound_of_step sound stepped, rationed_step sound stepped cached rationed⟩
    exact rationed.2.few

/-- A step that collects its answers and refuses to lose a message. -/
def State.collect (env : Env R) (messageId : MessageId) (pair : State R × List Answer) (event : Event) :
    Option (State R × List Answer) :=
  ((pair.1.step env event).filter fun next => messageId ∈ next.messageCache).map fun next =>
    (next, pair.2 ++ pair.1.answers env event)

theorem collecting_of_foldlM {messageId : MessageId} {source target : State R × List Answer}
    (followed : events.foldlM (State.collect env messageId) source = some target) :
    Run (Collecting (fun before event after => Stepping env before event after ∧ messageId ∈ after.messageCache)
      (State.answers env)) source events target := by
  refine (Run.of_foldlM followed).mono ?_
  rintro event before after taken
  obtain ⟨next, filtered, rfl⟩ := Option.map_eq_some_iff.mp taken
  obtain ⟨stepped, cached⟩ := Option.filter_eq_some_iff.mp filtered
  exact ⟨⟨stepped, of_decide_eq_true cached⟩, rfl⟩

/-- The first message that the node publishes. -/
def firstId : MessageId := (samplePeerId 0).toVector ++ storeBigU64 0

/-- The node meets a peer, and its heartbeat fires. -/
def restedEvents : List Event := meetingEvents ++ [.heartbeat]

/-- A peer advertises an id twice and another one once, and asks for one message five times. -/
def greedyEvents : List Event :=
  [.publishTopic [0x74] [0x68, 0x69], .message 0 (Pb.RPC.encode { control :=
    { ihave := [{ topicId := some [0x74], messageIds := [[0x01], [0x01], [0x02]] }]
      iwant := [{ messageIds := List.replicate 5 firstId }] } })]

theorem amplification_bounded_greedy : ∃ (start state : State Rational) (answers : List Answer),
    Runs (sampleEnv true (10 ^ 6)) 0 restedEvents start ∧
      Run (Collecting (fun before event after => Stepping (sampleEnv true (10 ^ 6)) before event after ∧
        firstId ∈ after.messageCache) (State.answers (sampleEnv true (10 ^ 6)))) (start, []) greedyEvents
        (state, answers) ∧
      answers.countP (Answer.requests 0) = 2 ∧ (state.countSentIwant.lookup 0).getD 0 = 2 ∧
      answers.count (.examined 0) ≤ 10 ∧ answers.count (.served (samplePeerId 1) firstId) ≤ 3 := by
  have followed : (restedEvents.foldlM (State.step (sampleEnv true (10 ^ 6)))
      (State.initial (sampleEnv true (10 ^ 6)) 0)).bind (fun start =>
        (greedyEvents.foldlM (State.collect (sampleEnv true (10 ^ 6)) firstId) (start, [])).map
          fun pair : State Rational × List Answer => pair.2.countP (Answer.requests 0)) = some 2 := by
    decide +kernel
  obtain ⟨start, met, collected⟩ := Option.bind_eq_some_iff.mp followed
  obtain ⟨⟨state, answers⟩, greedy, requested⟩ := Option.map_eq_some_iff.mp collected
  have run := collecting_of_foldlM greedy
  have freely : Run (Collecting (Stepping (sampleEnv true (10 ^ 6))) (State.answers (sampleEnv true (10 ^ 6))))
      (start, []) greedyEvents (state, answers) := run.mono fun _ _ _ taken => ⟨taken.1.1, taken.2⟩
  obtain ⟨metered, rationed⟩ := amplification_bounded (Run.of_foldlM met)
  obtain ⟨-, sent, examined⟩ := metered greedyEvents state answers (.inr rfl) (by decide) freely 0
  exact ⟨start, state, answers, Run.of_foldlM met, run, requested, sent.trans requested, examined,
    rationed firstId greedyEvents state answers run (samplePeerId 1)⟩

end Runs

end Libp2p.Gossip
