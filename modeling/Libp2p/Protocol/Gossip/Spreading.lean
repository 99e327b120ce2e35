import Libp2p.Protocol.Gossip.Defaults
import Libp2p.Protocol.Gossip.Delivery
import Libp2p.Protocol.Gossip.Outbox

/-! # To whom a message is spread

A broadcast goes to peers that are determined by the state in which it starts: it queues nothing else. The broadcasts of
an event are listed with these states, and everything else the event queues is described by what the code had checked.
A requested message is only sent to a peer that has not refused it. A broadcast makes no such test, so refusals are
honoured exactly in the runs in which no recipient of a broadcast has refused its message.
-/

namespace Libp2p.Gossip

open Library State

variable {R : Type} [Double R] {env : Env R} {event : Event} {state before middle after : State R} {lastSeqNo : Seqno}
  {events : List Event} {peer other : PeerPtr}

namespace State

variable (env) (topicHash : TopicHash) (from_ : Option PeerId) (message : Message)

/-- `add_peer` does not turn a peer away. -/
def takes (state : State R) (peer : PeerPtr) : Bool :=
  from_ ≠ some (state.heap peer).peerId && message.from_ ≠ some (state.heap peer).peerId &&
    ! state.below peer env.config.score.publishThreshold

/-- The peers that fill the mesh up for a message of our own. -/
def topUp (state : State R) : List PeerPtr :=
  if from_.isNone then (state.choose env (state.peersOf topicHash)
    (state.fanoutCandidate topicHash env.config.score.publishThreshold)
    (env.config.meshNForTopic topicHash - (state.meshOf topicHash).size)).1
  else []

/-- The peers that a broadcast tries: all peers of the topic, or those without gossipsub, the mesh, and for a message of
our own more peers of the topic. -/
def tried (state : State R) : List PeerPtr :=
  if from_.isNone ∧ env.config.floodPublish then (state.peersOf topicHash).elements
  else ((state.peersOf topicHash).elements.filter fun peer => (state.heap peer).isFloodsub) ++
    (state.meshOf topicHash).elements ++ state.topUp env topicHash from_

/-- The peers that a broadcast reaches. -/
def recipients (state : State R) : List PeerPtr :=
  (state.tried env topicHash from_).filter (state.takes env from_ message)

/-- What a broadcast queues to a peer that it reaches. -/
def notices : List BatchOp :=
  (if sendIdontwant env from_ message then [.idontwant (env.config.messageIdFn message)] else []) ++ [.publish message]

end State

section Reach

variable {topicHash : TopicHash} {from_ : Option PeerId} {messageId : MessageId} {message : Message}

/-- What a broadcast reads of the state while it is under way. -/
structure Peer.Settled (before after : Peer) : Prop where
  peerId : after.peerId = before.peerId
  peerKind : after.peerKind = before.peerKind
  dontSend : after.dontSend = before.dontSend

theorem Peer.Settled.refl (own : Peer) : own.Settled own := ⟨rfl, rfl, rfl⟩

theorem Peer.Settled.trans {first second third : Peer} (early : first.Settled second) (late : second.Settled third) :
    first.Settled third :=
  ⟨late.peerId.trans early.peerId, late.peerKind.trans early.peerKind, late.dontSend.trans early.dontSend⟩

/-- The refusals that wait in a batch. -/
def Peer.refusals (own : Peer) : List MessageId := ((own.batch.map Rpc.idontwant).getD ∅).elements

theorem refusals_getBatch : ((state.getBatch peer).heap other).refusals = (state.heap other).refusals := by
  unfold Peer.refusals
  rw [getBatch_batch]
  split_ifs with same
  · subst same
    cases (state.heap other).batch <;> rfl
  · rfl

/-- Only refusals add to the refusals of a batch, and only of the batch that they are queued to. -/
theorem refusals_enqueue {op : BatchOp} (kept : other ≠ peer ∨ ∀ messageId, op ≠ .idontwant messageId) :
    ((state.enqueue peer op).heap other).refusals = (state.heap other).refusals := by
  unfold Peer.refusals
  rw [enqueue_batch]
  split_ifs with same
  · subst same
    have unchanged : ∀ rpc : Rpc, (rpc.apply op).idontwant = rpc.idontwant := by
      intro rpc
      cases op with
      | idontwant messageId => exact absurd rfl (kept.resolve_left (by simp) messageId)
      | _ => rfl
    rw [Option.map_some, Option.getD_some, unchanged]
    cases (state.heap other).batch <;> rfl
  · rfl

theorem settled_getBatch : (state.heap other).Settled ((state.getBatch peer).heap other) where
  peerId := (getBatch_peer peer state).1
  peerKind := (getBatch_peer peer state).2.2.1
  dontSend := getBatch_field peer state Peer.dontSend (fun _ _ => rfl) fun _ _ _ => rfl

theorem settled_enqueue {op : BatchOp} : (state.heap other).Settled ((state.enqueue peer op).heap other) where
  peerId := (enqueue_peer peer op state).1
  peerKind := (enqueue_peer peer op state).2.2.1
  dontSend := enqueue_field peer op state Peer.dontSend (fun _ _ => rfl) fun _ _ _ => rfl

/-- Updates that do not change which peers `add_peer` takes, and what is cached. -/
structure Unswayed (before after : State R) : Prop where
  settled : ∀ peer, (before.heap peer).Settled (after.heap peer)
  score : after.score = before.score
  messageCache : after.messageCache = before.messageCache

theorem Unswayed.refl (state : State R) : Unswayed state state := ⟨fun _ => .refl _, rfl, rfl⟩

theorem Unswayed.trans (early : Unswayed before middle) (late : Unswayed middle after) : Unswayed before after :=
  ⟨fun peer => (early.settled peer).trans (late.settled peer), late.score.trans early.score,
    late.messageCache.trans early.messageCache⟩

theorem Unswayed.below_eq (unswayed : Unswayed before after) (threshold : R) :
    after.below peer threshold = before.below peer threshold := by
  unfold State.below
  rw [unswayed.score, (unswayed.settled peer).peerId]

theorem Unswayed.takes_eq (unswayed : Unswayed before after) :
    after.takes env from_ message = before.takes env from_ message := by
  funext peer
  unfold State.takes
  rw [unswayed.below_eq, (unswayed.settled peer).peerId]

theorem Unswayed.choose_eq (unswayed : Unswayed before after) (topics : after.topics = before.topics)
    (random : after.random = before.random) (count : ℕ) :
    (after.choose env (after.peersOf topicHash)
      (after.fanoutCandidate topicHash env.config.score.publishThreshold) count).1 =
    (before.choose env (before.peersOf topicHash)
      (before.fanoutCandidate topicHash env.config.score.publishThreshold) count).1 := by
  have capable : ∀ peer, (after.heap peer).isGossipsub = (before.heap peer).isGossipsub := by
    intro peer
    unfold Peer.isGossipsub Peer.supports
    rw [(unswayed.settled peer).peerKind]
  have candidates : after.fanoutCandidate topicHash env.config.score.publishThreshold =
      before.fanoutCandidate topicHash env.config.score.publishThreshold := by
    funext peer
    unfold fanoutCandidate
    rw [unswayed.below_eq, meshOf_eq, topics, meshOf_eq]
  have peers : after.peersOf topicHash = before.peersOf topicHash := by rw [peersOf_eq, topics, peersOf_eq]
  rw [candidates, peers]
  simp only [choose, chooseCount, capable, random]

theorem unswayed_enqueue {op : BatchOp} : Unswayed state (state.enqueue peer op) := by
  refine ⟨fun _ => settled_enqueue, ?_, ?_⟩ <;> rw [enqueue_eq]

theorem unswayed_getBatch : Unswayed state (state.getBatch peer) := by
  refine ⟨fun _ => settled_getBatch, ?_, ?_⟩ <;> rw [getBatch_eq]

theorem unswayed_addPeer : Unswayed state (addPeer env from_ messageId message state peer) := by
  unfold addPeer
  split_ifs
  · exact .refl state
  · exact .refl state
  · exact .refl state
  · exact (unswayed_getBatch.trans unswayed_enqueue).trans unswayed_enqueue
  · exact unswayed_getBatch.trans unswayed_enqueue

theorem unswayed_addPeers {peers : List PeerPtr} :
    Unswayed state (peers.foldl (addPeer env from_ messageId message) state) := by
  induction peers generalizing state with
  | nil => exact .refl state
  | cons peer rest ih => exact unswayed_addPeer.trans ih

/-- One peer is told everything or nothing. -/
theorem log_addPeer : (addPeer env from_ (env.config.messageIdFn message) message state peer).log =
    (if state.takes env from_ message peer then
      ((notices env from_ message).map (Observation.queued peer)).reverse else []) ++ state.log := by
  have queued : ∀ (state : State R) op, (state.enqueue peer op).log = .queued peer op :: state.log :=
    fun state op => (enqueue_frame peer op state).2.2.2.2.2.2.2.2
  have batched : (state.getBatch peer).log = state.log := (getBatch_frame peer state).2.2.2.2.2.2.2.2
  unfold addPeer takes notices
  split_ifs <;> simp_all

/-- A refusal goes to a peer that `add_peer` takes, together with the message. -/
theorem refusals_addPeer (some_ : ((addPeer env from_ messageId message state peer).heap other).refusals ≠ []) :
    (state.heap other).refusals ≠ [] ∨
      sendIdontwant env from_ message ∧ state.takes env from_ message peer ∧ other = peer := by
  unfold addPeer at some_
  split_ifs at some_ with source author low sends
  · exact .inl some_
  · exact .inl some_
  · exact .inl some_
  · by_cases same : other = peer
    · refine .inr ⟨sends, ?_, same⟩
      simp [takes, source, author, low]
    · rw [refusals_enqueue (.inl same), refusals_enqueue (.inl same), refusals_getBatch] at some_
      exact .inl some_
  · rw [refusals_enqueue (.inr (by simp)), refusals_getBatch] at some_
    exact .inl some_

/-- Exactly those of some peers that `add_peer` takes are told. -/
structure Reaches (env : Env R) (from_ : Option PeerId) (message : Message) (peers : List PeerPtr)
    (before after : State R) : Prop where
  unswayed : Unswayed before after
  log : after.log = ((peers.filter (before.takes env from_ message)).flatMap fun peer =>
    (notices env from_ message).map (Observation.queued peer)).reverse ++ before.log
  refusals : ∀ peer, (before.heap peer).refusals = [] → (after.heap peer).refusals ≠ [] →
    sendIdontwant env from_ message ∧ peer ∈ peers ∧ before.takes env from_ message peer

theorem Reaches.nobody (state : State R) : Reaches env from_ message [] state state :=
  ⟨.refl state, rfl, fun _ none_ some_ => absurd none_ some_⟩

theorem Reaches.append {first second : List PeerPtr} (early : Reaches env from_ message first before middle)
    (late : Reaches env from_ message second middle after) : Reaches env from_ message (first ++ second) before after := by
  refine ⟨early.unswayed.trans late.unswayed, ?_, fun peer none_ some_ => ?_⟩
  · rw [late.log, early.log, early.unswayed.takes_eq]
    simp
  · by_cases between : (middle.heap peer).refusals = []
    · obtain ⟨sends, member, taken⟩ := late.refusals peer between some_
      exact ⟨sends, List.mem_append_right _ member, early.unswayed.takes_eq ▸ taken⟩
    · obtain ⟨sends, member, taken⟩ := early.refusals peer none_ between
      exact ⟨sends, List.mem_append_left _ member, taken⟩

theorem reaches_addPeer :
    Reaches env from_ message [peer] state (addPeer env from_ (env.config.messageIdFn message) message state peer) := by
  refine ⟨unswayed_addPeer, ?_, fun other none_ some_ => ?_⟩
  · rw [log_addPeer]
    by_cases taken : state.takes env from_ message peer
    · simp [taken]
    · simp [taken]
  · rcases refusals_addPeer some_ with before | ⟨sends, taken, rfl⟩
    · exact absurd none_ before
    · exact ⟨sends, List.mem_singleton.mpr rfl, taken⟩

theorem random_addPeers {peers : List PeerPtr} :
    (peers.foldl (addPeer env from_ messageId message) state).random = state.random := by
  refine foldl_field State.random fun state peer => ?_
  unfold addPeer
  split_ifs
  · rfl
  · rfl
  · rfl
  · rw [enqueue_eq, enqueue_eq, getBatch_eq]
  · rw [enqueue_eq, getBatch_eq]

/-- The walk over the groups in one piece: the floodsub peers, the mesh, and the peers that fill the mesh up, which are
those that could be chosen before the walk. -/
theorem broadcastMesh_eq : ∃ random, state.broadcastMesh env topicHash from_ messageId message =
    let meshed := (((state.peersOf topicHash).elements.filter fun peer => (state.heap peer).isFloodsub) ++
      (state.meshOf topicHash).elements).foldl (addPeer env from_ messageId message) state
    let filled := ({ meshed with random } : State R).addFanout env topicHash from_ messageId message
      (state.topUp env topicHash from_)
    if from_.isNone then (filled.modifyTopic topicHash fun topic => { topic with lastPublish := filled.now env }).tick
    else meshed := by
  unfold broadcastMesh topUp
  rw [List.foldl_append]
  set flooded := ((state.peersOf topicHash).elements.filter fun peer => (state.heap peer).isFloodsub).foldl
    (addPeer env from_ messageId message) state
  have first : Unswayed state flooded := unswayed_addPeers
  have mesh : flooded.meshOf topicHash = state.meshOf topicHash := by rw [meshOf_eq, topics_addPeers, meshOf_eq]
  dsimp only
  rw [mesh]
  set meshed := (state.meshOf topicHash).elements.foldl (addPeer env from_ messageId message) flooded
  have topics : meshed.topics = state.topics := topics_addPeers.trans topics_addPeers
  have random : meshed.random = state.random := random_addPeers.trans random_addPeers
  have chosen := fun count => @Unswayed.choose_eq R _ env state meshed topicHash (first.trans unswayed_addPeers) topics
    random count
  have size : (meshed.meshOf topicHash).size = (state.meshOf topicHash).size := by rw [meshOf_eq, topics, meshOf_eq]
  split_ifs with own more
  · refine ⟨meshed.random + 1, ?_⟩
    rw [← size, ← chosen]
    rfl
  · have none_ : env.config.meshNForTopic topicHash - (state.meshOf topicHash).size = 0 := by
      rw [← size]
      exact not_not.mp more
    rw [none_, choose, chooseCount, List.take_zero]
    exact ⟨meshed.random, rfl⟩
  · exact ⟨0, rfl⟩

/-- A relation between states that a walk over peers builds up group by group, and that nothing else in it concerns. -/
structure Walk (env : Env R) (from_ : Option PeerId) (messageId : MessageId) (message : Message)
    (walked : List PeerPtr → State R → State R → Prop) : Prop where
  settled : ∀ {before after : State R}, after.heap = before.heap → after.score = before.score →
    after.messageCache = before.messageCache → after.log = before.log → walked [] before after
  append : ∀ {first second : List PeerPtr} {before middle after : State R}, walked first before middle →
    walked second middle after → walked (first ++ second) before after
  addPeer : ∀ (state : State R) (peer : PeerPtr),
    walked [peer] state (State.addPeer env from_ messageId message state peer)

namespace Walk

variable {walked : List PeerPtr → State R → State R → Prop} {peers : List PeerPtr}

theorem foldl (walk : Walk env from_ messageId message walked) {body : State R → PeerPtr → State R}
    (each : ∀ state peer, walked [peer] state (body state peer)) : walked peers state (peers.foldl body state) := by
  induction peers generalizing state with
  | nil => exact walk.settled rfl rfl rfl rfl
  | cons peer rest ih => exact walk.append (each state peer) ih

/-- What follows a walk and concerns none of its matters leaves it as it is. -/
theorem onward (walk : Walk env from_ messageId message walked) (done : walked peers before middle)
    (heap : after.heap = middle.heap) (score : after.score = middle.score)
    (messageCache : after.messageCache = middle.messageCache) (log : after.log = middle.log) :
    walked peers before after := by
  have joined := walk.append done (walk.settled heap score messageCache log)
  rwa [List.append_nil] at joined

theorem addFanout (walk : Walk env from_ messageId message walked) :
    walked peers state (state.addFanout env topicHash from_ messageId message peers) :=
  walk.foldl fun state peer => walk.onward (walk.addPeer state peer) rfl rfl rfl rfl

/-- A broadcast is a walk over the peers that it tries, once the promises of its message are settled. -/
theorem spread (walk : Walk env from_ messageId message walked) (unpromised : state.gossipPromises.peers messageId = []) :
    walked (state.tried env topicHash from_) state (state.spread env topicHash from_ messageId message) := by
  unfold State.spread
  rw [unpromised, State.tried]
  simp only [List.foldl_nil, ite_self]
  split_ifs with flooding
  · exact walk.foldl walk.addPeer
  · obtain ⟨random, whole⟩ := @broadcastMesh_eq R _ env state topicHash from_ messageId message
    rw [whole]
    dsimp only
    set meshed := (((state.peersOf topicHash).elements.filter fun peer => (state.heap peer).isFloodsub) ++
      (state.meshOf topicHash).elements).foldl (State.addPeer env from_ messageId message) state
    have both : walked _ state meshed := walk.foldl walk.addPeer
    split_ifs with own
    · have ready : walked [] meshed { meshed with random } := walk.settled rfl rfl rfl rfl
      exact walk.onward (walk.append both (walk.append ready walk.addFanout)) rfl rfl rfl rfl
    · rw [topUp, if_neg own, List.append_nil]
      exact both

end Walk

/-- A broadcast reaches exactly its recipients, once the promises of its message are settled. -/
theorem reaches_spread (unpromised : state.gossipPromises.peers (env.config.messageIdFn message) = []) :
    Reaches env from_ message (state.tried env topicHash from_) state
      (state.spread env topicHash from_ (env.config.messageIdFn message) message) := by
  have walk : Walk env from_ (env.config.messageIdFn message) message (Reaches env from_ message) :=
    { settled := fun heap score messageCache log =>
        ⟨⟨fun _ => heap ▸ .refl _, score, messageCache⟩, log, fun _ none_ some_ => absurd (heap ▸ none_) some_⟩
      append := Reaches.append
      addPeer := fun _ _ => reaches_addPeer }
  exact walk.spread unpromised

end Reach

/-- A broadcast that has started: the state that determines its recipients, and what it spreads. -/
structure Call (R : Type) [Double R] where
  state : State R
  topicHash : TopicHash
  from_ : Option PeerId
  message : Message

namespace Call

variable (env) (call : Call R)

def recipients : List PeerPtr := call.state.recipients env call.topicHash call.from_ call.message

def notices : List BatchOp := State.notices env call.from_ call.message

def spread : State R :=
  call.state.spread env call.topicHash call.from_ (env.config.messageIdFn call.message) call.message

end Call

namespace State

variable (env)

/-- The broadcast of a received message, if it is accepted. -/
def admission (peer : PeerPtr) (state : State R) (pbPublish : Pb.Message) : Option (Call R) :=
  match validate env.config.validationMode env.rsaBits env.verify (state.heap peer).peerId pbPublish with
  | none => none
  | some message =>
    let messageId := env.config.messageIdFn message
    if message.topic ∈ state.topics ∧
        (state.duplicateCache.insert messageId (state.now env) (state.tick.now env)).2 then
      some
        { state := (state.dateMessage env messageId).deliver env peer messageId message (state.now env) (state.tick.now env)
          topicHash := message.topic
          from_ := some (state.heap peer).peerId
          message }
    else none

/-- The broadcasts of the messages of an RPC. -/
def admissions (peer : PeerPtr) : List Pb.Message → State R → List (Call R)
  | [], _ => []
  | pbPublish :: rest, state =>
    (state.admission env peer pbPublish).toList ++ admissions peer rest (state.onPublish env peer pbPublish)

/-- The broadcast of a message of our own, unless it is a duplicate. -/
def origination (topicHash : TopicHash) (data : Bytes) (state : State R) : List (Call R) :=
  let (message, state) := state.createMessage env topicHash data
  if state.duplicateCache.contains (env.config.messageIdFn message) then []
  else [{ state := state.originate env topicHash message, topicHash, from_ := none, message }]

/-- All broadcasts of an event, in their order. -/
def calls (state : State R) : Event → List (Call R)
  | .message peer encoded =>
    match Pb.RPC.decode encoded with
    | none => []
    | some rpc =>
      if state.below peer env.config.score.graylistThreshold then []
      else admissions env peer rpc.publish (rpc.subscriptions.foldl (onSubscription env peer) state)
  | .publish topicHash data => (state.getOrCreateTopic env topicHash true).origination env topicHash data
  | .publishTopic topicHash data => state.origination env topicHash data
  | _ => []

end State

section Cache

variable {cache : UnorderedMap MessageId MessageCacheEntry} {messageId : MessageId} {message : Message}

/-- Messages are cached under their ids. -/
def Keyed (env : Env R) (cache : UnorderedMap MessageId MessageCacheEntry) : Prop :=
  ∀ messageId entry, cache.lookup messageId = some entry → env.config.messageIdFn entry.message = messageId

theorem Keyed.insert {entry : MessageCacheEntry} (keyed : Keyed env cache)
    (id_ : env.config.messageIdFn entry.message = messageId) : Keyed env (cache.insert messageId entry) := by
  intro other cached looked
  by_cases same : other = messageId
  · subst same
    rw [AList.lookup_insert] at looked
    rw [← Option.some.inj looked]
    exact id_
  · rw [AList.lookup_insert_ne same] at looked
    exact keyed other cached looked

theorem Keyed.emplace (keyed : Keyed env cache) :
    Keyed env (UnorderedMap.emplace cache (env.config.messageIdFn message) { message }) := by
  unfold UnorderedMap.emplace
  split_ifs
  · exact keyed
  · exact keyed.insert rfl

theorem Keyed.erase (keyed : Keyed env cache) : Keyed env (cache.erase messageId) := by
  intro other cached looked
  rw [UnorderedMap.lookup_erase_eq] at looked
  exact keyed other cached (Option.ite_none_left_eq_some.mp looked).2

end Cache

section Tracing

/-- What is queued outside of a broadcast: no refusal, and no message that the peer has refused. -/
def BatchOp.Heedful (env : Env R) (own : Peer) : BatchOp → Prop
  | .publish message => own.dontSend.contains (env.config.messageIdFn message) = false
  | .idontwant _ => False
  | _ => True

/-- Some broadcasts and nothing else may have queued messages and refusals without regard to what peers refused. -/
structure Traced (env : Env R) (calls : List (Call R)) (before after : State R) : Prop where
  settled : ∀ peer, (before.heap peer).Settled (after.heap peer)
  called : ∀ call ∈ calls, ∀ peer, (before.heap peer).Settled (call.state.heap peer)
  keyed : Keyed env before.messageCache → Keyed env after.messageCache
  log : ∃ extra, after.log = extra ++ before.log ∧
    (∀ peer op, .queued peer op ∈ extra → op.Heedful env (before.heap peer) ∨
      ∃ call ∈ calls, peer ∈ call.recipients env ∧ op ∈ call.notices env) ∧
    ∀ call ∈ calls, ∀ peer ∈ call.recipients env, .queued peer (.publish call.message) ∈ extra
  refusals : ∀ peer, (before.heap peer).refusals = [] → (after.heap peer).refusals ≠ [] →
    ∃ call ∈ calls, sendIdontwant env call.from_ call.message ∧ peer ∈ call.recipients env

theorem BatchOp.Heedful.congr {own later : Peer} {op : BatchOp} (heedful : op.Heedful env later)
    (settled : own.Settled later) : op.Heedful env own := by
  cases op with
  | publish message =>
    change own.dontSend.contains _ = false
    rw [← settled.dontSend]
    exact heedful
  | idontwant messageId => exact heedful
  | _ => trivial

theorem Traced.trans {first second : List (Call R)} (early : Traced env first before middle)
    (late : Traced env second middle after) : Traced env (first ++ second) before after := by
  obtain ⟨extra₁, log₁, queued₁, told₁⟩ := early.log
  obtain ⟨extra₂, log₂, queued₂, told₂⟩ := late.log
  refine ⟨fun peer => (early.settled peer).trans (late.settled peer), ?_, fun keyed => late.keyed (early.keyed keyed),
    ⟨extra₂ ++ extra₁, by rw [log₂, log₁, List.append_assoc], ?_, ?_⟩, ?_⟩
  · intro call member peer
    rcases List.mem_append.mp member with earlier | later
    · exact early.called call earlier peer
    · exact (early.settled peer).trans (late.called call later peer)
  · intro peer op member
    rcases List.mem_append.mp member with later | earlier
    · rcases queued₂ peer op later with heedful | ⟨call, called, reached⟩
      · exact .inl (heedful.congr (early.settled peer))
      · exact .inr ⟨call, List.mem_append_right _ called, reached⟩
    · rcases queued₁ peer op earlier with heedful | ⟨call, called, reached⟩
      · exact .inl heedful
      · exact .inr ⟨call, List.mem_append_left _ called, reached⟩
  · intro call member peer reached
    rcases List.mem_append.mp member with earlier | later
    · exact List.mem_append_right _ (told₁ call earlier peer reached)
    · exact List.mem_append_left _ (told₂ call later peer reached)
  · intro peer none_ some_
    by_cases between : (middle.heap peer).refusals = []
    · obtain ⟨call, called, told⟩ := late.refusals peer between some_
      exact ⟨call, List.mem_append_right _ called, told⟩
    · obtain ⟨call, called, told⟩ := early.refusals peer none_ between
      exact ⟨call, List.mem_append_left _ called, told⟩

theorem Traced.tail {calls : List (Call R)} (early : Traced env calls before middle) (late : Traced env [] middle after) :
    Traced env calls before after :=
  List.append_nil calls ▸ early.trans late

/-- Updates that queue nothing. -/
theorem Traced.silent {extra : List Observation} (settled : ∀ peer, (before.heap peer).Settled (after.heap peer))
    (keyed : Keyed env before.messageCache → Keyed env after.messageCache) (log : after.log = extra ++ before.log)
    (quiet : ∀ observation ∈ extra, observation.isQueued = false)
    (refusals : ∀ peer, (after.heap peer).refusals = (before.heap peer).refusals) : Traced env [] before after := by
  refine ⟨settled, by simp, keyed, ⟨extra, log, fun peer op member => ?_, by simp⟩, fun peer none_ some_ => ?_⟩
  · have queued : (Observation.queued peer op).isQueued = false := quiet _ member
    cases queued
  · exact absurd ((refusals peer).trans none_) some_

theorem Traced.same (heap : after.heap = before.heap) (messageCache : after.messageCache = before.messageCache)
    (log : after.log = before.log) : Traced env [] before after := by
  have unlogged : after.log = [] ++ before.log := log
  exact .silent (fun peer => heap ▸ .refl _) (fun keyed => messageCache ▸ keyed) unlogged (by simp) fun peer => by rw [heap]

theorem traced_foldl {α : Type} {body : State R → α → State R} {entries : List α} (keyed : Keyed env state.messageCache)
    (each : ∀ state entry, Keyed env state.messageCache → Traced env [] state (body state entry)) :
    Traced env [] state (entries.foldl body state) := by
  induction entries generalizing state with
  | nil => exact .same rfl rfl rfl
  | cons entry rest ih =>
    have first := each state entry keyed
    exact first.trans (ih (first.keyed keyed))

theorem traced_enqueue {op : BatchOp} (heedful : op.Heedful env (state.heap peer)) :
    Traced env [] state (state.enqueue peer op) := by
  have unswayed : Unswayed state (state.enqueue peer op) := unswayed_enqueue
  refine ⟨unswayed.settled, by simp, fun keyed => unswayed.messageCache ▸ keyed, ⟨[.queued peer op],
    (enqueue_frame peer op state).2.2.2.2.2.2.2.2, fun other queued member => ?_, by simp⟩, fun other none_ some_ => ?_⟩
  · obtain ⟨rfl, rfl⟩ := Observation.queued.inj (List.mem_singleton.mp member)
    exact .inl heedful
  · have other_op : ∀ messageId, op ≠ .idontwant messageId := by
      rintro messageId rfl
      exact heedful
    rw [refusals_enqueue (.inr other_op)] at some_
    exact absurd none_ some_

/-- A broadcast is traced as itself. -/
theorem traced_spread {call : Call R}
    (unpromised : call.state.gossipPromises.peers (env.config.messageIdFn call.message) = []) :
    Traced env [call] call.state (call.spread env) := by
  obtain ⟨unswayed, log, refusals⟩ :=
    @reaches_spread R _ env call.state call.topicHash call.from_ call.message unpromised
  refine ⟨unswayed.settled, ?_, fun keyed => unswayed.messageCache ▸ keyed, ⟨_, log, ?_, ?_⟩, ?_⟩
  · intro other member peer
    rw [List.mem_singleton.mp member]
    exact .refl _
  · intro peer op member
    obtain ⟨told, reached, noticed⟩ := List.mem_flatMap.mp (List.mem_reverse.mp member)
    obtain ⟨notice, carried, same⟩ := List.mem_map.mp noticed
    obtain ⟨rfl, rfl⟩ := Observation.queued.inj same
    exact .inr ⟨call, List.mem_singleton.mpr rfl, reached, carried⟩
  · intro other member peer reached
    rw [List.mem_singleton.mp member] at reached ⊢
    refine List.mem_reverse.mpr (List.mem_flatMap.mpr ⟨peer, reached, List.mem_map.mpr ⟨_, ?_, rfl⟩⟩)
    exact List.mem_append_right _ (List.mem_singleton.mpr rfl)
  · intro peer none_ some_
    obtain ⟨sends, tried, taken⟩ := refusals peer none_ some_
    exact ⟨call, List.mem_singleton.mpr rfl, sends, List.mem_filter.mpr ⟨tried, taken⟩⟩

theorem traced_record {observation : Observation} (quiet : observation.isQueued = false) :
    Traced env [] state (state.record observation) := by
  have log : (state.record observation).log = [observation] ++ state.log := rfl
  refine .silent (fun _ => .refl _) id log (fun added member => ?_) fun _ => rfl
  rwa [List.mem_singleton.mp member]

theorem traced_modifyPeer {change : Peer → Peer} (settled : ∀ own : Peer, own.Settled (change own))
    (batch : ∀ own : Peer, (change own).batch = own.batch) : Traced env [] state (state.modifyPeer peer change) := by
  have log : (state.modifyPeer peer change).log = [] ++ state.log := rfl
  refine .silent (fun other => ?_) id log (by simp) fun other => ?_
  · rw [heap_modifyPeer]
    split_ifs with same
    · exact same ▸ settled _
    · exact .refl _
  · exact modifyPeer_field Peer.refusals (by unfold Peer.refusals; rw [batch])

theorem traced_graft {topicHash : TopicHash} : Traced env [] state (state.graft env topicHash peer) := by
  unfold graft
  refine Traced.tail ?_ (traced_enqueue (by trivial))
  split
  · split_ifs
    · have asserted : Traced env [] state (state.record (.graftAsserted topicHash peer)) := traced_record rfl
      exact asserted.trans (.same rfl rfl rfl)
    · exact .same rfl rfl rfl
  · exact .same rfl rfl rfl

theorem traced_makePrune {topicHash : TopicHash} : Traced env [] state (state.makePrune env topicHash peer) := by
  unfold makePrune
  dsimp only
  split_ifs
  · refine Traced.tail ?_ (traced_enqueue (by trivial))
    exact .same rfl rfl rfl
  · refine Traced.tail ?_ (traced_enqueue (by trivial))
    exact .same rfl rfl rfl
  · exact .same rfl rfl rfl

theorem traced_removePeerFromMesh {topicHash : TopicHash} {backoff : Option Backoff} {always : Bool} :
    Traced env [] state (state.removePeerFromMesh env topicHash peer backoff always) := by
  rw [removePeerFromMesh_eq]
  exact .same rfl rfl rfl

theorem traced_addToTopic {topicHash : TopicHash} : Traced env [] state (state.addToTopic peer topicHash) := by
  have known : Traced env [] state (state.modifyPeer peer fun own => { own with topics := own.topics.insert topicHash }) :=
    traced_modifyPeer (fun _ => ⟨rfl, rfl, rfl⟩) fun _ => rfl
  exact known.trans (.same rfl rfl rfl)

theorem traced_onSubscription {pbSubscribe : Pb.SubOpts} :
    Traced env [] state (state.onSubscription env peer pbSubscribe) := by
  unfold onSubscription graftOnSubscribe
  dsimp only
  split_ifs
  · split
    · exact traced_addToTopic
    · split_ifs
      · exact traced_addToTopic.trans traced_graft
      · exact traced_addToTopic
  · have left : Traced env [] state (state.modifyPeer peer fun own =>
        { own with topics := own.topics.erase (pbSubscribe.topicId.getD []) }) :=
      traced_modifyPeer (fun _ => ⟨rfl, rfl, rfl⟩) fun _ => rfl
    refine Traced.tail ?_ traced_removePeerFromMesh
    exact left.tail (.same rfl rfl rfl)

theorem traced_onGraft {pbGraft : Pb.ControlGraft} : Traced env [] state (state.onGraft env peer pbGraft) := by
  have decided : ∀ (state : State R) topicHash topic,
      Traced env [] state (state.graftDecision env peer topicHash topic).2 := by
    intro state topicHash topic
    refine graftDecision_induction (.same rfl rfl rfl) fun after traced => ?_
    have scored : Traced env [] after (after.modifyScore fun score => score.addPenalty (after.heap peer).peerId 1) :=
      .same rfl rfl rfl
    exact traced.trans (scored.tail (traced_record rfl))
  unfold onGraft
  dsimp only
  split
  · exact traced_addToTopic
  · split_ifs
    · exact traced_addToTopic
    · exact traced_addToTopic
    · exact (traced_addToTopic.trans (decided _ _ _)).trans (.same rfl rfl rfl)
    · exact (traced_addToTopic.trans (decided _ _ _)).trans traced_makePrune

theorem traced_handleIhave {pbIhaves : List Pb.ControlIHave} (keyed : Keyed env state.messageCache) :
    Traced env [] state (state.handleIhave env peer pbIhaves).1 := by
  have requested : ∀ (state : State R) messageId, Keyed env state.messageCache →
      Traced env [] state (state.requestMessage env peer messageId) := by
    intro state messageId _
    unfold requestMessage
    refine Traced.tail ?_ (traced_enqueue (by trivial))
    exact .same rfl rfl rfl
  have batched : ∀ state : State R, Traced env [] state (state.getBatch peer) := by
    intro state
    have unswayed : Unswayed state (state.getBatch peer) := unswayed_getBatch
    have log : (state.getBatch peer).log = [] ++ state.log := (getBatch_frame peer state).2.2.2.2.2.2.2.2
    exact .silent unswayed.settled (fun keyed => unswayed.messageCache ▸ keyed) log (by simp) fun _ => refusals_getBatch
  unfold handleIhave
  dsimp only
  split_ifs
  · exact .same rfl rfl rfl
  · exact .same rfl rfl rfl
  · exact .same rfl rfl rfl
  · exact .same rfl rfl rfl
  · unfold requestMessages
    refine Traced.tail (Traced.tail ?_ (batched _)) (traced_foldl ((batched _).keyed keyed) requested)
    exact .same rfl rfl rfl
  · exact .same rfl rfl rfl

/-- A requested message is sent unless the peer has refused it. -/
theorem traced_serveMessage {messageId : MessageId} (keyed : Keyed env state.messageCache) :
    Traced env [] state (state.serveMessage env peer messageId) := by
  unfold serveMessage
  split
  · exact .same rfl rfl rfl
  · next entry found =>
    have id_ : env.config.messageIdFn entry.message = messageId := keyed messageId entry found
    have counted : ∀ iwant, Traced env [] state { state with
        messageCache := state.messageCache.insert messageId { entry with iwant } } := by
      intro iwant
      have log : state.log = [] ++ state.log := rfl
      exact .silent (fun _ => .refl _) (fun keyed => keyed.insert id_) log (by simp) fun _ => rfl
    dsimp only
    split_ifs with often refused
    · exact counted _
    · exact counted _
    · refine Traced.tail (counted _) (traced_enqueue ?_)
      change (state.heap peer).dontSend.contains (env.config.messageIdFn entry.message) = false
      rw [id_]
      exact Bool.eq_false_of_not_eq_true refused

theorem traced_onIwant {pbIwant : Pb.ControlIWant} (keyed : Keyed env state.messageCache) :
    Traced env [] state (state.onIwant env peer pbIwant) := by
  unfold onIwant
  split_ifs
  · exact .same rfl rfl rfl
  · exact traced_foldl keyed fun _ _ => traced_serveMessage

/-- A loop over control entries handles some first entries. -/
theorem exists_forGossipsub {α : Type} {body : State R → α → State R} {entries : List α} :
    ∃ handled, (forGossipsub peer body entries state).1 = List.foldl body state handled := by
  induction entries generalizing state with
  | nil => exact ⟨[], rfl⟩
  | cons entry rest ih =>
    unfold forGossipsub
    split_ifs
    · obtain ⟨handled, done⟩ := @ih (body state entry)
      exact ⟨entry :: handled, done⟩
    · exact ⟨[], rfl⟩

theorem traced_forGossipsub {α : Type} {body : State R → α → State R} {entries : List α} (keyed : Keyed env state.messageCache)
    (each : ∀ state entry, Keyed env state.messageCache → Traced env [] state (body state entry)) :
    Traced env [] state (forGossipsub peer body entries state).1 := by
  obtain ⟨handled, done⟩ := @exists_forGossipsub R _ state peer α body entries
  rw [done]
  exact traced_foldl keyed each

/-- The refusals of a peer are remembered, which queues nothing. -/
structure Remembers (before after : State R) : Prop where
  log : after.log = before.log
  batch : ∀ peer, (after.heap peer).batch = (before.heap peer).batch
  peerKind : ∀ peer, (after.heap peer).peerKind = (before.heap peer).peerKind

theorem Remembers.refl (state : State R) : Remembers state state := ⟨rfl, fun _ => rfl, fun _ => rfl⟩

theorem remembers_onIdontwant {entries : List Pb.ControlIDontWant} :
    Remembers state (entries.foldl (onIdontwant env peer) state) := by
  have one : ∀ (state : State R) messageId, (state.refuseMessage env peer messageId).log = state.log ∧
      ∀ other, ((state.refuseMessage env peer messageId).heap other).batch = (state.heap other).batch ∧
        ((state.refuseMessage env peer messageId).heap other).peerKind = (state.heap other).peerKind := by
    intro state messageId
    refine ⟨rfl, fun other => ?_⟩
    simp only [refuseMessage, tick, heap_modifyPeer]
    split_ifs with same
    · exact same ▸ ⟨rfl, rfl⟩
    · exact ⟨rfl, rfl⟩
  refine ⟨?_, fun other => ?_, fun other => ?_⟩
  · exact foldl_field State.log fun _ _ => foldl_field State.log fun state messageId => (one state messageId).1
  · exact foldl_field (fun state : State R => (state.heap other).batch) fun _ _ =>
      foldl_field (fun state : State R => (state.heap other).batch) fun state messageId => ((one state messageId).2 other).1
  · exact foldl_field (fun state : State R => (state.heap other).peerKind) fun _ _ =>
      foldl_field (fun state : State R => (state.heap other).peerKind) fun state messageId =>
        ((one state messageId).2 other).2

/-- Refusals come last. -/
theorem traced_onControl {control : Pb.ControlMessage} (keyed : Keyed env state.messageCache) :
    ∃ middle, Traced env [] state middle ∧ Remembers middle (state.onControl env peer control).1 := by
  have grafts := @traced_forGossipsub R _ env state peer _ (onGraft env peer) control.graft keyed
    fun _ _ _ => traced_onGraft
  unfold onControl
  generalize forGossipsub peer (onGraft env peer) control.graft state = grafted at grafts
  have prunes := @traced_forGossipsub R _ env grafted.1 peer _ (onPrune env peer) control.prune (grafts.keyed keyed)
    fun _ _ _ => traced_removePeerFromMesh
  dsimp only
  generalize forGossipsub peer (onPrune env peer) control.prune grafted.1 = pruned at prunes
  have untilPrunes := grafts.trans prunes
  have ihaves := @traced_handleIhave R _ env pruned.1 peer control.ihave (untilPrunes.keyed keyed)
  generalize pruned.1.handleIhave env peer control.ihave = advertised at ihaves
  have untilIhaves := untilPrunes.trans ihaves
  have iwants := @traced_forGossipsub R _ env advertised.1 peer _ (onIwant env peer) control.iwant
    (untilIhaves.keyed keyed) fun _ _ => traced_onIwant
  generalize forGossipsub peer (onIwant env peer) control.iwant advertised.1 = served at iwants
  have untilIwants := untilIhaves.trans iwants
  obtain ⟨handled, idontwants⟩ :=
    @exists_forGossipsub R _ served.1 peer _ (onIdontwant env peer) control.idontwant
  split_ifs
  · refine ⟨served.1, untilIwants, ?_⟩
    rw [idontwants]
    exact remembers_onIdontwant
  · exact ⟨served.1, untilIwants, .refl _⟩
  · exact ⟨advertised.1, untilIhaves, .refl _⟩
  · exact ⟨pruned.1, untilPrunes, .refl _⟩
  · exact ⟨grafted.1, grafts, .refl _⟩

/-- The start of a broadcast caches the message under its id and settles the promises of it. -/
theorem traced_cached {extra : List Observation} {message : Message} (heap : after.heap = before.heap)
    (messageCache : after.messageCache =
      UnorderedMap.emplace before.messageCache (env.config.messageIdFn message) { message })
    (log : after.log = extra ++ before.log) (quiet : ∀ observation ∈ extra, observation.isQueued = false) :
    Traced env [] before after := by
  exact .silent (fun peer => heap ▸ .refl _) (fun keyed => messageCache ▸ keyed.emplace) log quiet fun peer => by rw [heap]

theorem peers_remove {promises : GossipPromises MessageId PeerPtr} {messageId : MessageId} :
    (promises.remove messageId).peers messageId = [] := by
  simp [GossipPromises.remove, GossipPromises.peers]

theorem receiveMessage_eq {message : Message} : state.receiveMessage env peer message =
    if message.topic ∈ state.topics then
      if (state.duplicateCache.insert (env.config.messageIdFn message) (state.now env) (state.tick.now env)).2 then
        ((state.dateMessage env (env.config.messageIdFn message)).deliver env peer (env.config.messageIdFn message)
          message (state.now env) (state.tick.now env)).spread env message.topic (some (state.heap peer).peerId)
          (env.config.messageIdFn message) message
      else (state.dateMessage env (env.config.messageIdFn message)).countDuplicate env peer
        (env.config.messageIdFn message) message.topic
    else state := rfl

theorem traced_onPublish {pbPublish : Pb.Message} :
    Traced env (state.admission env peer pbPublish).toList state (state.onPublish env peer pbPublish) := by
  cases valid : validate env.config.validationMode env.rsaBits env.verify (state.heap peer).peerId pbPublish with
  | none =>
    simp only [onPublish, admission, valid]
    exact .same rfl rfl rfl
  | some message =>
    simp only [onPublish, admission, valid, receiveMessage_eq]
    by_cases topic : message.topic ∈ state.topics
    · by_cases fresh : (state.duplicateCache.insert (env.config.messageIdFn message) (state.now env)
          (state.tick.now env)).2
      · rw [if_pos topic, if_pos fresh, if_pos ⟨topic, fresh⟩, deliver_eq]
        refine @Traced.trans R _ env _ _ _ [] [_] ?_ (traced_spread (by exact peers_remove))
        exact traced_cached rfl rfl (List.append_assoc [_, _, _] [] _).symm (by simp [Observation.isQueued])
      · rw [if_pos topic, if_neg fresh, if_neg fun both => fresh both.2, countDuplicate_eq]
        exact .same rfl rfl rfl
    · rw [if_neg topic, if_neg fun both => topic both.1]
      exact .same rfl rfl rfl

theorem traced_admissions {entries : List Pb.Message} :
    Traced env (state.admissions env peer entries) state (entries.foldl (onPublish env peer) state) := by
  induction entries generalizing state with
  | nil => exact .same rfl rfl rfl
  | cons pbPublish rest ih => exact traced_onPublish.trans ih

theorem traced_onMessage {encoded : Bytes} (keyed : Keyed env state.messageCache) :
    ∃ middle, Traced env (state.calls env (.message peer encoded)) state middle ∧
      Remembers middle (state.onMessage env peer encoded).1 := by
  cases decoded : Pb.RPC.decode encoded with
  | none =>
    simp only [onMessage, calls, decoded]
    exact ⟨state, .same rfl rfl rfl, .refl _⟩
  | some rpc =>
    simp only [onMessage, calls, decoded]
    split_ifs
    · exact ⟨state, .same rfl rfl rfl, .refl _⟩
    · have subscriptions : Traced env [] state (rpc.subscriptions.foldl (onSubscription env peer) state) :=
        traced_foldl keyed fun _ _ _ => traced_onSubscription
      have messages := subscriptions.trans (@traced_admissions R _ env _ peer rpc.publish)
      obtain ⟨middle, control, remembers⟩ := @traced_onControl R _ env _ peer rpc.control (messages.keyed keyed)
      exact ⟨middle, messages.tail control, remembers⟩

theorem traced_publishTopic {topicHash : TopicHash} {data : Bytes} :
    Traced env (state.origination env topicHash data) state (state.publishTopic env topicHash data) := by
  unfold publishTopic origination
  set made := state.createMessage env topicHash data with making
  have numbered : Traced env [] state made.2 := by
    rw [making]
    unfold createMessage
    cases env.config.messageAuthenticity with
    | signed => exact .same rfl rfl rfl
    | anonymous => exact .same rfl rfl rfl
  dsimp only
  split_ifs
  · exact numbered
  · refine numbered.trans ?_
    rw [originate_eq]
    refine @Traced.trans R _ env _ _ _ [] [_] ?_ (traced_spread (by exact peers_remove))
    exact traced_cached rfl rfl (List.append_assoc [_, _] [] _).symm (by simp [Observation.isQueued])

theorem traced_publish {topicHash : TopicHash} {data : Bytes} :
    Traced env (state.calls env (.publish topicHash data)) state (state.publish env topicHash data) := by
  have created : Traced env [] state (state.getOrCreateTopic env topicHash true) := by
    rw [getOrCreateTopic_publishOnly]
    split_ifs
    · exact .same rfl rfl rfl
    · exact .same rfl rfl rfl
  exact created.trans traced_publishTopic

/-- What an event that may broadcast queues comes from its broadcasts or respects what peers refused. -/
theorem traced_of_step (keyed : Keyed env before.messageCache) (spreads : event.spreads)
    (stepped : before.step env event = some after) :
    ∃ middle, Traced env (before.calls env event) before middle ∧ Remembers middle after := by
  cases event with
  | message peer encoded =>
    obtain ⟨allocated, ⟨⟩⟩ := Option.ite_none_right_eq_some.mp stepped
    exact traced_onMessage keyed
  | publish topicHash data =>
    obtain rfl := Option.some.inj stepped
    exact ⟨_, traced_publish, .refl _⟩
  | publishTopic topicHash data =>
    obtain ⟨subscribed, ⟨⟩⟩ := Option.ite_none_right_eq_some.mp stepped
    exact ⟨_, traced_publishTopic, .refl _⟩
  | _ => cases spreads

end Tracing

section Refusals

/-- No message is queued to a peer that has refused it. -/
def Honours (env : Env R) (before after : State R) : Prop :=
  ∀ peer message, (before.heap peer).dontSend.contains (env.config.messageIdFn message) →
    after.log.count (.queued peer (.publish message)) = before.log.count (.queued peer (.publish message))

/-- No recipient of a broadcast has refused its message. -/
def Heeds (env : Env R) (before : State R) (event : Event) : Prop :=
  ∀ call ∈ before.calls env event, ∀ peer ∈ call.recipients env,
    ¬ (call.state.heap peer).dontSend.contains (env.config.messageIdFn call.message)

/-- Runs in which refusals are honoured at every step. -/
abbrev HonouringRuns (env : Env R) (lastSeqNo : Seqno) : List Event → State R → Prop :=
  Run (fun before event after => before.step env event = some after ∧ Honours env before after)
    (State.initial env lastSeqNo)

/-- Runs in which broadcasts never reach a peer that has refused the message. -/
abbrev HeedingRuns (env : Env R) (lastSeqNo : Seqno) : List Event → State R → Prop :=
  Run (fun before event after => before.step env event = some after ∧ Heeds env before event)
    (State.initial env lastSeqNo)

theorem publish_mem_notices {call : Call R} {message : Message} (noticed : .publish message ∈ call.notices env) :
    message = call.message := by
  unfold Call.notices State.notices at noticed
  split_ifs at noticed
  · simpa using noticed
  · simpa using noticed

/-- Events that broadcast nothing queue no message. -/
theorem count_publish_of_step (sound : before.roster.Sound) (stepped : before.step env event = some after)
    (silent : event.spreads = false) (peer : PeerPtr) (message : Message) :
    after.log.count (.queued peer (.publish message)) = before.log.count (.queued peer (.publish message)) := by
  have both : after.roster.Sound ∧
      after.log.count (.queued peer (.publish message)) = before.log.count (.queued peer (.publish message)) := by
    refine step_preserves (fun state => state.roster.Sound ∧
      state.log.count (.queued peer (.publish message)) = before.log.count (.queued peer (.publish message)))
      ?_ sound stepped ⟨sound, rfl⟩
    rintro middle later micro ⟨sound, same⟩
    refine ⟨sound.step micro.roster, ?_⟩
    rw [← same]
    cases micro.logs sound with
    | quiet extra log calm =>
      rw [log, List.count_append, List.count_eq_zero.mpr, Nat.zero_add]
      intro member
      obtain ⟨topicHash, impossible⟩ := calm peer _ member
      cases impossible
    | single told op queued log rests =>
      rw [log, List.count_cons_of_ne]
      intro carried
      obtain ⟨rfl, rfl⟩ := Observation.queued.inj carried
      cases queued with
      | permitted permitted =>
        cases permitted with
        | relayed started source => rw [silent] at source; cases source
        | served cached source => rw [source] at silent; cases silent
  exact both.2

theorem calls_eq_nil (silent : event.spreads = false) : state.calls env event = [] := by
  cases event <;> first | rfl | cases silent

/-- A step honours refusals exactly if its broadcasts heed them. -/
theorem honours_iff_heeds (sound : before.roster.Sound) (keyed : Keyed env before.messageCache)
    (stepped : before.step env event = some after) : Honours env before after ↔ Heeds env before event := by
  cases spreads : event.spreads with
  | false =>
    refine iff_of_true (fun peer message _ => count_publish_of_step sound stepped spreads peer message) ?_
    intro call member
    rw [calls_eq_nil spreads] at member
    cases member
  | true =>
    obtain ⟨middle, traced, ⟨same, -, -⟩⟩ := traced_of_step keyed spreads stepped
    obtain ⟨extra, log, queued, told⟩ := traced.log
    constructor
    · intro honours call member peer reached refused
      rw [(traced.called call member peer).dontSend] at refused
      have kept := honours peer call.message refused
      rw [same, log, List.count_append] at kept
      have added := List.count_pos_iff.mpr (told call member peer reached)
      omega
    · intro heeds peer message refused
      rw [same, log, List.count_append, List.count_eq_zero.mpr, Nat.zero_add]
      intro member
      rcases queued peer _ member with heedful | ⟨call, called, reached, noticed⟩
      · have unrefused : (before.heap peer).dontSend.contains (env.config.messageIdFn message) = false := heedful
        rw [unrefused] at refused
        cases refused
      · obtain rfl := publish_mem_notices noticed
        refine heeds call called peer reached ?_
        rwa [(traced.called call called peer).dontSend]

theorem Records.Step.keyed {first second : Records} (step : Records.Step env event first second)
    (keyed : Keyed env first.messageCache) : Keyed env second.messageCache := by
  cases step with
  | admitted => exact keyed.emplace
  | originated => exact keyed.emplace
  | served messageId iwant cached =>
    have id_ := keyed _ _ cached
    exact keyed.insert id_
  | aged => exact foldl_preserves (Keyed env) (fun _ _ _ kept => kept.erase) keyed
  | _ => exact keyed

theorem keyed_of_runs (run : Runs env lastSeqNo events state) : Keyed env state.messageCache :=
  records_of_runs (fun records => Keyed env records.messageCache) (fun _ _ cached => by cases cached)
    (fun _ _ _ step => step.keyed) run

/-- A run honours every refusal exactly if none of its broadcasts reaches a peer that has refused the message. -/
theorem honouringRuns_iff : HonouringRuns env lastSeqNo events state ↔ HeedingRuns env lastSeqNo events state :=
  Run.and_iff fun _ _ _ _ run stepped => honours_iff_heeds (sound_of_runs run) (keyed_of_runs run) stepped

/-- The message that arrives as `sampleMessage 2 7 [0x74] [0x68, 0x69]` from the third peer. -/
def relayedMessage : Message where
  from_ := some (samplePeerId 2)
  data := [0x68, 0x69]
  seqno := some 7
  topic := [0x74]
  signature := (sampleMessage 2 7 [0x74] [0x68, 0x69]).signature
  receivedFrom := some (samplePeerId 3)

/-- A mesh peer refuses a message that another peer is about to send. -/
def refusingEvents : List Event :=
  [.subscribe [0x74], .connected (samplePeerId 1) false, .handle (samplePeerId 1) kProtocolGossipsubv1_2,
    .message 0 (Pb.RPC.encode { subscriptions := [{ subscribe := some true, topicId := some [0x74] }] }),
    .connected (samplePeerId 3) false, .handle (samplePeerId 3) kProtocolGossipsubv1_2,
    .message 0 (Pb.RPC.encode { control :=
      { idontwant := [{ messageIds := [(sampleEnv true (10 ^ 6)).config.messageIdFn relayedMessage] }] } })]

/-- The message is relayed to the peer that has refused it. -/
theorem refused_message_relayed : ∃ before after, Runs (sampleEnv true (10 ^ 6)) 0 refusingEvents before ∧
    before.step (sampleEnv true (10 ^ 6))
      (.message 1 (Pb.RPC.encode { publish := [sampleMessage 2 7 [0x74] [0x68, 0x69]] })) = some after ∧
    (before.heap 0).dontSend.contains ((sampleEnv true (10 ^ 6)).config.messageIdFn relayedMessage) ∧
    .queued 0 (.publish relayedMessage) ∉ before.log ∧ .queued 0 (.publish relayedMessage) ∈ after.log := by
  have followed : ((refusingEvents.foldlM (State.step (sampleEnv true (10 ^ 6)))
      (State.initial (sampleEnv true (10 ^ 6)) 0)).bind fun before => (before.step (sampleEnv true (10 ^ 6))
        (.message 1 (Pb.RPC.encode { publish := [sampleMessage 2 7 [0x74] [0x68, 0x69]] }))).map fun after =>
          (before.heap 0).dontSend.contains ((sampleEnv true (10 ^ 6)).config.messageIdFn relayedMessage) &&
            decide (.queued 0 (.publish relayedMessage) ∉ before.log) &&
            decide (.queued 0 (.publish relayedMessage) ∈ after.log)) = some true := by
    decide +kernel
  obtain ⟨before, ran, stepped⟩ := Option.bind_eq_some_iff.mp followed
  obtain ⟨after, taken, observed⟩ := Option.map_eq_some_iff.mp stepped
  simp only [Bool.and_eq_true, decide_eq_true_eq] at observed
  obtain ⟨⟨refused, unqueued⟩, queued⟩ := observed
  exact ⟨before, after, Run.of_foldlM ran, taken, refused, unqueued, queued⟩

end Refusals

end Libp2p.Gossip
