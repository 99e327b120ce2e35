import Libp2p.Protocol.Gossip.System

/-! # What the primitive updates leave alone

Queueing into a batch changes one peer object and the log. Grafting and pruning change, besides that, the mesh
and the backoff of one topic and the scores. The lemmas say so field by field, and describe a peer object after
an update through the fields that identify it.
-/

namespace Libp2p.Gossip.State

open Library

variable {R : Type} [Double R] {env : Env R}

section Peers

variable {peer other : PeerPtr} {change : Peer → Peer} {state : State R}

theorem heap_modifyPeer :
    (state.modifyPeer peer change).heap other =
      if other = peer then change (state.heap peer) else state.heap other := by
  simp only [modifyPeer, Function.update_apply]

/-- A field that a change of one object keeps is kept in every object. -/
theorem modifyPeer_field {α : Type} (field : Peer → α)
    (kept : field (change (state.heap peer)) = field (state.heap peer)) :
    field ((state.modifyPeer peer change).heap other) = field (state.heap other) := by
  rw [heap_modifyPeer]
  split_ifs with same
  · rw [same, kept]
  · rfl

end Peers

section Batches

variable (peer : PeerPtr) (op : BatchOp) (state : State R) {other : PeerPtr}

theorem checkWrite_eq : checkWrite peer state = { state with heap := (checkWrite peer state).heap } := by
  unfold checkWrite
  split_ifs <;> rfl

theorem getBatch_eq : getBatch peer state = { state with heap := (getBatch peer state).heap } := by
  rw [getBatch, checkWrite_eq]
  rfl

theorem enqueue_eq : enqueue peer op state =
    { state with heap := (enqueue peer op state).heap, log := .queued peer op :: state.log } := by
  rw [enqueue, getBatch_eq]
  rfl

@[simp] theorem getBatch_frame : (state.getBatch peer).topics = state.topics ∧
    (state.getBatch peer).peers = state.peers ∧ (state.getBatch peer).allocated = state.allocated ∧
    (state.getBatch peer).duplicateCache = state.duplicateCache ∧
    (state.getBatch peer).messageCache = state.messageCache ∧ (state.getBatch peer).score = state.score ∧
    (state.getBatch peer).gossipPromises = state.gossipPromises ∧
    (state.getBatch peer).readings = state.readings ∧ (state.getBatch peer).log = state.log := by
  rw [getBatch_eq]
  exact ⟨rfl, rfl, rfl, rfl, rfl, rfl, rfl, rfl, rfl⟩

@[simp] theorem enqueue_frame : (state.enqueue peer op).topics = state.topics ∧
    (state.enqueue peer op).peers = state.peers ∧ (state.enqueue peer op).allocated = state.allocated ∧
    (state.enqueue peer op).duplicateCache = state.duplicateCache ∧
    (state.enqueue peer op).messageCache = state.messageCache ∧ (state.enqueue peer op).score = state.score ∧
    (state.enqueue peer op).gossipPromises = state.gossipPromises ∧
    (state.enqueue peer op).readings = state.readings ∧
    (state.enqueue peer op).log = .queued peer op :: state.log := by
  rw [enqueue_eq]
  exact ⟨rfl, rfl, rfl, rfl, rfl, rfl, rfl, rfl, rfl⟩

/-- A field that neither the batch nor the writer touches is the same after a batch was created. -/
theorem getBatch_field {α : Type} (field : Peer → α)
    (batch : ∀ peer batch, field { peer with batch } = field peer)
    (writer : ∀ peer writing writer, field { peer with writing, writer } = field peer) :
    field ((state.getBatch peer).heap other) = field (state.heap other) := by
  unfold getBatch checkWrite
  split_ifs
  · exact modifyPeer_field field (batch _ _)
  · exact modifyPeer_field field (batch _ _)
  · exact modifyPeer_field field (batch _ _)
  · rw [modifyPeer_field field (writer _ _ _), modifyPeer_field field (batch _ _)]

theorem enqueue_field {α : Type} (field : Peer → α)
    (batch : ∀ peer batch, field { peer with batch } = field peer)
    (writer : ∀ peer writing writer, field { peer with writing, writer } = field peer) :
    field ((state.enqueue peer op).heap other) = field (state.heap other) := by
  change field (((getBatch peer state).modifyPeer peer fun peer =>
    { peer with batch := peer.batch.map (·.apply op) }).heap other) = _
  rw [modifyPeer_field field (batch _ _)]
  exact getBatch_field peer state field batch writer

@[simp] theorem getBatch_peer : ((state.getBatch peer).heap other).peerId = (state.heap other).peerId ∧
    ((state.getBatch peer).heap other).out = (state.heap other).out ∧
    ((state.getBatch peer).heap other).peerKind = (state.heap other).peerKind ∧
    ((state.getBatch peer).heap other).topics = (state.heap other).topics ∧
    ((state.getBatch peer).heap other).streamOut = (state.heap other).streamOut :=
  ⟨getBatch_field peer state Peer.peerId (fun _ _ => rfl) fun _ _ _ => rfl,
    getBatch_field peer state Peer.out (fun _ _ => rfl) fun _ _ _ => rfl,
    getBatch_field peer state Peer.peerKind (fun _ _ => rfl) fun _ _ _ => rfl,
    getBatch_field peer state Peer.topics (fun _ _ => rfl) fun _ _ _ => rfl,
    getBatch_field peer state Peer.streamOut (fun _ _ => rfl) fun _ _ _ => rfl⟩

@[simp] theorem enqueue_peer : ((state.enqueue peer op).heap other).peerId = (state.heap other).peerId ∧
    ((state.enqueue peer op).heap other).out = (state.heap other).out ∧
    ((state.enqueue peer op).heap other).peerKind = (state.heap other).peerKind ∧
    ((state.enqueue peer op).heap other).topics = (state.heap other).topics ∧
    ((state.enqueue peer op).heap other).streamOut = (state.heap other).streamOut :=
  ⟨enqueue_field peer op state Peer.peerId (fun _ _ => rfl) fun _ _ _ => rfl,
    enqueue_field peer op state Peer.out (fun _ _ => rfl) fun _ _ _ => rfl,
    enqueue_field peer op state Peer.peerKind (fun _ _ => rfl) fun _ _ _ => rfl,
    enqueue_field peer op state Peer.topics (fun _ _ => rfl) fun _ _ _ => rfl,
    enqueue_field peer op state Peer.streamOut (fun _ _ => rfl) fun _ _ _ => rfl⟩

theorem getBatch_batch : ((state.getBatch peer).heap other).batch =
    if other = peer then some ((state.heap peer).batch.getD {}) else (state.heap other).batch := by
  unfold getBatch checkWrite
  split_ifs <;> simp only [heap_modifyPeer, if_pos, *] <;> simp_all

/-- An entry is appended to the batch of its peer, which exists afterwards. -/
theorem enqueue_batch : ((state.enqueue peer op).heap other).batch =
    if other = peer then some (((state.heap peer).batch.getD {}).apply op) else (state.heap other).batch := by
  unfold enqueue
  simp only [record, heap_modifyPeer]
  split_ifs with same
  · rw [getBatch_batch, if_pos rfl]
    rfl
  · rw [getBatch_batch, if_neg same]

end Batches

section Topics

variable {topicHash other : TopicHash} {change : Topic → Topic} {peer : PeerPtr} {state : State R}

theorem lookup_modifyTopic : (state.modifyTopic topicHash change).topics.lookup other =
    if other = topicHash then (state.topics.lookup topicHash).map change else state.topics.lookup other :=
  UnorderedMap.lookup_modify change

/-- A field that a change of one topic keeps is kept in every topic. -/
theorem modifyTopic_field {α : Type} (field : Topic → α) (kept : ∀ topic, field (change topic) = field topic) :
    ((state.modifyTopic topicHash change).topics.lookup other).map field =
      (state.topics.lookup other).map field := by
  rw [lookup_modifyTopic]
  split_ifs with same
  · rw [same, Option.map_map]
    congr 1
    funext topic
    exact kept topic
  · rfl

/-- Changing the mesh keeps the rest of the topic. -/
theorem modifyMesh_field {α : Type} (mesh : Topic → UnorderedSet PeerPtr) (field : Topic → α)
    (kept : ∀ topic mesh, field { topic with meshPeers := mesh } = field topic) :
    ((state.modifyTopic topicHash fun topic => { topic with meshPeers := mesh topic }).topics.lookup other).map
      field = (state.topics.lookup other).map field :=
  modifyTopic_field field fun topic => kept topic _

theorem mem_modifyTopic : other ∈ (state.modifyTopic topicHash change).topics ↔ other ∈ state.topics := by
  rw [← AList.lookup_isSome, ← AList.lookup_isSome, lookup_modifyTopic]
  split_ifs with same
  · rw [same, Option.isSome_map]
  · rfl

theorem peersOf_eq : state.peersOf topicHash = ((state.topics.lookup topicHash).map Topic.peers).getD ∅ := rfl

theorem meshOf_eq : state.meshOf topicHash = ((state.topics.lookup topicHash).map Topic.meshPeers).getD ∅ := rfl

theorem peersOf_of_lookup {topic : Topic} (found : state.topics.lookup topicHash = some topic) :
    state.peersOf topicHash = topic.peers := by
  rw [peersOf_eq, found]
  rfl

theorem meshOf_of_lookup {topic : Topic} (found : state.topics.lookup topicHash = some topic) :
    state.meshOf topicHash = topic.meshPeers := by
  rw [meshOf_eq, found]
  rfl

end Topics

section Mesh

variable (topicHash : TopicHash) (peer : PeerPtr) (state : State R) {other : PeerPtr}

/-- Grafting inserts into one mesh, scores and queues. -/
theorem graft_topics : (state.graft env topicHash peer).topics =
    (state.modifyTopic topicHash fun topic => { topic with meshPeers := topic.meshPeers.insert peer }).topics := by
  unfold graft
  split
  · split_ifs <;> simp [tick, modifyScore, modifyTopic, record]
  · simp [tick, modifyScore, modifyTopic]

@[simp] theorem graft_peer : ((state.graft env topicHash peer).heap other).peerId = (state.heap other).peerId ∧
    ((state.graft env topicHash peer).heap other).out = (state.heap other).out ∧
    ((state.graft env topicHash peer).heap other).peerKind = (state.heap other).peerKind ∧
    ((state.graft env topicHash peer).heap other).topics = (state.heap other).topics ∧
    ((state.graft env topicHash peer).heap other).streamOut = (state.heap other).streamOut := by
  unfold graft
  split
  · split_ifs <;> simp [tick, modifyScore, modifyTopic, record]
  · simp [tick, modifyScore, modifyTopic]

theorem graft_eq : state.graft env topicHash peer = { state with
    topics := (state.graft env topicHash peer).topics
    heap := (state.graft env topicHash peer).heap
    score := (state.graft env topicHash peer).score
    readings := state.readings + 1
    log := (state.graft env topicHash peer).log } := by
  unfold graft
  split
  · split_ifs
    · rw [enqueue_eq]
      rfl
    · rw [enqueue_eq]
      rfl
  · rw [enqueue_eq]
    rfl

/-- Telling a peer that it left the mesh changes backoffs, scores and batches. -/
theorem makePrune_eq : state.makePrune env topicHash peer = { state with
    topics := (state.makePrune env topicHash peer).topics
    heap := (state.makePrune env topicHash peer).heap
    score := (state.makePrune env topicHash peer).score
    log := (state.makePrune env topicHash peer).log } := by
  unfold makePrune
  dsimp only
  split_ifs
  · rw [enqueue_eq]
    rfl
  · rw [enqueue_eq]
    rfl
  · rfl

@[simp] theorem makePrune_peer :
    ((state.makePrune env topicHash peer).heap other).peerId = (state.heap other).peerId ∧
    ((state.makePrune env topicHash peer).heap other).out = (state.heap other).out ∧
    ((state.makePrune env topicHash peer).heap other).peerKind = (state.heap other).peerKind ∧
    ((state.makePrune env topicHash peer).heap other).topics = (state.heap other).topics ∧
    ((state.makePrune env topicHash peer).heap other).streamOut = (state.heap other).streamOut := by
  unfold makePrune
  dsimp only
  split_ifs <;> simp [modifyScore, updateBackoff, modifyTopic]

theorem makePrune_field {α : Type} {otherTopic : TopicHash} (field : Topic → α)
    (kept : ∀ topic backoff, field { topic with backoff } = field topic) :
    ((state.makePrune env topicHash peer).topics.lookup otherTopic).map field =
      (state.topics.lookup otherTopic).map field := by
  unfold makePrune
  dsimp only
  split_ifs
  · rw [(enqueue_frame _ _ _).1]
    exact modifyTopic_field field fun topic => kept topic _
  · rw [(enqueue_frame _ _ _).1]
    rfl
  · rfl

/-- Removing a peer from a mesh changes that mesh, a backoff and the scores. -/
theorem removePeerFromMesh_eq (backoff : Option Backoff) (always : Bool) :
    state.removePeerFromMesh env topicHash peer backoff always = { state with
      topics := (state.removePeerFromMesh env topicHash peer backoff always).topics
      score := (state.removePeerFromMesh env topicHash peer backoff always).score } := by
  unfold removePeerFromMesh
  split
  · rfl
  · dsimp only
    split_ifs <;> rfl

theorem removePeerFromMesh_field {α : Type} {otherTopic : TopicHash} {backoff : Option Backoff} {always : Bool}
    (field : Topic → α) (kept : ∀ topic mesh backoff,
      field { topic with meshPeers := mesh, backoff } = field topic) :
    ((state.removePeerFromMesh env topicHash peer backoff always).topics.lookup otherTopic).map field =
      (state.topics.lookup otherTopic).map field := by
  have erased : ∀ other : TopicHash, ((state.modifyTopic topicHash fun topic =>
      { topic with meshPeers := topic.meshPeers.erase peer }).topics.lookup other).map field =
      (state.topics.lookup other).map field :=
    fun other => modifyTopic_field field fun topic => kept topic _ topic.backoff
  unfold removePeerFromMesh
  split
  · rfl
  · dsimp only
    split_ifs
    · exact (modifyTopic_field field fun topic => kept topic topic.meshPeers _).trans (erased _)
    · exact (modifyTopic_field field fun topic => kept topic topic.meshPeers _).trans (erased _)
    · exact erased _
    · exact erased _

theorem removePeerFromMesh_mesh {otherTopic : TopicHash} {backoff : Option Backoff} {always : Bool} :
    ((state.removePeerFromMesh env topicHash peer backoff always).topics.lookup otherTopic).map Topic.meshPeers =
      ((state.eraseFromMesh topicHash peer).topics.lookup otherTopic).map Topic.meshPeers := by
  unfold removePeerFromMesh
  split
  · next absent =>
    rw [eraseFromMesh, modifyTopic, UnorderedMap.modify, absent]
  · dsimp only
    split_ifs
    · exact modifyTopic_field Topic.meshPeers fun topic => rfl
    · exact modifyTopic_field Topic.meshPeers fun topic => rfl
    · rfl
    · rfl

/-- What a penalty keeps is kept while it is decided about a graft. -/
theorem graftDecision_induction {holds : State R → Prop} {peer : PeerPtr} {topicHash : TopicHash} {topic : Topic}
    {state : State R} (start : holds state)
    (penalized : ∀ state, holds state → holds ((state.modifyScore fun score =>
      score.addPenalty (state.heap peer).peerId 1).record (.penalized (state.heap peer).peerId 1))) :
    holds (state.graftDecision env peer topicHash topic).2 := by
  unfold graftDecision
  dsimp only
  split_ifs
  · exact penalized _ (penalized _ start)
  · exact penalized _ start
  · exact start
  · exact start
  · exact start

end Mesh

section Messages

variable (topicHash : TopicHash) (from_ : Option PeerId) (messageId : MessageId) (message : Message)
  (state : State R)

theorem startBroadcast_eq : state.startBroadcast topicHash from_ messageId message =
    { state.modifyTopic topicHash (fun topic => { topic with history := topic.history.add messageId }) with
      messageCache := UnorderedMap.emplace state.messageCache messageId { message }
      gossipPromises := state.gossipPromises.remove messageId
      log := .broadcast topicHash from_ messageId message :: state.log } := rfl

theorem countDuplicate_eq {peer : PeerPtr} {messageId : MessageId} {topicHash : TopicHash} :
    state.countDuplicate env peer messageId topicHash = { state with
      score := state.score.duplicateMessage (state.heap peer).peerId messageId topicHash (state.now env)
        (state.tick.now env)
      readings := state.readings + 2 } := by
  simp only [countDuplicate, modifyScore, tick]

/-- Delivering a message scores, logs, and starts its broadcast. -/
theorem deliver_eq (peer : PeerPtr) (now later : Time) :
    state.deliver env peer messageId message now later =
    { state.modifyTopic message.topic (fun topic => { topic with history := topic.history.add messageId }) with
      messageCache := UnorderedMap.emplace state.messageCache messageId { message }
      gossipPromises := state.gossipPromises.remove messageId
      score := (state.deliver env peer messageId message now later).score
      readings := state.readings + 3
      log := .broadcast message.topic (some (state.heap peer).peerId) messageId message ::
        .delivered message.topic messageId message now later :: .accepted peer messageId message now later ::
          state.log } := by
  simp only [deliver, startBroadcast, cacheMessage, record, modifyScore, tick, modifyTopic]

/-- Creating a message only takes a sequence number. -/
theorem createMessage_eq (data : Bytes) : ∃ message lastSeqNo,
    state.createMessage env topicHash data = (message, ({ state with lastSeqNo } : State R)) := by
  unfold createMessage
  cases env.config.messageAuthenticity with
  | signed => exact ⟨_, _, rfl⟩
  | anonymous => exact ⟨_, state.lastSeqNo, rfl⟩

/-- Publishing a message dates its id, logs, and starts its broadcast. -/
theorem originate_eq : state.originate env topicHash message =
    { state.modifyTopic topicHash
        (fun topic => { topic with history := topic.history.add (env.config.messageIdFn message) }) with
      duplicateCache := (state.duplicateCache.insert (env.config.messageIdFn message) (state.now env)
        (state.tick.now env)).1
      messageCache := UnorderedMap.emplace state.messageCache (env.config.messageIdFn message) { message }
      gossipPromises := state.gossipPromises.remove (env.config.messageIdFn message)
      readings := state.readings + 2
      log := .broadcast topicHash none (env.config.messageIdFn message) message ::
        .published (env.config.messageIdFn message) message (state.now env) (state.tick.now env) :: state.log } := by
  unfold originate
  simp only [startBroadcast_eq]
  rfl

end Messages

section Events

variable (peer : PeerPtr) (topicHash : TopicHash) (peerId : PeerId) (state : State R)

/-- Announcing topics only queues. -/
theorem announceTopics_eq : state.announceTopics peer = { state with
    heap := (state.announceTopics peer).heap, log := (state.announceTopics peer).log } := by
  unfold announceTopics
  generalize state.topics.entries = entries
  induction entries generalizing state with
  | nil => rfl
  | cons entry rest ih =>
    rw [List.foldl_cons]
    split_ifs
    · exact ih state
    · rw [ih, enqueue_eq]

theorem openStream_eq (stream : Stream) : state.openStream env peer stream = { state with
    heap := (state.openStream env peer stream).heap, log := (state.openStream env peer stream).log } := by
  unfold openStream
  dsimp only
  split_ifs
  · rfl
  · rw [announceTopics_eq, getBatch_eq]
    rfl

theorem onPeerDisconnected_eq : state.onPeerDisconnected env peerId = { state with
    topics := (state.onPeerDisconnected env peerId).topics
    peers := (state.onPeerDisconnected env peerId).peers
    score := state.score.disconnect peerId (state.now env)
    readings := state.readings + 1 } := by
  have forgotten : ∀ (peer : PeerPtr) (topics : List TopicHash) (state : State R),
      topics.foldl (forgetInTopic peer) state =
        { state with topics := (topics.foldl (forgetInTopic peer) state).topics } := by
    intro peer topics
    induction topics with
    | nil => exact fun _ => rfl
    | cons topicHash rest ih =>
      intro state
      rw [List.foldl_cons, ih]
      rfl
  unfold onPeerDisconnected
  dsimp only
  split
  · rfl
  · rw [forgotten]
    rfl

theorem expireTopic_eq : state.expireTopic env topicHash = { state with
    topics := (state.expireTopic env topicHash).topics
    readings := (state.expireTopic env topicHash).readings } := by
  unfold expireTopic
  split
  · rfl
  · split_ifs <;> rfl

theorem shiftHistory_eq : state.shiftHistory topicHash = { state with
    topics := (state.shiftHistory topicHash).topics
    messageCache := (state.shiftHistory topicHash).messageCache } := by
  unfold shiftHistory
  split <;> rfl

theorem resumeWriter_eq : state.resumeWriter peer = { state with
    heap := (state.resumeWriter peer).heap, log := (state.resumeWriter peer).log } := by
  unfold resumeWriter
  split_ifs <;> rfl

theorem onWritten_eq (frame : Bytes) (rest : List Bytes) (ok : Bool) :
    state.onWritten peer frame rest ok = { state with
      heap := (state.onWritten peer frame rest ok).heap, log := (state.onWritten peer frame rest ok).log } := by
  unfold onWritten
  dsimp only
  split_ifs <;> rfl

end Events

end Libp2p.Gossip.State
