import Libp2p.Library.Loop
import Libp2p.Protocol.Gossip.Frames

/-! # Events as chains of guarded updates

Every event is a finite chain of small updates, each with a guard that the code established before it. The
relation `Micro` lists them once; an invariant of a run is an invariant of every small update. Updates that
belong together for every property of interest, such as caching a message and entering it into the history of
its topic, are one update.
-/

namespace Libp2p.Gossip

open Library

variable {R : Type} [Double R]

namespace Pb.RPC

/-- The topics that an RPC makes known for its sender. -/
def announces (rpc : Pb.RPC) : List TopicHash :=
  (rpc.subscriptions.filter fun entry => entry.subscribe.getD false).map (·.topicId.getD []) ++
    rpc.control.graft.map (·.topicId.getD [])

/-- The topics that the sender of an RPC unsubscribes from. -/
def leaves (rpc : Pb.RPC) : List TopicHash :=
  (rpc.subscriptions.filter fun entry => ! entry.subscribe.getD false).map (·.topicId.getD [])

/-- The topics whose mesh the sender of an RPC leaves, with the backoffs it asks for. -/
def prunes (rpc : Pb.RPC) : List (TopicHash × Option Backoff) :=
  rpc.control.prune.map fun entry => (entry.topicId.getD [], State.pruneBackoff entry)

end Pb.RPC

/-- The event is the arrival of an RPC. -/
def Event.Carries (event : Event) (peer : PeerPtr) (rpc : Pb.RPC) : Prop :=
  ∃ encoded, event = .message peer encoded ∧ Pb.RPC.decode encoded = some rpc

/-- The event may hand a message to several peers. -/
def Event.spreads : Event → Bool
  | .message .. | .publish .. | .publishTopic .. => true
  | _ => false

/-- The event is the arrival of a frame. -/
def Event.receives : Event → Bool
  | .message .. => true
  | _ => false

/-- The event is a local publication. -/
def Event.publishes : Event → Bool
  | .publish .. | .publishTopic .. => true
  | _ => false

/-- The event starts or ends the opening of a stream. -/
def Event.dials : Event → Bool
  | .connected .. | .streamOpened .. => true
  | _ => false

/-- The event may create a topic. -/
def Event.creates (event : Event) (topicHash : TopicHash) : Prop :=
  event = .subscribe topicHash ∨ ∃ data, event = .publish topicHash data

/-- The change of a topic touches only its publication time or its backoffs. -/
inductive Incidental (event : Event) : (Topic → Topic) → Prop
  | stamped (time : Time) (source : event.publishes) : Incidental event fun topic => { topic with lastPublish := time }
  | shifted (source : event = .heartbeat) : Incidental event fun topic =>
      { topic with backoff := topic.backoff.shift }

/-- The change of a peer object touches neither its identity nor its batch. -/
inductive Private (event : Event) : (Peer → Peer) → Prop
  | dialing (flag : Bool) (source : event.dials) : Private event fun peer => { peer with isConnecting := flag }
  | marked (messageId : MessageId) (now : Time) {peer : PeerPtr} {encoded : Bytes}
      (source : event = .message peer encoded) : Private event fun peer =>
      { peer with dontSend := (peer.dontSend.insert messageId now).getD peer.dontSend }
  | cleared (now : Time) : Private event fun peer => { peer with dontSend := peer.dontSend.clearExpired now }

/-- What may be queued on its own: a message that is being broadcast or that is cached, and gossip. -/
inductive Permitted (env : Env R) (event : Event) (state : State R) (peer : PeerPtr) : BatchOp → Prop
  | relayed {topicHash : TopicHash} {from_ : Option PeerId} {messageId : MessageId} {message : Message}
      (started : .broadcast topicHash from_ messageId message ∈ state.log) (source : event.spreads) :
      Permitted env event state peer (.publish message)
  | served {messageId : MessageId} {entry : MessageCacheEntry} {encoded : Bytes}
      (cached : state.messageCache.lookup messageId = some entry) (source : event = .message peer encoded) :
      Permitted env event state peer (.publish entry.message)
  | ihave (topicHash : TopicHash) (messageIds : List MessageId) (capable : (state.heap peer).isGossipsub)
      (recent : ∀ messageId ∈ messageIds, ∃ topic, state.topics.lookup topicHash = some topic ∧
        messageId ∈ topic.history.get env.config.historyGossip) :
      Permitted env event state peer (.ihave topicHash messageIds)
  | iwant (messageId : MessageId) (capable : (state.heap peer).isGossipsub) :
      Permitted env event state peer (.iwant messageId)
  | idontwant (messageId : MessageId) (source : event.spreads) : Permitted env event state peer (.idontwant messageId)

/-- A peer that may enter the mesh of a topic: one of its gossipsub peers that is not in the mesh. -/
structure Candidate (topicHash : TopicHash) (publishOnly : Bool) (peer : PeerPtr) (state : State R) : Prop where
  kind : (state.topics.lookup topicHash).map Topic.publishOnly = some publishOnly
  member : peer ∈ state.peersOf topicHash
  capable : (state.heap peer).isGossipsub
  outside : peer ∉ state.meshOf topicHash

/-- No backoff of a peer is running in a topic. -/
def Rested (topicHash : TopicHash) (peer : PeerPtr) (state : State R) : Prop :=
  ∀ topic, state.topics.lookup topicHash = some topic → topic.backoff.get peer = 0

namespace State

variable (env : Env R)

/-- The first part of an upgrade: the topic is subscribed, its peers are told and its mesh is empty. -/
def announceUpgrade (topicHash : TopicHash) (state : State R) : State R :=
  let state := state.modifyTopic topicHash fun topic => { topic with publishOnly := false }
  let state := (state.peersOf topicHash).elements.foldl
    (fun state peer => state.enqueue peer (.subscribe topicHash true)) state
  ({ state with random := state.random + 1 } : State R).modifyTopic topicHash fun topic =>
    { topic with meshPeers := ∅ }

/-- A peer unsubscribes. -/
def leaveTopic (peer : PeerPtr) (topicHash : TopicHash) (state : State R) : State R :=
  let state := state.modifyPeer peer fun peer => { peer with topics := peer.topics.erase topicHash }
  let state := state.modifyTopic topicHash fun topic => { topic with peers := topic.peers.erase peer }
  state.removePeerFromMesh env topicHash peer none false

/-- The id of a received message is dated, or found to be a duplicate. -/
def dateMessage (messageId : MessageId) (state : State R) : State R :=
  { state.tick.tick with
    duplicateCache := (state.duplicateCache.insert messageId (state.now env) (state.tick.now env)).1 }

variable (peer : PeerPtr) (topicHash : TopicHash) (state : State R)

theorem announceUpgrade_eq : state.announceUpgrade topicHash = { state with
    topics := (state.announceUpgrade topicHash).topics
    heap := (state.announceUpgrade topicHash).heap
    random := (state.announceUpgrade topicHash).random
    log := (state.announceUpgrade topicHash).log } := by
  have told : ∀ (peers : List PeerPtr) (state : State R),
      peers.foldl (fun state peer => state.enqueue peer (.subscribe topicHash true)) state = { state with
        heap := (peers.foldl (fun state peer => state.enqueue peer (.subscribe topicHash true)) state).heap
        log := (peers.foldl (fun state peer => state.enqueue peer (.subscribe topicHash true)) state).log } := by
    intro peers
    induction peers with
    | nil => exact fun _ => rfl
    | cons peer rest ih =>
      intro state
      rw [List.foldl_cons, ih, enqueue_eq]
  unfold announceUpgrade
  dsimp only
  rw [told]
  rfl

theorem leaveTopic_eq : state.leaveTopic env peer topicHash = { state with
    topics := (state.leaveTopic env peer topicHash).topics
    heap := (state.leaveTopic env peer topicHash).heap
    score := (state.leaveTopic env peer topicHash).score } := by
  unfold leaveTopic
  rw [removePeerFromMesh_eq]
  rfl

end State

/-- Bookkeeping outside topics, peers and messages. -/
inductive Ledger (env : Env R) (event : Event) : State R → State R → Prop
  | ticked (state : State R) : Ledger env event state state.tick
  | shuffled (state : State R) (random : ℕ) : Ledger env event state { state with random }
  | numbered (state : State R) (source : event.publishes) :
      Ledger env event state { state with lastSeqNo := state.lastSeqNo + 1 }
  | counted (state : State R) (countReceivedIhave countSentIwant : UnorderedMap PeerPtr ℕ)
      (source : event = .heartbeat ∨ event.receives) :
      Ledger env event state { state with countReceivedIhave, countSentIwant }
  | penalized (state : State R) (peerId : PeerId) (count : ℕ) : Ledger env event state
      ((state.modifyScore fun score => score.addPenalty peerId count).record (.penalized peerId count))
  | decayed (state : State R) : Ledger env event state (state.onDecay env)
  | duplicated (state : State R) (peer : PeerPtr) (messageId : MessageId) (topicHash : TopicHash) :
      Ledger env event state (state.countDuplicate env peer messageId topicHash)
  | promised (state : State R) (messageId : MessageId) (peer : PeerPtr) (now : Time) (source : event.receives) :
      Ledger env event state { state with gossipPromises := state.gossipPromises.add messageId peer now }
  | settled (state : State R) (now : Time) (source : event = .heartbeat) : Ledger env event state
      { state with gossipPromises := (state.gossipPromises.clearExpired now).1 }
  | beat (state : State R) (source : event = .heartbeat) :
      Ledger env event state { state with heartbeatTicks := state.heartbeatTicks + 1 }

/-- One guarded update while an event is handled. -/
inductive Micro (env : Env R) (event : Event) : State R → State R → Prop
  | ledger {before after : State R} : Ledger env event before after → Micro env event before after
  | incidental (state : State R) (topicHash : TopicHash) {change : Topic → Topic}
      (only : Incidental event change) :
      Micro env event state (state.modifyTopic topicHash change)
  | inner (state : State R) (peer : PeerPtr) {change : Peer → Peer} (only : Private event change) :
      Micro env event state (state.modifyPeer peer change)
  | batched (state : State R) (peer : PeerPtr) : Micro env event state (state.getBatch peer)
  | queued (state : State R) (peer : PeerPtr) {op : BatchOp} (permitted : Permitted env event state peer op) :
      Micro env event state (state.enqueue peer op)
  | grafted (state : State R) (topicHash : TopicHash) (peer : PeerPtr)
      (candidate : Candidate topicHash false peer state) (rested : Rested topicHash peer state) :
      Micro env event state (state.graft env topicHash peer)
  | expelled (state : State R) (topicHash : TopicHash) (peer : PeerPtr) (member : peer ∈ state.meshOf topicHash) :
      Micro env event state ((state.makePrune env topicHash peer).eraseFromMesh topicHash peer)
  | cut (state : State R) (topicHash : TopicHash) (peer : PeerPtr) (member : peer ∈ state.meshOf topicHash) :
      Micro env event state ((state.eraseFromMesh topicHash peer).makePrune env topicHash peer)
  | refused (state : State R) (topicHash : TopicHash) (peer : PeerPtr) (outside : peer ∉ state.meshOf topicHash)
      {encoded : Bytes} (source : event = .message peer encoded) (member : peer ∈ state.peersOf topicHash) :
      Micro env event state (state.makePrune env topicHash peer)
  | joined (state : State R) (topicHash : TopicHash) (peer : PeerPtr)
      (candidate : Candidate topicHash false peer state) :
      Micro env event state (state.acceptGraft env peer topicHash)
  | announced (state : State R) (topicHash : TopicHash) {peer : PeerPtr} {encoded : Bytes}
      (source : event = .message peer encoded) (allocated : peer < state.allocated) {rpc : Pb.RPC}
      (carried : event.Carries peer rpc) (named : topicHash ∈ rpc.announces) :
      Micro env event state (state.addToTopic peer topicHash)
  | left (state : State R) (topicHash : TopicHash) {peer : PeerPtr} {encoded : Bytes}
      (source : event = .message peer encoded) {rpc : Pb.RPC} (carried : event.Carries peer rpc)
      (named : topicHash ∈ rpc.leaves) : Micro env event state (state.leaveTopic env peer topicHash)
  | pruned (state : State R) (topicHash : TopicHash) (peer : PeerPtr) (backoff : Option Backoff) {rpc : Pb.RPC}
      (carried : event.Carries peer rpc) (named : (topicHash, backoff) ∈ rpc.prunes) :
      Micro env event state (state.removePeerFromMesh env topicHash peer backoff true)
  | fannedOut (state : State R) (topicHash : TopicHash) (peer : PeerPtr)
      (member : peer ∈ state.peersOf topicHash) (capable : (state.heap peer).isGossipsub) :
      Micro env event state (state.modifyTopic topicHash fun topic =>
        if topic.publishOnly then { topic with meshPeers := topic.meshPeers.insert peer } else topic)
  | trimmed (state : State R) (topicHash : TopicHash) (keep : PeerPtr → Bool)
      (kind : (state.topics.lookup topicHash).map Topic.publishOnly = some true) :
      Micro env event state (state.modifyTopic topicHash fun topic =>
        { topic with meshPeers := topic.meshPeers.retain keep })
  | created (state : State R) (topicHash : TopicHash) (publishOnly : Bool) (absent : topicHash ∉ state.topics)
      (asked : publishOnly = false → event = .subscribe topicHash) (source : event.creates topicHash) :
      Micro env event state (state.createTopic env topicHash publishOnly)
  | upgraded (state : State R) (topicHash : TopicHash)
      (kind : (state.topics.lookup topicHash).map Topic.publishOnly = some true)
      (asked : event = .subscribe topicHash) : Micro env event state (state.announceUpgrade topicHash)
  | dated (state : State R) (messageId : MessageId)
      (known : (state.duplicateCache.insert messageId (state.now env) (state.tick.now env)).2 = false)
      (source : event.receives) : Micro env event state (state.dateMessage env messageId)
  | admitted (state : State R) {peer : PeerPtr} {encoded : Bytes} {rpc : Pb.RPC} {pbPublish : Pb.Message}
      {message : Message} (source : event = .message peer encoded) (decoded : Pb.RPC.decode encoded = some rpc)
      (entry : pbPublish ∈ rpc.publish)
      (valid : validate env.config.validationMode env.rsaBits env.verify (state.heap peer).peerId pbPublish =
        some message)
      (topic : message.topic ∈ state.topics)
      (fresh : (state.duplicateCache.insert (env.config.messageIdFn message) (state.now env)
        (state.tick.now env)).2 = true) :
      Micro env event state ((state.dateMessage env (env.config.messageIdFn message)).deliver env peer
        (env.config.messageIdFn message) message (state.now env) (state.tick.now env))
  | originated (state : State R) {topicHash : TopicHash} {message : Message} {data : Bytes} {seqno : Seqno}
      (source : event = .publish topicHash data ∨ event = .publishTopic topicHash data)
      (made : message = (({ state with lastSeqNo := seqno } : State R).createMessage env topicHash data).1)
      (topic : topicHash ∈ state.topics)
      (fresh : ¬ state.duplicateCache.contains (env.config.messageIdFn message)) :
      Micro env event state (state.originate env topicHash message)
  | served (state : State R) (messageId : MessageId) {entry : MessageCacheEntry} (iwant : UnorderedMap PeerId ℕ)
      (cached : state.messageCache.lookup messageId = some entry)
      (grown : ∀ peerId, (entry.iwant.lookup peerId).getD 0 ≤ (iwant.lookup peerId).getD 0) (source : event.receives) :
      Micro env event state
        { state with messageCache := state.messageCache.insert messageId { entry with iwant } }
  | registered (state : State R) (peerId : PeerId) (out : Bool) (absent : peerId ∉ state.peers) :
      Micro env event state (state.register peerId out)
  | typed (state : State R) (peer : PeerPtr) (protocol : ProtocolName) :
      Micro env event state (state.updatePeerKind env peer protocol)
  | opened (state : State R) (peer : PeerPtr) (stream : Stream)
      (source : event = .streamOpened peer (some stream)) : Micro env event state (state.openStream env peer stream)
  | disconnected (state : State R) (peerId : PeerId) (source : event = .disconnected peerId) :
      Micro env event state (state.onPeerDisconnected env peerId)
  | expired (state : State R) (topicHash : TopicHash) (source : event = .heartbeat) :
      Micro env event state (state.expireTopic env topicHash)
  | aged (state : State R) (topicHash : TopicHash) (source : event = .heartbeat) :
      Micro env event state (state.shiftHistory topicHash)
  | resumed (state : State R) (peer : PeerPtr) (source : event = .resumeWriter peer) :
      Micro env event state (state.resumeWriter peer)
  | written (state : State R) (peer : PeerPtr) (frame : Bytes) (rest : List Bytes) {ok : Bool}
      (source : event = .written peer ok) : Micro env event state (state.onWritten peer frame rest ok)

/-- What the upgrade of a publish-only topic relies on: mesh peers are gossipsub peers of their topic, and
topics and registrations only name objects that exist. -/
structure MeshSound (state : State R) : Prop where
  inside : ∀ topicHash, ∀ peer ∈ state.meshOf topicHash,
    peer ∈ state.peersOf topicHash ∧ (state.heap peer).isGossipsub
  allocated : ∀ topicHash, ∀ peer ∈ state.peersOf topicHash, peer < state.allocated
  registered : ∀ peerId peer, state.peers.lookup peerId = some peer → peer < state.allocated

/-- Finite chains of guarded updates. -/
abbrev Chain (env : Env R) (event : Event) : State R → State R → Prop := Relation.ReflTransGen (Micro env event)

end Libp2p.Gossip
