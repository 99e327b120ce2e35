import Libp2p.Protocol.Gossip.State

/-! # Subscribing and publishing

`getOrCreateTopic` creates a topic from what the registered peers have announced, or turns a publish-only
topic into a subscribed one. `broadcast` caches a message and hands it to the peers that should get it.
-/

namespace Libp2p.Gossip.State

open Library

variable {R : Type} [Double R] (env : Env R)

/-- The registered peers that have announced a topic. -/
def announcedPeers (topicHash : TopicHash) (state : State R) : UnorderedSet PeerPtr :=
  state.peers.entries.foldl (fun peers entry =>
    if topicHash ∈ (state.heap entry.2).topics then peers.insert entry.2 else peers) ∅

/-- Create a topic that does not exist. -/
def createTopic (topicHash : TopicHash) (publishOnly : Bool) (state : State R) : State R :=
  let topic : Topic :=
    { publishOnly
      history := History.new env.config.historyLength env.config.historyPositive
      backoff := TopicBackoff.new env.config
      peers := state.announcedPeers topicHash }
  { state with topics := state.topics.insert topicHash topic }

/-- The peers of a topic, in some order. -/
def peersOf (topicHash : TopicHash) (state : State R) : UnorderedSet PeerPtr :=
  ((state.topics.lookup topicHash).map Topic.peers).getD ∅

def meshOf (topicHash : TopicHash) (state : State R) : UnorderedSet PeerPtr :=
  ((state.topics.lookup topicHash).map Topic.meshPeers).getD ∅

/-- Graft eligible peers in order until the mesh is large enough. -/
def graftUpTo (topicHash : TopicHash) (limit : ℕ) : List PeerPtr → State R → State R
  | [], state => state
  | peer :: rest, state =>
    if (state.meshOf topicHash).size ≥ limit then state
    else if state.eligible env topicHash peer then graftUpTo topicHash limit rest (state.graft env topicHash peer)
    else graftUpTo topicHash limit rest state

/-- Turn a publish-only topic into a subscribed one: announce it to the peers of the topic and build a mesh,
first from the fan-out peers. -/
def upgradeTopic (topicHash : TopicHash) (state : State R) : State R :=
  let state := state.modifyTopic topicHash fun topic => { topic with publishOnly := false }
  let state := (state.peersOf topicHash).elements.foldl
    (fun state peer => state.enqueue peer (.subscribe topicHash true)) state
  let fanout := env.shufflePeers state.random (state.meshOf topicHash).elements
  let state := { state with random := state.random + 1 }
  let state := state.modifyTopic topicHash fun topic => { topic with meshPeers := ∅ }
  let meshN := env.config.meshNForTopic topicHash
  let state := state.graftUpTo env topicHash meshN fanout
  let more := meshN - (state.meshOf topicHash).size
  if more ≠ 0 then
    let (chosen, state) := state.choose env (state.peersOf topicHash) (state.eligible env topicHash) more
    state.graftAll env topicHash chosen
  else state

def getOrCreateTopic (topicHash : TopicHash) (publishOnly : Bool) (state : State R) : State R :=
  let state := if topicHash ∈ state.topics then state else state.createTopic env topicHash publishOnly
  match state.topics.lookup topicHash with
  | none => state
  | some topic => if ¬ publishOnly ∧ topic.publishOnly then state.upgradeTopic env topicHash else state

def subscribe (topicHash : TopicHash) (state : State R) : State R := state.getOrCreateTopic env topicHash false

section Broadcast

variable (topicHash : TopicHash) (from_ : Option PeerId) (messageId : MessageId) (message : Message)

/-- The message is larger than what is worth an IDONTWANT. -/
def sendIdontwant : Bool :=
  (from_.isSome || env.config.idontwantOnPublish) &&
    (toProtobuf message).encode.length > env.config.idontwantMessageSizeThreshold

/-- `add_peer`: queue the message to one peer unless it sent or made it or scores too low. -/
def addPeer (state : State R) (peer : PeerPtr) : State R :=
  if from_ = some (state.heap peer).peerId then state
  else if message.from_ = some (state.heap peer).peerId then state
  else if state.below peer env.config.score.publishThreshold then state
  else
    let state := state.getBatch peer
    let state := if sendIdontwant env from_ message then state.enqueue peer (.idontwant messageId) else state
    state.enqueue peer (.publish message)

/-- Queue the message to more fan-out peers; they stay with a publish-only topic. -/
def addFanout (chosen : List PeerPtr) (state : State R) : State R :=
  chosen.foldl (fun state peer =>
    (addPeer env from_ messageId message state peer).modifyTopic topicHash fun topic =>
      if topic.publishOnly then { topic with meshPeers := topic.meshPeers.insert peer } else topic) state

/-- A peer outside the mesh that scores well enough to be published to. -/
def fanoutCandidate (threshold : R) (state : State R) (peer : PeerPtr) : Bool :=
  peer ∉ state.meshOf topicHash && ! state.below peer threshold

/-- The recipients of a message that is not flooded. -/
def broadcastMesh (state : State R) : State R :=
  let state := ((state.peersOf topicHash).elements.filter fun peer => (state.heap peer).isFloodsub).foldl
    (addPeer env from_ messageId message) state
  let state := (state.meshOf topicHash).elements.foldl (addPeer env from_ messageId message) state
  if from_.isNone then
    let more := env.config.meshNForTopic topicHash - (state.meshOf topicHash).size
    let state :=
      if more ≠ 0 then
        let (chosen, state) := state.choose env (state.peersOf topicHash)
          (state.fanoutCandidate topicHash env.config.score.publishThreshold) more
        state.addFanout env topicHash from_ messageId message chosen
      else state
    (state.modifyTopic topicHash fun topic => { topic with lastPublish := state.now env }).tick
  else state

/-- Remember a message and forget who promised it. -/
def cacheMessage (state : State R) : State R :=
  let state := { state with
    messageCache := UnorderedMap.emplace state.messageCache messageId { message } }
  let state := state.modifyTopic topicHash fun topic => { topic with history := topic.history.add messageId }
  { state with gossipPromises := state.gossipPromises.remove messageId }

/-- The first half of `broadcast`: the message is in the cache and in the history of its topic. -/
def startBroadcast (state : State R) : State R :=
  (state.record (.broadcast topicHash from_ messageId message)).cacheMessage topicHash messageId message

/-- The second half of `broadcast`: the message is queued to its recipients. -/
def spread (state : State R) : State R :=
  -- The promises of this message were just removed, so nobody is told here.
  let state :=
    if from_.isSome ∧ sendIdontwant env from_ message then
      (state.gossipPromises.peers messageId).foldl
        (fun state peer => state.enqueue peer (.idontwant messageId)) state
    else state
  if from_.isNone ∧ env.config.floodPublish then
    (state.peersOf topicHash).elements.foldl (addPeer env from_ messageId message) state
  else state.broadcastMesh env topicHash from_ messageId message

def broadcast (state : State R) : State R :=
  (state.startBroadcast topicHash from_ messageId message).spread env topicHash from_ messageId message

end Broadcast

/-- The message that a local publish creates, and the state that has used its sequence number. -/
def createMessage (topicHash : TopicHash) (data : Bytes) (state : State R) : Message × State R :=
  let message : Message := { data, topic := topicHash }
  match env.config.messageAuthenticity with
  | .signed =>
    let message := { message with from_ := some env.hostId, seqno := some state.lastSeqNo }
    let signature := env.sign (getSignable (toProtobuf message))
    ({ message with signature := some signature }, { state with lastSeqNo := state.lastSeqNo + 1 })
  | .anonymous => (message, state)

/-- Date the id of a message that is published and start its broadcast. -/
def originate (topicHash : TopicHash) (message : Message) (state : State R) : State R :=
  let messageId := env.config.messageIdFn message
  let now := state.now env
  let state := state.tick
  let later := state.now env
  let (duplicateCache, _) := state.duplicateCache.insert messageId now later
  let state := { state.tick with duplicateCache }
  (state.record (.published messageId message now later)).startBroadcast topicHash none messageId message

/-- `publish(Topic &, BytesIn)`: the duplicate check does not purge expired ids. -/
def publishTopic (topicHash : TopicHash) (data : Bytes) (state : State R) : State R :=
  let (message, state) := state.createMessage env topicHash data
  let messageId := env.config.messageIdFn message
  if state.duplicateCache.contains messageId then state
  else (state.originate env topicHash message).spread env topicHash none messageId message

/-- `publish(const TopicHash &, BytesIn)`. -/
def publish (topicHash : TopicHash) (data : Bytes) (state : State R) : State R :=
  (state.getOrCreateTopic env topicHash true).publishTopic env topicHash data

end Libp2p.Gossip.State
