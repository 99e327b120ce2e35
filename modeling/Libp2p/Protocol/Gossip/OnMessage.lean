import Libp2p.Protocol.Gossip.Publish

/-! # Handling a received RPC

`onMessage` works through the parts of an RPC in a fixed order: subscriptions, messages, grafts, prunes,
advertisements, requests and refusals. The control parts are refused for a peer that does not speak gossipsub,
and then the rest of the RPC is dropped.
-/

namespace Libp2p.Gossip.State

open Library

variable {R : Type} [Double R] (env : Env R) (peer : PeerPtr)

/-- A topic becomes known for a peer, which also joins the topic's peers. -/
def addToTopic (topicHash : TopicHash) (state : State R) : State R :=
  (state.modifyPeer peer fun peer => { peer with topics := peer.topics.insert topicHash }).modifyTopic topicHash
    fun topic => { topic with peers := topic.peers.insert peer }

/-- The opportunistic graft of a peer that subscribes. -/
def graftOnSubscribe (topicHash : TopicHash) (state : State R) : State R :=
  match state.topics.lookup topicHash with
  | none => state
  | some topic =>
    if ¬ topic.publishOnly ∧ (state.heap peer).isGossipsub ∧
        topic.meshPeers.size < env.config.meshNLowForTopic topicHash ∧ state.eligible env topicHash peer then
      state.graft env topicHash peer
    else state

def onSubscription (state : State R) (pbSubscribe : Pb.SubOpts) : State R :=
  let topicHash := pbSubscribe.topicId.getD []
  if pbSubscribe.subscribe.getD false then
    (state.addToTopic peer topicHash).graftOnSubscribe env peer topicHash
  else
    let state := state.modifyPeer peer fun peer => { peer with topics := peer.topics.erase topicHash }
    let state := state.modifyTopic topicHash fun topic => { topic with peers := topic.peers.erase peer }
    state.removePeerFromMesh env topicHash peer none false

/-- Deliver a message that is not a duplicate to the local channel and start its broadcast. -/
def deliver (messageId : MessageId) (message : Message) (now later : Time) (state : State R) : State R :=
  let peerId := (state.heap peer).peerId
  let state := state.record (.accepted peer messageId message now later)
  let state := (state.modifyScore fun score => score.validateMessage messageId (state.now env)).tick
  let state := state.record (.delivered message.topic messageId message now later)
  let first := state.now env
  let state := state.tick
  let state := (state.modifyScore fun score =>
    score.deliverMessage peerId messageId message.topic first (state.now env)).tick
  state.startBroadcast message.topic (some peerId) messageId message

/-- A duplicate only counts for the score. -/
def countDuplicate (messageId : MessageId) (topicHash : TopicHash) (state : State R) : State R :=
  let first := state.now env
  let state := state.tick
  (state.modifyScore fun score =>
    score.duplicateMessage (state.heap peer).peerId messageId topicHash first (state.now env)).tick

/-- Look up the topic of a validated message, insert its id, and deliver and relay it if the id is new. -/
def receiveMessage (message : Message) (state : State R) : State R :=
  if message.topic ∈ state.topics then
    let messageId := env.config.messageIdFn message
    let now := state.now env
    let state := state.tick
    let later := state.now env
    let (duplicateCache, inserted) := state.duplicateCache.insert messageId now later
    let state := { state.tick with duplicateCache }
    if inserted then
      (state.deliver env peer messageId message now later).spread env message.topic
        (some (state.heap peer).peerId) messageId message
    else state.countDuplicate env peer messageId message.topic
  else state

def onPublish (state : State R) (pbPublish : Pb.Message) : State R :=
  match validate env.config.validationMode env.rsaBits env.verify (state.heap peer).peerId pbPublish with
  | none => state
  | some message => state.receiveMessage env peer message

/-- Whether a graft is accepted, and the penalties for asking too early. -/
def graftDecision (topicHash : TopicHash) (topic : Topic) (state : State R) : Bool × State R :=
  let backoff := getBackoffTime env topic peer
  let penalize := fun state : State R =>
    (state.modifyScore fun score => score.addPenalty (state.heap peer).peerId 1).record
      (.penalized (state.heap peer).peerId 1)
  if backoff > 0 then
    let state := penalize state
    (false, if backoff + env.config.graftFloodThreshold > env.config.pruneBackoff then penalize state else state)
  else if ¬ (state.heap peer).out ∧ topic.meshPeers.size > env.config.meshNHighForTopic topicHash then
    (false, state)
  else if state.below peer env.config.score.zero then (false, state)
  else (true, state)

/-- Take a peer into the mesh at its own request. -/
def acceptGraft (topicHash : TopicHash) (state : State R) : State R :=
  let state := state.modifyTopic topicHash fun topic => { topic with meshPeers := topic.meshPeers.insert peer }
  (state.modifyScore fun score => score.graft (state.heap peer).peerId topicHash (state.now env)).tick

def onGraft (state : State R) (pbGraft : Pb.ControlGraft) : State R :=
  let topicHash := pbGraft.topicId.getD []
  let state := state.addToTopic peer topicHash
  match state.topics.lookup topicHash with
  | none => state
  | some topic =>
    if topic.publishOnly then state
    else if peer ∈ topic.meshPeers then state
    else
      let (accept, state) := state.graftDecision env peer topicHash topic
      if accept then state.acceptGraft env peer topicHash else state.makePrune env topicHash peer

/-- A backoff in seconds; the unsigned wire value is reinterpreted. -/
def pruneBackoff (pbPrune : Pb.ControlPrune) : Option Backoff :=
  pbPrune.backoff.map fun backoff => backoff.toInt64.toInt

def onPrune (state : State R) (pbPrune : Pb.ControlPrune) : State R :=
  state.removePeerFromMesh env (pbPrune.topicId.getD []) peer (pruneBackoff pbPrune) true

/-- The ids of an advertisement that are neither known nor asked for. -/
def wantedIds (state : State R) (wanted : UnorderedSet MessageId) (pbIhave : Pb.ControlIHave) :
    UnorderedSet MessageId :=
  if state.below peer env.config.score.gossipThreshold then wanted
  else if pbIhave.topicId.getD [] ∉ state.topics then wanted
  else pbIhave.messageIds.foldl (fun wanted messageId =>
    if state.duplicateCache.contains messageId then wanted
    else if state.gossipPromises.contains messageId then wanted
    else wanted.insert messageId) wanted

/-- Ask for one message and note who promised it. -/
def requestMessage (state : State R) (messageId : MessageId) : State R :=
  let state := { state with gossipPromises := state.gossipPromises.add messageId peer (state.now env) }
  state.tick.enqueue peer (.iwant messageId)

/-- Ask for a random part of the wanted ids, within what may still be asked for until the next heartbeat. -/
def requestMessages (wanted : UnorderedSet MessageId) (state : State R) : State R :=
  let sent := (state.countSentIwant.lookup peer).getD 0
  let count := min wanted.size (env.config.maxIhaveLength - sent)
  let want := (env.shuffleIds state.random wanted.elements).take count
  let state := { state with
    random := state.random + 1
    countSentIwant := state.countSentIwant.insert peer (sent + count) }
  want.foldl (requestMessage env peer) (state.getBatch peer)

/-- The advertisements of an RPC; false for a peer that may not advertise. -/
def handleIhave (pbIhaves : List Pb.ControlIHave) (state : State R) : State R × Bool :=
  if pbIhaves = [] then (state, true)
  else if ¬ (state.heap peer).isGossipsub then (state, false)
  else
    let have_ := (state.countReceivedIhave.lookup peer).getD 0 + 1
    let state := { state with countReceivedIhave := state.countReceivedIhave.insert peer have_ }
    if have_ > env.config.maxIhaveMessages then (state, true)
    else if (state.countSentIwant.lookup peer).any (· ≥ env.config.maxIhaveLength) then (state, true)
    else
      let wanted := pbIhaves.foldl (state.wantedIds env peer) ∅
      if wanted.elements = [] then (state, true) else (state.requestMessages env peer wanted, true)

/-- Serve one requested message from the cache. -/
def serveMessage (state : State R) (messageId : MessageId) : State R :=
  match state.messageCache.lookup messageId with
  | none => state
  | some entry =>
    let peerId := (state.heap peer).peerId
    let count := (entry.iwant.lookup peerId).getD 0 + 1
    let state := { state with messageCache :=
      state.messageCache.insert messageId { entry with iwant := entry.iwant.insert peerId count } }
    if count > env.config.gossipRetransimission then state
    else if (state.heap peer).dontSend.contains messageId then state
    else state.enqueue peer (.publish entry.message)

def onIwant (state : State R) (pbIwant : Pb.ControlIWant) : State R :=
  if state.below peer env.config.score.gossipThreshold then state
  else pbIwant.messageIds.foldl (serveMessage env peer) state

/-- Note a message the peer does not want; a full cache is not empty, so `popFront` finds an entry. -/
def refuseMessage (state : State R) (messageId : MessageId) : State R :=
  let now := state.now env
  (state.modifyPeer peer fun peer =>
    { peer with dontSend := (peer.dontSend.insert messageId now).getD peer.dontSend }).tick

def onIdontwant (state : State R) (pbIdontwant : Pb.ControlIDontWant) : State R :=
  pbIdontwant.messageIds.foldl (refuseMessage env peer) state

/-- A loop over control entries that ends with false at the first entry from a peer without gossipsub. -/
def forGossipsub {α : Type} (handle : State R → α → State R) : List α → State R → State R × Bool
  | [], state => (state, true)
  | entry :: rest, state =>
    if (state.heap peer).isGossipsub then forGossipsub handle rest (handle state entry) else (state, false)

/-- The control parts that follow one another until one of them ends the RPC. -/
def onControl (control : Pb.ControlMessage) (state : State R) : State R × Bool :=
  let (state, proceed) := forGossipsub peer (onGraft env peer) control.graft state
  if ¬ proceed then (state, false)
  else
    let (state, proceed) := forGossipsub peer (onPrune env peer) control.prune state
    if ¬ proceed then (state, false)
    else
      let (state, proceed) := state.handleIhave env peer control.ihave
      if ¬ proceed then (state, false)
      else
        let (state, proceed) := forGossipsub peer (onIwant env peer) control.iwant state
        if ¬ proceed then (state, false)
        else forGossipsub peer (onIdontwant env peer) control.idontwant state

/-- The parts of a decoded RPC. -/
def onRpc (rpc : Pb.RPC) (state : State R) : State R × Bool :=
  let state := rpc.subscriptions.foldl (onSubscription env peer) state
  let state := rpc.publish.foldl (onPublish env peer) state
  state.onControl env peer rpc.control

/-- Handle one frame from a peer; false ends the loop that reads from it. -/
def onMessage (encoded : Bytes) (state : State R) : State R × Bool :=
  match Pb.RPC.decode encoded with
  | none => (state, false)
  | some rpc =>
    if state.below peer env.config.score.graylistThreshold then (state, true)
    else state.onRpc env peer rpc

end Libp2p.Gossip.State
