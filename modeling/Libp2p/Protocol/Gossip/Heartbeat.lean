import Libp2p.Protocol.Gossip.OnMessage
import Mathlib.Data.List.Sort

/-! # The heartbeat

Periodic maintenance: backoffs advance, the per-heartbeat counters and expired promises are settled,
publish-only topics expire, every topic's mesh is balanced, recent messages are advertised, and the message
cache and the refusals are cleared of what has become old.
-/

namespace Libp2p.Gossip.State

open Library

variable {R : Type} [Double R] (env : Env R)

def shiftBackoffs (state : State R) : State R :=
  state.topics.keys.foldl (fun state topicHash =>
    state.modifyTopic topicHash fun topic => { topic with backoff := topic.backoff.shift }) state

/-- Penalties for messages that were promised and did not arrive in time. -/
def applyIwantPenalties (state : State R) : State R :=
  let (gossipPromises, expired) := state.gossipPromises.clearExpired (state.now env)
  expired.entries.foldl (fun state entry =>
    (state.modifyScore fun score => score.addPenalty (state.heap entry.1).peerId entry.2).record
      (.penalized (state.heap entry.1).peerId entry.2)) { state.tick with gossipPromises }

/-- Drop a publish-only topic that was not published to recently. -/
def expireTopic (state : State R) (topicHash : TopicHash) : State R :=
  match state.topics.lookup topicHash with
  | none => state
  | some topic =>
    if topic.publishOnly then
      if state.now env < topic.lastPublish + env.config.fanoutTtl then state.tick
      else { state.tick with topics := state.topics.erase topicHash }
    else state

def expireTopics (state : State R) : State R := state.topics.keys.foldl (expireTopic env) state

section Maintain

variable (topicHash : TopicHash)

/-- Keep enough fan-out peers that score well enough. -/
def maintainFanout (state : State R) : State R :=
  let state := state.modifyTopic topicHash fun topic => { topic with
    meshPeers := topic.meshPeers.retain fun peer => ! state.below peer env.config.score.publishThreshold }
  let more := env.config.meshNForTopic topicHash - (state.meshOf topicHash).size
  if more ≠ 0 then
    let (chosen, state) := state.choose env (state.peersOf topicHash)
      (state.fanoutCandidate topicHash env.config.score.publishThreshold) more
    chosen.foldl (fun state peer =>
      state.modifyTopic topicHash fun topic => { topic with meshPeers := topic.meshPeers.insert peer }) state
  else state

def eraseFromMesh (peer : PeerPtr) (state : State R) : State R :=
  state.modifyTopic topicHash fun topic => { topic with meshPeers := topic.meshPeers.erase peer }

/-- Remove the mesh peers with a negative score. -/
def pruneNegative (state : State R) : State R :=
  (state.meshOf topicHash).elements.foldl (fun state peer =>
    if state.below peer env.config.score.zero then
      (state.makePrune env topicHash peer).eraseFromMesh topicHash peer
    else state) state

/-- The mesh in the order in which it is cut: by descending score, with a shuffled front. -/
def pruneOrder (state : State R) : List PeerPtr × State R :=
  let shuffled := env.shufflePeers state.random (state.meshOf topicHash).elements
  let byScore := shuffled.insertionSort fun left right =>
    ¬ state.score.score (state.heap left).peerId < state.score.score (state.heap right).peerId
  let front := byScore.length - env.config.retainScores
  (env.shufflePeers (state.random + 1) (byScore.take front) ++ byScore.drop front,
    { state with random := state.random + 2 })

/-- Cut the mesh down to its target while keeping enough outbound peers. -/
def pruneExcess (outbound : ℕ) : List PeerPtr → State R → State R
  | [], state => state
  | peer :: rest, state =>
    if (state.meshOf topicHash).size ≤ env.config.meshNForTopic topicHash then state
    else if (state.heap peer).out then
      if outbound ≤ env.config.meshOutboundMinForTopic topicHash then pruneExcess outbound rest state
      else pruneExcess (outbound - 1) rest ((state.eraseFromMesh topicHash peer).makePrune env topicHash peer)
    else pruneExcess outbound rest ((state.eraseFromMesh topicHash peer).makePrune env topicHash peer)

/-- The number of outbound peers in the mesh of a topic. -/
def outboundOf (state : State R) : ℕ := ((state.topics.lookup topicHash).map (state.meshOutCount ·)).getD 0

/-- Bring the size of the mesh between its bounds. -/
def balanceMesh (state : State R) : State R :=
  let size := (state.meshOf topicHash).size
  if size < env.config.meshNLowForTopic topicHash then
    let (chosen, state) := state.choose env (state.peersOf topicHash) (state.eligible env topicHash)
      (env.config.meshNForTopic topicHash - size)
    state.graftAll env topicHash chosen
  else if size > env.config.meshNHighForTopic topicHash then
    let (order, state) := state.pruneOrder env topicHash
    state.pruneExcess env topicHash (state.outboundOf topicHash) order
  else state

/-- Keep enough outbound peers in a mesh that is large enough. -/
def balanceOutbound (state : State R) : State R :=
  if (state.meshOf topicHash).size ≥ env.config.meshNLowForTopic topicHash then
    let more := env.config.meshOutboundMinForTopic topicHash - state.outboundOf topicHash
    if more ≠ 0 then
      let (chosen, state) := state.choose env (state.peersOf topicHash)
        (fun peer => (state.heap peer).out && state.eligible env topicHash peer) more
      state.graftAll env topicHash chosen
    else state
  else state

/-- The value compared with the opportunistic threshold; for an even number of scores the second index is one
past the upper middle. -/
def medianScore (state : State R) : R :=
  let scores := (state.meshOf topicHash).elements.map fun peer => state.score.score (state.heap peer).peerId
  let scores := scores.insertionSort fun left right => ¬ right < left
  let at_ := fun index => scores.getD index (env.outOfBounds index)
  let middle := scores.length / 2
  if scores.length % 2 = 0 then (at_ (middle - 1) + at_ (middle + 1)) / ((2 : ℕ) : R) else at_ middle

/-- Now and then, graft peers that score better than the middle of a mesh that scores badly. -/
def graftOpportunistically (state : State R) : State R :=
  if state.heartbeatTicks % env.config.opportunisticGraftTicks = 0 ∧ (state.meshOf topicHash).size > 1 then
    let median := state.medianScore env topicHash
    if median < env.config.score.opportunisticGraftThreshold then
      let (chosen, state) := state.choose env (state.peersOf topicHash)
        (fun peer => peer ∉ state.meshOf topicHash &&
          ! ((state.topics.lookup topicHash).any fun topic => isBackoffWithSlack topic peer) &&
          decide (median < state.score.score (state.heap peer).peerId))
        env.config.opportunisticGraftPeers
      state.graftAll env topicHash chosen
    else state
  else state

/-- Maintain the mesh or the fan-out of one topic. -/
def maintainTopic (state : State R) : State R :=
  match state.topics.lookup topicHash with
  | none => state
  | some topic =>
    if topic.publishOnly then state.maintainFanout env topicHash
    else
      let state := state.pruneNegative env topicHash
      let state := state.balanceMesh env topicHash
      let state := state.balanceOutbound env topicHash
      state.graftOpportunistically env topicHash

/-- Advertise recent messages to one peer. -/
def advertise (messageIds : List MessageId) (state : State R) (peer : PeerPtr) : State R :=
  let ids := (env.shuffleIds state.random messageIds).take env.config.maxIhaveLength
  ({ state with random := state.random + 1 } : State R).enqueue peer (.ihave topicHash ids)

/-- Advertise a topic's recent messages to peers outside its mesh. -/
def emitGossipFor (state : State R) : State R :=
  let messageIds := ((state.topics.lookup topicHash).map fun topic =>
    topic.history.get env.config.historyGossip).getD []
  if messageIds = [] then state
  else
    let (chosen, state) := state.chooseCount env (state.peersOf topicHash)
      (state.fanoutCandidate topicHash env.config.score.gossipThreshold)
      fun count => max env.config.gossipLazy (Double.truncate (env.config.gossipFactor * (count : R)))
    chosen.foldl (advertise env topicHash messageIds) state

/-- Advance a topic's history; what falls out of it leaves the message cache. -/
def shiftHistory (state : State R) : State R :=
  match state.topics.lookup topicHash with
  | none => state
  | some topic =>
    let (history, removed) := topic.history.shift
    let state := state.modifyTopic topicHash fun topic => { topic with history }
    { state with messageCache := removed.foldl (fun cache messageId => cache.erase messageId) state.messageCache }

end Maintain

/-- Run a step for every topic, in some order. -/
def forTopics (act : TopicHash → State R → State R) (state : State R) : State R :=
  let order := env.shuffleIds state.random state.topics.keys
  order.foldl (fun state topicHash => act topicHash state) { state with random := state.random + 1 }

def clearRefusals (state : State R) : State R :=
  let now := state.now env
  state.peers.entries.foldl (fun state entry =>
    state.modifyPeer entry.2 fun peer => { peer with dontSend := peer.dontSend.clearExpired now }) state.tick

/-- Everything a heartbeat does before it drops publish-only topics. -/
def startHeartbeat (state : State R) : State R :=
  let state := { state with heartbeatTicks := state.heartbeatTicks + 1 }
  let state := state.shiftBackoffs
  ({ state with countReceivedIhave := ∅, countSentIwant := ∅ } : State R).applyIwantPenalties env

/-- Everything a heartbeat does after it dropped publish-only topics. -/
def finishHeartbeat (state : State R) : State R :=
  let state := state.forTopics env (maintainTopic env)
  let state := state.forTopics env (emitGossipFor env)
  let state := state.forTopics env shiftHistory
  state.clearRefusals env

def heartbeat (state : State R) : State R := ((state.startHeartbeat env).expireTopics env).finishHeartbeat env

end Libp2p.Gossip.State
