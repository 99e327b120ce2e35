import Libp2p.Protocol.Gossip.Topic
import Mathlib.Order.Monotone.Basic

/-! # The gossip state and its primitive updates

The state holds the members of `Gossip` that its logic reads, the peer objects by address, and three things
the source takes from outside: how often the clock and the random engine have been used, and a log of
observable effects, newest first. Every entry of a batch goes through `enqueue`, which creates the batch and
schedules the writer as `getBatch` does.
-/

namespace Libp2p.Gossip

open Library

/-- What the code receives from outside: the configuration, the host's identity, cryptography, the clock and
random choices. Iterating over an unordered container counts as a random choice where its order matters. -/
structure Env (R : Type) [Double R] where
  config : Config R
  hostId : PeerId
  sign : Bytes → Bytes
  rsaBits : RsaBits
  verify : Bytes → Bytes → PublicKey → Bool
  clock : ℕ → Time
  monotone : Monotone clock
  shufflePeers : ℕ → List PeerPtr → List PeerPtr
  shufflePeers_perm : ∀ choice peers, (shufflePeers choice peers).Perm peers
  shuffleIds : ℕ → List Bytes → List Bytes
  shuffleIds_perm : ∀ choice ids, (shuffleIds choice ids).Perm ids
  /-- What reading past the end of the array of scores gives. -/
  outOfBounds : ℕ → R

/-- An observable effect, or an assertion that failed. Messages are dated by the two readings that
`DuplicateCache::insert` took. -/
inductive Observation where
  | opened (peer : PeerPtr)
  | queued (peer : PeerPtr) (op : BatchOp)
  | accepted (peer : PeerPtr) (messageId : MessageId) (message : Message) (now later : Time)
  | delivered (topicHash : TopicHash) (messageId : MessageId) (message : Message) (now later : Time)
  | published (messageId : MessageId) (message : Message) (now later : Time)
  | broadcast (topicHash : TopicHash) (from_ : Option PeerId) (messageId : MessageId) (message : Message)
  | penalized (peerId : PeerId) (count : ℕ)
  | wrote (peer : PeerPtr) (frame : Bytes)
  | graftAsserted (topicHash : TopicHash) (peer : PeerPtr)
  | writerAsserted (peer : PeerPtr)
deriving DecidableEq

structure State (R : Type) [Double R] where
  topics : UnorderedMap TopicHash Topic := ∅
  peers : UnorderedMap PeerId PeerPtr := ∅
  heap : PeerPtr → Peer
  allocated : ℕ := 0
  lastSeqNo : Seqno
  duplicateCache : DuplicateCache MessageId
  messageCache : UnorderedMap MessageId MessageCacheEntry := ∅
  gossipPromises : GossipPromises MessageId PeerPtr
  score : Score R
  heartbeatTicks : ℕ := 0
  countReceivedIhave : UnorderedMap PeerPtr ℕ := ∅
  countSentIwant : UnorderedMap PeerPtr ℕ := ∅
  readings : ℕ := 0
  random : ℕ := 0
  log : List Observation := []

namespace State

variable {R : Type} [Double R] (env : Env R)

/-- The state after construction, before any event. -/
def initial (env : Env R) (lastSeqNo : Seqno) : State R where
  heap _ := { peerId := env.hostId, out := false }
  lastSeqNo
  duplicateCache := ⟨{ ttl := env.config.duplicateCacheTime }⟩
  gossipPromises := { ttl := env.config.iwantFollowupTime }
  score := { params := env.config.score }

/-- `Clock::now()`. -/
def now (state : State R) : Time := env.clock state.readings

/-- The next reading of the clock comes later. -/
def tick (state : State R) : State R := { state with readings := state.readings + 1 }

def record (observation : Observation) (state : State R) : State R :=
  { state with log := observation :: state.log }

def modifyPeer (peer : PeerPtr) (change : Peer → Peer) (state : State R) : State R :=
  { state with heap := Function.update state.heap peer (change (state.heap peer)) }

def modifyTopic (topicHash : TopicHash) (change : Topic → Topic) (state : State R) : State R :=
  { state with topics := UnorderedMap.modify state.topics topicHash change }

def modifyScore (change : Score R → Score R) (state : State R) : State R :=
  { state with score := change state.score }

/-- The peer's score is below a threshold. -/
def below (peer : PeerPtr) (threshold : R) (state : State R) : Bool :=
  state.score.below (state.heap peer).peerId threshold

/-- Spawn the writer of a peer that has a batch and a stream and no writer. -/
def checkWrite (peer : PeerPtr) (state : State R) : State R :=
  if (state.heap peer).writing then state
  else if (state.heap peer).streamOut = none then state
  else if (state.heap peer).batch.isNone then state
  else state.modifyPeer peer fun peer => { peer with writing := true, writer := .yielding }

/-- The batch exists afterwards. -/
def getBatch (peer : PeerPtr) (state : State R) : State R :=
  checkWrite peer (state.modifyPeer peer fun peer => { peer with batch := some (peer.batch.getD {}) })

/-- Put one entry into a peer's batch. -/
def enqueue (peer : PeerPtr) (op : BatchOp) (state : State R) : State R :=
  (getBatch peer state).modifyPeer peer (fun peer => { peer with batch := peer.batch.map (·.apply op) })
    |>.record (.queued peer op)

def isBackoffWithSlack (topic : Topic) (peer : PeerPtr) : Bool := topic.backoff.get peer > 0

/-- A count of slots times the heartbeat interval, as a signed 64-bit number of seconds. -/
def getBackoffTime (topic : Topic) (peer : PeerPtr) : Backoff :=
  let product := ((topic.backoff.get peer - env.config.backoffSlack : ℕ) * env.config.heartbeatInterval) % 2 ^ 64
  if product < 2 ^ 63 then product else product - 2 ^ 64

def updateBackoff (topicHash : TopicHash) (peer : PeerPtr) (backoff : Backoff) (state : State R) : State R :=
  state.modifyTopic topicHash fun topic => { topic with
    backoff := topic.backoff.update peer (backoffSlots env.config backoff env.config.backoffSlack) }

/-- Add a peer to the mesh and tell it; the source asserts that it was not there. -/
def graft (topicHash : TopicHash) (peer : PeerPtr) (state : State R) : State R :=
  let state := match state.topics.lookup topicHash with
    | some topic => if peer ∈ topic.meshPeers then state.record (.graftAsserted topicHash peer) else state
    | none => state
  let state := state.modifyTopic topicHash fun topic => { topic with meshPeers := topic.meshPeers.insert peer }
  let state := state.modifyScore fun score => score.graft (state.heap peer).peerId topicHash (state.now env)
  state.tick.enqueue peer (.graft topicHash)

/-- Tell a gossipsub peer that it left the mesh. -/
def makePrune (topicHash : TopicHash) (peer : PeerPtr) (state : State R) : State R :=
  if ¬ (state.heap peer).isGossipsub then state
  else
    let state := state.modifyScore fun score => score.prune (state.heap peer).peerId topicHash
    if (state.heap peer).isGossipsubv1_1 then
      (state.updateBackoff env topicHash peer env.config.pruneBackoff).enqueue peer
        (.prune topicHash (some env.config.pruneBackoff))
    else state.enqueue peer (.prune topicHash none)

def removePeerFromMesh (topicHash : TopicHash) (peer : PeerPtr) (backoff : Option Backoff)
    (alwaysUpdateBackoff : Bool) (state : State R) : State R :=
  match state.topics.lookup topicHash with
  | none => state
  | some topic =>
    let removed := peer ∈ topic.meshPeers
    let state := state.modifyTopic topicHash fun topic => { topic with meshPeers := topic.meshPeers.erase peer }
    let state := if removed then state.modifyScore fun score => score.prune (state.heap peer).peerId topicHash
      else state
    if alwaysUpdateBackoff ∨ removed then
      state.updateBackoff env topicHash peer (backoff.getD env.config.pruneBackoff)
    else state

/-- The number of mesh peers that we connected to. -/
def meshOutCount (topic : Topic) (state : State R) : ℕ :=
  topic.meshPeers.elements.countP fun peer => (state.heap peer).out

/-- Gossipsub peers that satisfy the predicate, in random order, cut to a number that may depend on how many
there are. -/
def chooseCount (all : UnorderedSet PeerPtr) (predicate : PeerPtr → Bool) (getCount : ℕ → ℕ) (state : State R) :
    List PeerPtr × State R :=
  let chosen := all.elements.filter fun peer => (state.heap peer).isGossipsub && predicate peer
  ((env.shufflePeers state.random chosen).take (getCount chosen.length), { state with random := state.random + 1 })

def choose (all : UnorderedSet PeerPtr) (predicate : PeerPtr → Bool) (count : ℕ) (state : State R) :
    List PeerPtr × State R :=
  chooseCount env all predicate (fun _ => count) state

/-- An eligible peer for a topic's mesh: outside of it, without backoff and without a negative score. -/
def eligible (topicHash : TopicHash) (state : State R) (peer : PeerPtr) : Bool :=
  match state.topics.lookup topicHash with
  | none => false
  | some topic => peer ∉ topic.meshPeers && ! isBackoffWithSlack topic peer &&
      ! state.below peer env.config.score.zero

/-- Graft peers in order. -/
def graftAll (topicHash : TopicHash) (chosen : List PeerPtr) (state : State R) : State R :=
  chosen.foldl (fun state peer => state.graft env topicHash peer) state

end State

end Libp2p.Gossip
