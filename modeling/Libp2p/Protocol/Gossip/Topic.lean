import Libp2p.Protocol.Gossip.Message
import Libp2p.Protocol.Gossip.Score

/-! # Topics, peers and the batches between them

The objects that the gossip state is made of: the outgoing batch of a peer and its encoding, a topic's sliding
history and its backoff wheel, the topic and the peer. A peer object is known by its address, so that two
objects for one peer id stay apart.
-/

namespace Libp2p.Gossip

open Library

/-- The address of a peer object. -/
abbrev PeerPtr := ℕ

/-- The outgoing batch of a peer. -/
structure Rpc where
  subscriptions : UnorderedMap TopicHash Bool := ∅
  publish : List Message := []
  graft : UnorderedSet TopicHash := ∅
  prune : UnorderedMap TopicHash (Option Backoff) := ∅
  ihave : UnorderedMap TopicHash (List MessageId) := ∅
  iwant : UnorderedSet MessageId := ∅
  idontwant : UnorderedSet MessageId := ∅

/-- One entry put into a batch. -/
inductive BatchOp where
  | subscribe (topicHash : TopicHash) (subscribe : Bool)
  | publish (message : Message)
  | graft (topicHash : TopicHash)
  | prune (topicHash : TopicHash) (backoff : Option Backoff)
  | ihave (topicHash : TopicHash) (messageIds : List MessageId)
  | iwant (messageId : MessageId)
  | idontwant (messageId : MessageId)
deriving DecidableEq

namespace Rpc

/-- A subscription that contradicts the pending one cancels it. -/
def subscribe (rpc : Rpc) (topicHash : TopicHash) (subscribe : Bool) : Rpc :=
  let subscriptions := UnorderedMap.emplace rpc.subscriptions topicHash subscribe
  { rpc with subscriptions :=
      if subscriptions.lookup topicHash ≠ some subscribe then subscriptions.erase topicHash else subscriptions }

/-- Put one entry into a batch; a pending prune is kept, a pending advertisement is replaced. -/
def apply (rpc : Rpc) : BatchOp → Rpc
  | .subscribe topicHash subscribe => rpc.subscribe topicHash subscribe
  | .publish message => { rpc with publish := rpc.publish ++ [message] }
  | .graft topicHash => { rpc with graft := rpc.graft.insert topicHash }
  | .prune topicHash backoff => { rpc with prune := UnorderedMap.emplace rpc.prune topicHash backoff }
  | .ihave topicHash messageIds => { rpc with ihave := rpc.ihave.insert topicHash messageIds }
  | .iwant messageId => { rpc with iwant := rpc.iwant.insert messageId }
  | .idontwant messageId => { rpc with idontwant := rpc.idontwant.insert messageId }

/-- Something other than messages is pending. -/
def hasControl (rpc : Rpc) : Bool :=
  rpc.subscriptions.entries ≠ [] || rpc.graft.elements ≠ [] || rpc.prune.entries ≠ [] ||
    rpc.ihave.entries ≠ [] || rpc.iwant.elements ≠ [] || rpc.idontwant.elements ≠ []

/-- The control part of a batch as one protocol buffer. -/
def controlRpc (rpc : Rpc) : Pb.RPC where
  subscriptions := rpc.subscriptions.entries.map fun entry =>
    { subscribe := some entry.2, topicId := some entry.1 }
  control :=
    { graft := rpc.graft.elements.map fun topicHash => { topicId := some topicHash }
      prune := rpc.prune.entries.map fun entry =>
        { topicId := some entry.1, backoff := entry.2.map fun backoff => UInt64.ofInt backoff }
      ihave := rpc.ihave.entries.map fun entry => { topicId := some entry.1, messageIds := entry.2 }
      iwant := if rpc.iwant.elements = [] then [] else [{ messageIds := rpc.iwant.elements }]
      idontwant := if rpc.idontwant.elements = [] then [] else [{ messageIds := rpc.idontwant.elements }] }

/-- `splitBatch`: the control part first, then every message in an RPC of its own. -/
def splitBatch (rpc : Rpc) : List Bytes :=
  (if rpc.hasControl then [rpc.controlRpc.encode] else []) ++
    rpc.publish.map fun message => Pb.RPC.encode { publish := [toProtobuf message] }

end Rpc

/-- A sliding window of message ids, newest slot first; there is at least one slot. -/
structure History where
  slots : List (List MessageId)
  positive : slots ≠ []

namespace History

def new (slots : ℕ) (positive : 0 < slots) : History :=
  ⟨List.replicate slots [], by simpa using positive.ne'⟩

def add (history : History) (messageId : MessageId) : History where
  slots := (history.slots.headD [] ++ [messageId]) :: history.slots.tail
  positive := List.cons_ne_nil _ _

/-- Advance the window; the second component is what fell out of it. -/
def shift (history : History) : History × List MessageId :=
  (⟨[] :: history.slots.dropLast, List.cons_ne_nil _ _⟩, history.slots.getLastD [])

def get (history : History) (slots : ℕ) : List MessageId := (history.slots.take slots).flatten

/-- Every id in the window. -/
def ids (history : History) : List MessageId := history.slots.flatten

end History

/-- Backoffs on a wheel of slots, one per heartbeat. -/
structure TopicBackoff where
  slots : List (List PeerPtr)
  slot : ℕ := 0
  peers : UnorderedMap PeerPtr ℕ := ∅

/-- `size_t` arithmetic on a quotient of two durations. -/
def backoffSlots {R : Type} (config : Config R) (backoff : Backoff) (extra : ℕ) : ℕ :=
  ((backoff.tdiv config.heartbeatInterval + (extra : Int)) % (2 ^ 64 : Int)).toNat

namespace TopicBackoff

def new {R : Type} (config : Config R) : TopicBackoff where
  slots := List.replicate (backoffSlots config config.pruneBackoff (config.backoffSlack + 1)) []

/-- The slots that remain for a peer. -/
def get (backoff : TopicBackoff) (peer : PeerPtr) : ℕ :=
  match backoff.peers.lookup peer with
  | none => 0
  | some horizon => horizon - backoff.slot

/-- Extend a peer's backoff; a shorter one changes nothing. -/
def update (backoff : TopicBackoff) (peer : PeerPtr) (slots : ℕ) : TopicBackoff :=
  if slots = 0 then backoff
  else
    let horizon := backoff.slot + min slots (backoff.slots.length - 1)
    let insert := fun wheel : List (List PeerPtr) =>
      wheel.modify (horizon % backoff.slots.length) (· ++ [peer])
    match backoff.peers.lookup peer with
    | some previous =>
      if horizon ≤ previous then backoff
      else
        let wheel := backoff.slots.modify (previous % backoff.slots.length) (·.erase peer)
        { backoff with slots := insert wheel, peers := backoff.peers.insert peer horizon }
    | none => { backoff with slots := insert backoff.slots, peers := backoff.peers.insert peer horizon }

/-- Release the peers of the current slot and advance. -/
def shift (backoff : TopicBackoff) : TopicBackoff :=
  let index := backoff.slot % backoff.slots.length
  { slots := backoff.slots.modify index fun _ => []
    slot := backoff.slot + 1
    peers := (backoff.slots.getD index []).foldl (fun peers peer => peers.erase peer) backoff.peers }

end TopicBackoff

structure Topic where
  publishOnly : Bool
  history : History
  backoff : TopicBackoff
  peers : UnorderedSet PeerPtr := ∅
  meshPeers : UnorderedSet PeerPtr := ∅
  lastPublish : Time := 0

/-- An outbound stream. -/
structure Stream where
  id : ℕ
  protocol : ProtocolName
deriving DecidableEq

/-- The writer coroutine of a peer: absent, suspended at its yield, or at the write of the first frame. -/
inductive Writer where
  | idle
  | yielding
  | writing (frames : List Bytes)
deriving DecidableEq

structure Peer where
  peerId : PeerId
  out : Bool
  peerKind : Option PeerKind := none
  topics : UnorderedSet TopicHash := ∅
  streamOut : Option Stream := none
  batch : Option Rpc := none
  writing : Bool := false
  writer : Writer := .idle
  isConnecting : Bool := false
  dontSend : IDontWantCache MessageId := {}

namespace Peer

/-- The kind is known and at least `kind`. -/
def supports (peer : Peer) (kind : PeerKind) : Bool :=
  match peer.peerKind with
  | none => false
  | some own => kind.rank ≤ own.rank

def isFloodsub (peer : Peer) : Bool := peer.peerKind = none || peer.peerKind = some .floodsub

def isGossipsub (peer : Peer) : Bool := peer.supports .gossipsub

def isGossipsubv1_1 (peer : Peer) : Bool := peer.supports .gossipsubv1_1

def isGossipsubv1_2 (peer : Peer) : Bool := peer.supports .gossipsubv1_2

end Peer

structure MessageCacheEntry where
  message : Message
  iwant : UnorderedMap PeerId ℕ := ∅

end Libp2p.Gossip
