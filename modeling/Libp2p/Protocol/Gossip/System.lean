import Libp2p.Library.Run
import Libp2p.Protocol.Gossip.Heartbeat

/-! # The gossip node as a state machine

Everything that can happen to a node between two suspensions: connections and streams come and go, frames
arrive, the user subscribes and publishes, timers fire, and writers make progress. A run is any sequence of
such events. A peer object lives on after its peer has disconnected, so its stream may still open and its
reader may still deliver frames.
-/

namespace Libp2p.Gossip

open Library

inductive Event where
  | connected (peerId : PeerId) (out : Bool)
  | streamOpened (peer : PeerPtr) (stream : Option Stream)
  | handle (peerId : PeerId) (protocol : ProtocolName)
  | message (peer : PeerPtr) (encoded : Bytes)
  | disconnected (peerId : PeerId)
  | subscribe (topicHash : TopicHash)
  | publish (topicHash : TopicHash) (data : Bytes)
  | publishTopic (topicHash : TopicHash) (data : Bytes)
  | heartbeat
  | decay
  | resumeWriter (peer : PeerPtr)
  | written (peer : PeerPtr) (ok : Bool)
deriving DecidableEq

namespace State

variable {R : Type} [Double R] (env : Env R)

/-- Create the object of a peer that is not registered. -/
def register (peerId : PeerId) (out : Bool) (state : State R) : State R :=
  { state with
    peers := state.peers.insert peerId state.allocated
    heap := Function.update state.heap state.allocated { peerId, out }
    allocated := state.allocated + 1
    score := state.score.connect peerId }

/-- The object of a peer, registered if it was not. -/
def findOrRegister (peerId : PeerId) (out : Bool) (state : State R) : State R :=
  if peerId ∈ state.peers then state else state.register peerId out

/-- The address of a registered peer. -/
def peerOf (peerId : PeerId) (state : State R) : PeerPtr := (state.peers.lookup peerId).getD 0

/-- The first negotiated protocol decides a peer's kind; `at` throws for one that is not configured. -/
def updatePeerKind (peer : PeerPtr) (protocol : ProtocolName) (state : State R) : State R :=
  state.modifyPeer peer fun peer => { peer with
    peerKind := peer.peerKind.orElse fun _ => env.config.protocolVersions.lookup protocol }

def onPeerConnected (peerId : PeerId) (out : Bool) (state : State R) : State R :=
  let state := state.findOrRegister peerId out
  let peer := state.peerOf peerId
  if (state.heap peer).streamOut.isNone ∧ ¬ (state.heap peer).isConnecting then
    state.modifyPeer peer fun peer => { peer with isConnecting := true }
  else state

/-- Announce every subscribed topic to a peer whose stream has just opened. -/
def announceTopics (peer : PeerPtr) (state : State R) : State R :=
  state.topics.entries.foldl (fun state entry =>
    if entry.2.publishOnly then state else state.enqueue peer (.subscribe entry.1 true)) state

/-- The outbound stream of a peer has opened. -/
def openStream (peer : PeerPtr) (stream : Stream) (state : State R) : State R :=
  let state := state.updatePeerKind env peer stream.protocol
  let state := state.modifyPeer peer fun peer => { peer with streamOut := some stream }
  let state := state.record (.opened peer)
  if state.topics.entries = [] then state else (state.getBatch peer).announceTopics peer

def onStreamOpened (peer : PeerPtr) (result : Option Stream) (state : State R) : State R :=
  let state := state.modifyPeer peer fun peer => { peer with isConnecting := false }
  match result with
  | none => state
  | some stream => state.openStream env peer stream

def handle (peerId : PeerId) (protocol : ProtocolName) (state : State R) : State R :=
  let state := state.findOrRegister peerId false
  state.updatePeerKind env (state.peerOf peerId) protocol

/-- Remove a peer from one of the topics it has announced. -/
def forgetInTopic (peer : PeerPtr) (state : State R) (topicHash : TopicHash) : State R :=
  state.modifyTopic topicHash fun topic =>
    { topic with peers := topic.peers.erase peer, meshPeers := topic.meshPeers.erase peer }

def onPeerDisconnected (peerId : PeerId) (state : State R) : State R :=
  let state := (state.modifyScore fun score => score.disconnect peerId (state.now env)).tick
  match state.peers.lookup peerId with
  | none => state
  | some peer =>
    let state := (state.heap peer).topics.elements.foldl (forgetInTopic peer) state
    { state with peers := state.peers.erase peerId }

def onDecay (state : State R) : State R := (state.modifyScore fun score => score.onDecay (state.now env)).tick

/-- The writer takes the next batch that has something to send, or ends. -/
def writeBatch (peer : PeerPtr) (state : State R) : State R :=
  state.modifyPeer peer fun peer =>
    match (peer.batch.map Rpc.splitBatch).getD [] with
    | [] => { peer with batch := none, writing := false, writer := .idle }
    | frames => { peer with batch := none, writer := .writing frames }

/-- The writer resumes after its yield; the source asserts that it is still wanted. -/
def resumeWriter (peer : PeerPtr) (state : State R) : State R :=
  let state := if (state.heap peer).writing ∧ (state.heap peer).streamOut.isSome then state
    else state.record (.writerAsserted peer)
  state.writeBatch peer

/-- A write has completed; a failed one closes the stream and ends the writer. -/
def onWritten (peer : PeerPtr) (frame : Bytes) (rest : List Bytes) (ok : Bool) (state : State R) : State R :=
  if ok then
    let state := state.record (.wrote peer frame)
    if rest ≠ [] then state.modifyPeer peer fun peer => { peer with writer := .writing rest }
    else if (state.heap peer).streamOut.isNone then
      state.modifyPeer peer fun peer => { peer with writing := false, writer := .idle }
    else state.writeBatch peer
  else
    state.modifyPeer peer fun peer => { peer with streamOut := none, writing := false, writer := .idle }

/-- One event; `none` when it cannot happen. -/
def step (state : State R) : Event → Option (State R)
  | .connected peerId out => some (state.onPeerConnected peerId out)
  | .streamOpened peer stream =>
    if (state.heap peer).isConnecting ∧
        ∀ opened ∈ stream, opened.protocol ∈ env.config.protocolVersions then
      some (state.onStreamOpened env peer stream)
    else none
  | .handle peerId protocol =>
    if protocol ∈ env.config.protocolVersions then some (state.handle env peerId protocol) else none
  | .message peer encoded =>
    if peer < state.allocated then some (state.onMessage env peer encoded).1 else none
  | .disconnected peerId => some (state.onPeerDisconnected env peerId)
  | .subscribe topicHash => some (state.subscribe env topicHash)
  | .publish topicHash data => some (state.publish env topicHash data)
  | .publishTopic topicHash data =>
    if (state.topics.lookup topicHash).any (! ·.publishOnly) then some (state.publishTopic env topicHash data)
    else none
  | .heartbeat => some (state.heartbeat env)
  | .decay => some (state.onDecay env)
  | .resumeWriter peer =>
    if (state.heap peer).writer = .yielding then some (state.resumeWriter peer) else none
  | .written peer ok =>
    match (state.heap peer).writer with
    | .writing (frame :: rest) => some (state.onWritten peer frame rest ok)
    | _ => none

/-- A peer object is the registered one of its id. -/
def Registered (state : State R) (peer : PeerPtr) : Prop :=
  state.peers.lookup (state.heap peer).peerId = some peer

end State

/-- The runs of a node from construction. -/
abbrev Runs {R : Type} [Double R] (env : Env R) (lastSeqNo : Seqno) : List Event → State R → Prop :=
  Run (fun before event after => before.step env event = some after) (State.initial env lastSeqNo)

end Libp2p.Gossip
