import Libp2p.Protocol.Gossip.Defaults
import Libp2p.Protocol.Gossip.Frames

/-! # A connection and its first stream

The event of a new connection and the first inbound stream on it may come in either order, and whichever comes
first creates the object of the peer. The connection event knows who dialed; the stream handler does not ask and
takes the peer for an inbound one, which nothing corrects later.
-/

namespace Libp2p.Gossip

open Library State

variable {R : Type} [Double R] {env : Env R} {state : State R} {peerId : PeerId} {out : Bool} {protocol : ProtocolName}

/-- The two orders. -/
def State.connectThenHandle (env : Env R) (peerId : PeerId) (out : Bool) (protocol : ProtocolName) (state : State R) :
    State R :=
  (state.onPeerConnected peerId out).handle env peerId protocol

def State.handleThenConnect (env : Env R) (peerId : PeerId) (out : Bool) (protocol : ProtocolName) (state : State R) :
    State R :=
  (state.handle env peerId protocol).onPeerConnected peerId out

/-- Both states know who dialed the peer, have the same record of its score and count the same outbound peers in
every mesh. -/
structure Arrived (peerId : PeerId) (out : Bool) (first second : State R) : Prop where
  direction : (first.heap (first.peerOf peerId)).out = out ∧ (second.heap (second.peerOf peerId)).out = out
  record : first.score.peerStats.lookup peerId = second.score.peerStats.lookup peerId
  quotas : ∀ topic, first.meshOutCount topic = second.meshOutCount topic

theorem peerOf_register : (state.register peerId out).peerOf peerId = state.allocated := by
  rw [peerOf, register, AList.lookup_insert]
  rfl

/-- The object that both orders create, apart from who is taken to have dialed. -/
def Peer.arriving (env : Env R) (peerId : PeerId) (out : Bool) (protocol : ProtocolName) : Peer :=
  { peerId, out, peerKind := env.config.protocolVersions.lookup protocol, isConnecting := true }

/-- A peer that arrives is registered once, with the direction that the first event gave it. -/
def State.arrive (env : Env R) (peerId : PeerId) (out : Bool) (protocol : ProtocolName) (state : State R) : State R :=
  { state.register peerId out with
    heap := Function.update state.heap state.allocated (.arriving env peerId out protocol) }

theorem connectThenHandle_eq (absent : peerId ∉ state.peers) :
    state.connectThenHandle env peerId out protocol = state.arrive env peerId out protocol := by
  have registered : state.findOrRegister peerId out = state.register peerId out := if_neg absent
  rw [connectThenHandle, onPeerConnected, registered, peerOf_register]
  simp only [handle, findOrRegister, register, modifyPeer, updatePeerKind, peerOf, arrive, Peer.arriving]
  simp

theorem handleThenConnect_eq (absent : peerId ∉ state.peers) :
    state.handleThenConnect env peerId out protocol = state.arrive env peerId false protocol := by
  have registered : state.findOrRegister peerId false = state.register peerId false := if_neg absent
  rw [handleThenConnect, handle, registered, peerOf_register]
  simp only [onPeerConnected, findOrRegister, register, modifyPeer, updatePeerKind, peerOf, arrive, Peer.arriving]
  simp

theorem peerOf_arrive : (state.arrive env peerId out protocol).peerOf peerId = state.allocated := by
  change (state.register peerId out).peerOf peerId = state.allocated
  exact peerOf_register

theorem out_arrive : ((state.arrive env peerId out protocol).heap state.allocated).out = out := by
  change (Function.update state.heap state.allocated (Peer.arriving env peerId out protocol) state.allocated).out = out
  rw [Function.update_self]
  rfl

/-- The two events commute exactly on connections that the remote peer initiated. -/
theorem arrived_iff (absent : peerId ∉ state.peers) :
    Arrived peerId out (state.connectThenHandle env peerId out protocol)
      (state.handleThenConnect env peerId out protocol) ↔ out = false := by
  rw [connectThenHandle_eq absent, handleThenConnect_eq absent]
  constructor
  · intro arrived
    have second := arrived.direction.2
    rw [peerOf_arrive, out_arrive] at second
    exact second.symm
  · rintro rfl
    have direction : ((state.arrive env peerId false protocol).heap
        ((state.arrive env peerId false protocol).peerOf peerId)).out = false := by
      rw [peerOf_arrive, out_arrive]
    exact ⟨⟨direction, direction⟩, rfl, fun _ => rfl⟩

theorem arrived_iff_inbound : Arrived (samplePeerId 1) false
    ((State.initial (sampleEnv true 1) 0).connectThenHandle (sampleEnv true 1) (samplePeerId 1) false kProtocolGossipsub)
    ((State.initial (sampleEnv true 1) 0).handleThenConnect (sampleEnv true 1) (samplePeerId 1) false
      kProtocolGossipsub) :=
  (arrived_iff (by decide +kernel)).mpr rfl

/-- A peer that we dialed and whose stream comes first counts as inbound. -/
theorem dialed_peer_inbound : ¬ Arrived (samplePeerId 1) true
    ((State.initial (sampleEnv true 1) 0).connectThenHandle (sampleEnv true 1) (samplePeerId 1) true kProtocolGossipsub)
    ((State.initial (sampleEnv true 1) 0).handleThenConnect (sampleEnv true 1) (samplePeerId 1) true
      kProtocolGossipsub) := by
  intro arrived
  have second := arrived.direction.2
  revert second
  decide +kernel

end Libp2p.Gossip
