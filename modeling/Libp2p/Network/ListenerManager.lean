import Libp2p.Library.Run
import Libp2p.Library.Unordered
import Libp2p.Peer.PeerId

/-! # Listeners and their accept loops

`listen` creates a listener and spawns the coroutine that accepts its connections; the socket is bound by the same call
or, if the manager has not been started, by `start`. Inbound handshakes end in the channel of the listener's engine, and
the coroutine takes the results from there. The executor may run a spawned coroutine at once or later, and a result waits
in the channel until the coroutine is resumed.
-/

namespace Libp2p.Network

open Library

inductive QuicError where
  | handshakeFailed
  | connClosed
  | streamClosed
  | streamReadInProgress
  | streamWriteInProgress
  | tooManyStreams
  | cantCreateConnection
  | cantOpenStream
deriving DecidableEq, Repr

inductive TlsError where
  | tlsCtxInitFailed
  | tlsNoCertificate
  | tlsIncompatibleCertificateExtension
  | tlsPeerVerifyFailed
  | tlsUnexpectedPeerId
  | tlsRemotePeerNotAvailable
  | tlsRemotePubkeyNotAvailable
deriving DecidableEq, Repr

/-- Why no connection was accepted. -/
inductive AcceptError where
  | quic (error : QuicError)
  | tls (error : TlsError)
deriving DecidableEq, Repr

/-- A connection object and the peer at its other end. -/
structure Connection where
  id : ℕ
  remotePeer : PeerId
deriving DecidableEq

abbrev AcceptResult := Except AcceptError Connection

/-- `on_hsk_done` of an inbound connection, with the identity that its certificate proves. -/
def onHskDone (ok : Bool) (identity : Except TlsError PeerId) (id : ℕ) : AcceptResult :=
  if ¬ ok then .error (.quic .handshakeFailed)
  else
    match identity with
    | .error error => .error (.tls error)
    | .ok remotePeer => .ok { id, remotePeer }

/-- Where the coroutine that accepts connections is: not resumed yet, waiting for a result, or over. -/
inductive Accepting where
  | spawned
  | receiving
  | ended
deriving DecidableEq, Repr

/-- A listener: the results that wait in the channel of its engine, once it has one, and its accept loop. -/
structure QuicListener where
  server : Option (List AcceptResult) := none
  accepting : Accepting := .spawned

inductive ListenError where
  | addressFamilyNotSupported
  | addressInUse
  | alreadyConnected
  | notBound
deriving DecidableEq, Repr

/-- `QuicListener::listen`; the address and the socket decide whether it can be bound. -/
def QuicListener.listen (bound : Bool) (listener : QuicListener) : Except ListenError QuicListener :=
  if listener.server.isSome then .error .alreadyConnected
  else if bound then .ok { listener with server := some [] }
  else .error .notBound

/-- Listener objects by address. -/
abbrev ListenerPtr := ℕ

/-- A result sent through the channel of a listener, or a connection that its accept loop handed on. -/
inductive Observation where
  | sent (listener : ListenerPtr) (result : AcceptResult)
  | handled (listener : ListenerPtr) (connection : Connection)
deriving DecidableEq

/-- The listener manager with the connections that the connection manager knows. -/
structure ListenerManager (Address : Type) where
  started : Bool := false
  listeners : UnorderedMap Address ListenerPtr := ∅
  heap : ListenerPtr → QuicListener := fun _ => {}
  allocated : ℕ := 0
  connections : UnorderedMap PeerId (UnorderedSet Connection) := ∅
  established : ℕ := 0
  log : List Observation := []

inductive Event (Address : Type) where
  | listen (address : Address) (immediate bound : Bool)
  | start (unbound : List Address)
  | handshake (listener : ListenerPtr) (ok : Bool) (identity : Except TlsError PeerId)
  | run (listener : ListenerPtr)
  | receive (listener : ListenerPtr)

namespace ListenerManager

variable {Address : Type} [DecidableEq Address]

def record (observation : Observation) (state : ListenerManager Address) : ListenerManager Address :=
  { state with log := observation :: state.log }

def modify (listener : ListenerPtr) (change : QuicListener → QuicListener) (state : ListenerManager Address) :
    ListenerManager Address :=
  { state with heap := Function.update state.heap listener (change (state.heap listener)) }

/-- `ConnectionManager::addConnectionToPeer`. -/
def addConnectionToPeer (peerId : PeerId) (connection : Connection) (state : ListenerManager Address) :
    ListenerManager Address :=
  let known := (state.connections.lookup peerId).getD ∅
  { state with connections := state.connections.insert peerId (known.insert connection) }

/-- Store a connection; an error is ignored. -/
def onConnection (result : AcceptResult) (state : ListenerManager Address) : ListenerManager Address :=
  match result with
  | .error _ => state
  | .ok connection => state.addConnectionToPeer connection.remotePeer connection

/-- The head of the accept loop: without a server `asyncAccept` fails and ends it. -/
def asyncAccept (listener : ListenerPtr) (state : ListenerManager Address) : ListenerManager Address :=
  match (state.heap listener).server with
  | none => state.modify listener fun listener => { listener with accepting := .ended }
  | some _ => state.modify listener fun listener => { listener with accepting := .receiving }

/-- The accept loop has received a result: an error ends it, a connection is handed on. -/
def onReceived (listener : ListenerPtr) (result : AcceptResult) (rest : List AcceptResult)
    (state : ListenerManager Address) : ListenerManager Address :=
  let state := state.modify listener fun listener => { listener with server := some rest }
  match result with
  | .error _ => state.modify listener fun listener => { listener with accepting := .ended }
  | .ok connection =>
    ((state.onConnection (.ok connection)).record (.handled listener connection)).asyncAccept listener

/-- Create a listener and spawn its accept loop, which may run before the call returns. -/
def createListener (immediate : Bool) (state : ListenerManager Address) : ListenerManager Address :=
  let listener := state.allocated
  let state := { state with
    heap := Function.update state.heap listener {}
    allocated := state.allocated + 1 }
  if immediate then state.asyncAccept listener else state

/-- `listen`; a transport is found for the addresses that the environment supports. -/
def listen (supported : Address → Bool) (address : Address) (immediate bound : Bool)
    (state : ListenerManager Address) : ListenerManager Address × Except ListenError Unit :=
  if ¬ supported address then (state, .error .addressFamilyNotSupported)
  else if address ∈ state.listeners then (state, .error .addressInUse)
  else
    let listener := state.allocated
    let state := state.createListener immediate
    if state.started then
      match (state.heap listener).listen bound with
      | .error error => (state, .error error)
      | .ok changed =>
        let state := state.modify listener fun _ => changed
        ({ state with listeners := state.listeners.insert address listener }, .ok ())
    else ({ state with listeners := state.listeners.insert address listener }, .ok ())

/-- Bind the socket of a listener; one that fails is removed. -/
def startListener (unbound : List Address) (state : ListenerManager Address)
    (entry : Sigma fun _ : Address => ListenerPtr) : ListenerManager Address :=
  match (state.heap entry.2).listen (entry.1 ∉ unbound) with
  | .error _ => { state with listeners := state.listeners.erase entry.1 }
  | .ok changed => state.modify entry.2 fun _ => changed

def start (unbound : List Address) (state : ListenerManager Address) : ListenerManager Address :=
  if state.started then state
  else { state.listeners.entries.foldl (startListener unbound) state with started := true }

/-- `Engine::onConnection`: the result waits in the channel. -/
def send (listener : ListenerPtr) (result : AcceptResult) (state : ListenerManager Address) :
    ListenerManager Address :=
  (state.modify listener fun listener => { listener with server := listener.server.map (· ++ [result]) }).record
    (.sent listener result)

/-- An inbound handshake is over. -/
def handshake (listener : ListenerPtr) (ok : Bool) (identity : Except TlsError PeerId)
    (state : ListenerManager Address) : ListenerManager Address :=
  send listener (onHskDone ok identity state.established) { state with established := state.established + 1 }

/-- One event; `none` when it cannot happen. -/
def step (supported : Address → Bool) (state : ListenerManager Address) :
    Event Address → Option (ListenerManager Address)
  | .listen address immediate bound => some (state.listen supported address immediate bound).1
  | .start unbound => some (state.start unbound)
  | .handshake listener ok identity =>
    if listener < state.allocated ∧ (state.heap listener).server.isSome then
      some (state.handshake listener ok identity)
    else none
  | .run listener =>
    if listener < state.allocated ∧ (state.heap listener).accepting = .spawned then some (state.asyncAccept listener)
    else none
  | .receive listener =>
    match (state.heap listener).accepting, (state.heap listener).server with
    | .receiving, some (result :: rest) => some (state.onReceived listener result rest)
    | _, _ => none

end ListenerManager

/-- The runs of a listener manager from construction. -/
abbrev Runs {Address : Type} [DecidableEq Address] (supported : Address → Bool) :
    List (Event Address) → ListenerManager Address → Prop :=
  Run (fun before event after => before.step supported event = some after) {}

/-- A peer with a Secp256k1 key. -/
def samplePeer : PeerId :=
  ⟨⟨HashType.identity, [0x08, 0x02, 0x12, 0x21, 0x02] ++ List.replicate 32 1, by simp [kMaxHashLength]⟩⟩

end Libp2p.Network
