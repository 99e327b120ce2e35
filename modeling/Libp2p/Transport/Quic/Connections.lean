import Libp2p.Transport.Quic.Streams

/-! # Connections of a QUIC engine

`connect` leaves its handler in the engine. The library makes the connection before it returns, and the handler moves to
the context of that connection, where it stays until the handshake is done or the connection closes; a connection that
was not asked for is inbound and goes to the engine's channel. A connection object points to its context, the context
weakly to the object.

Streams that the library opens go to the call of `newStream` that waits for one, or to the channel of the connection, or
are closed when there is no connection object. So a stream that could not be opened during the call that asked for it goes
to the channel when it is opened later, like a stream of the peer.
-/

namespace Libp2p.Transport.Quic

open Library Network

/-- A connection of the library; its context and its object have the same number. -/
abbrev ConnPtr := ℕ

/-- The arguments of `connect`: the peer that is expected, and the call that waits. -/
structure Connecting where
  peer : PeerId
  cb : CallPtr
deriving DecidableEq

structure ConnCtx where
  connecting : Option Connecting := none
  newStream : Option (Option StreamPtr) := none
  conn : Option ConnPtr := none
deriving DecidableEq

structure QuicConnection where
  connCtx : Option ConnPtr
  initiator : Bool
  peer : PeerId
  streamSignal : List (Except QuicError StreamPtr) := []
deriving DecidableEq

def QuicConnection.onClose (object : QuicConnection) : QuicConnection :=
  { object with connCtx := none, streamSignal := object.streamSignal ++ [.error .connClosed] }

/-- How far the library is with a connection; it tells of an inbound one when the handshake is done. -/
inductive ConnPhase where
  | handshaking
  | ready
  | closed
deriving DecidableEq, Repr

/-- Where a stream that the library opened went. -/
inductive Fate where
  | returned (conn : ConnPtr)
  | offered (conn : ConnPtr)
  | rejected
deriving DecidableEq, Repr

/-- The connections of an engine. The history has the peers that were asked for, the inbound connections, what became of
the streams, and what `asyncAccept`, `newStream` and `acceptStream` have returned. -/
structure Connections where
  created : ℕ := 0
  phase : ConnPtr → ConnPhase := fun _ => .closed
  connecting : Option Connecting := none
  ctxs : ConnPtr → Option ConnCtx := fun _ => none
  objects : ConnPtr → Option QuicConnection := fun _ => none
  closing : List ConnPtr := []
  connSignal : List AcceptResult := []
  requests : List PeerId := []
  inbound : List ConnPtr := []
  results : List (CallPtr × AcceptResult) := []
  accepted : List AcceptResult := []
  fates : List Fate := []
  newStreams : List (ConnPtr × Except QuicError StreamPtr) := []
  received : ConnPtr → List (Except QuicError StreamPtr) := fun _ => []

/-- The calls of the owner and of the library; `stream` is a stream that it opens outside of `newStream`. -/
inductive ConnEvent where
  | connect (peer : PeerId) (creates : Bool)
  | incoming
  | hskDone (ptr : ConnPtr) (ok : Bool)
  | connClosed (ptr : ConnPtr)
  | stream (ptr : ConnPtr)
  | newStream (conn : ConnPtr) (pending creates : Bool)
  | acceptStream (conn : ConnPtr)
  | asyncAccept
  | close (conn : ConnPtr)
  | release (conn : ConnPtr)
deriving DecidableEq

namespace Connections

def object (conn : ConnPtr) (state : Connections) : Except Fault QuicConnection :=
  match state.objects conn with
  | none => .error .useAfterFree
  | some object => .ok object

def deref (ptr : ConnPtr) (state : Connections) : Except Fault ConnCtx :=
  match state.ctxs ptr with
  | none => .error .useAfterFree
  | some ctx => .ok ctx

/-- `weak_ptr::lock`. -/
def lock (conn : Option ConnPtr) (state : Connections) : Option (ConnPtr × QuicConnection) :=
  conn.bind fun conn => (state.objects conn).map (conn, ·)

def setCtx (ptr : ConnPtr) (ctx : Option ConnCtx) (state : Connections) : Connections :=
  { state with ctxs := Function.update state.ctxs ptr ctx }

def setObject (conn : ConnPtr) (object : Option QuicConnection) (state : Connections) : Connections :=
  { state with objects := Function.update state.objects conn object }

def finish (call : CallPtr) (result : AcceptResult) (state : Connections) : Connections :=
  { state with results := (call, result) :: state.results }

/-- The result of a handshake; an outbound connection must be with the peer that was asked for. -/
def verdict (op : Option Connecting) (ok : Bool) (identity : Except TlsError PeerId) : Except AcceptError PeerId :=
  if ¬ ok then .error (.quic .handshakeFailed)
  else
    match identity with
    | .error error => .error (.tls error)
    | .ok peer => if op.any fun op => peer ≠ op.peer then .error (.tls .tlsUnexpectedPeerId) else .ok peer

/-- The connection object, or the request to close the connection. -/
def settle (ptr : ConnPtr) (ctx : ConnCtx) (res : Except AcceptError PeerId) (state : Connections) : Connections :=
  let state := { state with phase := Function.update state.phase ptr .ready }
  match res with
  | .ok peer =>
    (state.setObject ptr (some { connCtx := some ptr, initiator := ctx.connecting.isSome, peer })).setCtx ptr
      (some { ctx with connecting := none, conn := some ptr })
  | .error _ => { state.setCtx ptr (some { ctx with connecting := none }) with closing := ptr :: state.closing }

section Identity

-- What `verifyPeerAndExtractIdentity` says of the certificate of a connection.
variable (identity : ConnPtr → Except TlsError PeerId)

def onHskDone (ptr : ConnPtr) (ok : Bool) (state : Connections) : Except Fault Connections := do
  let ctx ← state.deref ptr
  let res := verdict ctx.connecting ok (identity ptr)
  let state := state.settle ptr ctx res
  let res := res.map fun remotePeer => { id := ptr, remotePeer : Connection }
  match ctx.connecting with
  | some op => pure (state.finish op.cb res)
  | none => pure { state with connSignal := state.connSignal ++ [res] }

def onNewConn (state : Connections) : Except Fault Connections :=
  let ptr := state.created
  let op := state.connecting
  let state := { state with
    created := ptr + 1
    connecting := none
    phase := Function.update state.phase ptr (if op.isSome then .handshaking else .ready)
    ctxs := Function.update state.ctxs ptr (some { connecting := op }) }
  if op.isSome then pure state else { state with inbound := state.inbound ++ [ptr] }.onHskDone identity ptr true

def connect (peer : PeerId) (creates : Bool) (state : Connections) : Except Fault Connections := do
  if state.connecting.isSome then throw .invalidState
  let call := state.requests.length
  let state := { state with requests := state.requests ++ [peer], connecting := some ⟨peer, call⟩ }
  let state ← if creates then state.onNewConn identity else pure state
  match state.connecting with
  | none => pure state
  | some op => pure ({ state with connecting := none }.finish op.cb (.error (.quic .cantCreateConnection)))

end Identity

def detach (locked : Option (ConnPtr × QuicConnection)) (state : Connections) : Connections :=
  match locked with
  | none => state
  | some (conn, object) => state.setObject conn (some object.onClose)

def onConnClosed (ptr : ConnPtr) (state : Connections) : Except Fault Connections := do
  let ctx ← state.deref ptr
  let state := match ctx.connecting with
    | none => state
    | some op => state.finish op.cb (.error (.quic .connClosed))
  let state := state.detach (state.lock ctx.conn)
  pure ({ state with phase := Function.update state.phase ptr .closed }.setCtx ptr none)

/-- `on_new_stream`. -/
def onNewStream (ptr : ConnPtr) (state : Connections) : Except Fault Connections := do
  let stream := state.fates.length
  let ctx ← state.deref ptr
  match state.lock ctx.conn with
  | none => pure { state with fates := state.fates ++ [.rejected] }
  | some (conn, object) =>
    if ctx.newStream.isSome then
      pure { state.setCtx ptr (some { ctx with newStream := some (some stream) }) with
        fates := state.fates ++ [.returned conn] }
    else
      pure { state.setObject conn (some { object with streamSignal := object.streamSignal ++ [.ok stream] }) with
        fates := state.fates ++ [.offered conn] }

/-- `Engine::newStream`. -/
def makeStream (ptr : ConnPtr) (pending creates : Bool) (state : Connections) :
    Except Fault (Connections × Except QuicError StreamPtr) := do
  let ctx ← state.deref ptr
  if ctx.newStream.isSome then throw .invalidState
  else if pending then pure (state, .error .tooManyStreams)
  else
    let state := state.setCtx ptr (some { ctx with newStream := some none })
    let state ← if creates then state.onNewStream ptr else pure state
    let ctx ← state.deref ptr
    let state := state.setCtx ptr (some { ctx with newStream := none })
    match ctx.newStream with
    | none => throw .noValue
    | some none => pure (state, .error .cantOpenStream)
    | some (some stream) => pure (state, .ok stream)

/-- `QuicConnection::newStream`. -/
def newStream (conn : ConnPtr) (pending creates : Bool) (state : Connections) : Except Fault Connections := do
  let object ← state.object conn
  let (state, result) ← match object.connCtx with
    | none => pure (state, .error .connClosed)
    | some ptr => state.makeStream ptr pending creates
  pure { state with newStreams := state.newStreams ++ [(conn, result)] }

/-- `QuicConnection::acceptStream`, once there is something in the channel. -/
def acceptStream (conn : ConnPtr) (state : Connections) : Except Fault Connections := do
  let object ← state.object conn
  match object.streamSignal with
  | [] => pure state
  | result :: rest =>
    let state := state.setObject conn (some { object with streamSignal := rest })
    pure { state with received := Function.update state.received conn (state.received conn ++ [result]) }

/-- `Engine::asyncAccept`, once there is something in the channel. -/
def asyncAccept (state : Connections) : Connections :=
  match state.connSignal with
  | [] => state
  | result :: rest => { state with connSignal := rest, accepted := state.accepted ++ [result] }

def close (conn : ConnPtr) (state : Connections) : Except Fault Connections := do
  let object ← state.object conn
  match object.connCtx with
  | none => pure state
  | some ptr =>
    let _ ← state.deref ptr
    pure { state with closing := ptr :: state.closing }

/-- The last owner of a connection object lets go of it. -/
def release (conn : ConnPtr) (state : Connections) : Except Fault Connections := do
  let state ← state.close conn
  pure (state.setObject conn none)

/-- Somebody owns the object. -/
def Held (state : Connections) (conn : ConnPtr) : Prop := (state.objects conn).isSome

instance (state : Connections) (conn : ConnPtr) : Decidable (state.Held conn) :=
  inferInstanceAs (Decidable ((state.objects conn).isSome = true))

/-- When an event can happen: objects are used by their owners, the library finishes the handshakes of the connections
that it was asked for, once, and calls back until it has closed a connection. -/
def Enabled (state : Connections) : ConnEvent → Prop
  | .connect _ _ => True
  | .incoming => True
  | .hskDone ptr _ => state.phase ptr = .handshaking
  | .connClosed ptr => state.phase ptr ≠ .closed
  | .stream ptr => state.phase ptr ≠ .closed
  | .newStream conn _ _ => state.Held conn
  | .acceptStream conn => state.Held conn
  | .asyncAccept => True
  | .close conn => state.Held conn
  | .release conn => state.Held conn

instance (state : Connections) : DecidablePred state.Enabled
  | .connect _ _ => inferInstanceAs (Decidable True)
  | .incoming => inferInstanceAs (Decidable True)
  | .hskDone _ _ => inferInstanceAs (Decidable (_ = _))
  | .connClosed _ => inferInstanceAs (Decidable (_ ≠ _))
  | .stream _ => inferInstanceAs (Decidable (_ ≠ _))
  | .newStream conn _ _ => inferInstanceAs (Decidable (state.Held conn))
  | .acceptStream conn => inferInstanceAs (Decidable (state.Held conn))
  | .asyncAccept => inferInstanceAs (Decidable True)
  | .close conn => inferInstanceAs (Decidable (state.Held conn))
  | .release conn => inferInstanceAs (Decidable (state.Held conn))

def perform (identity : ConnPtr → Except TlsError PeerId) (state : Connections) : ConnEvent → Except Fault Connections
  | .connect peer creates => state.connect identity peer creates
  | .incoming => state.onNewConn identity
  | .hskDone ptr ok => state.onHskDone identity ptr ok
  | .connClosed ptr => state.onConnClosed ptr
  | .stream ptr => state.onNewStream ptr
  | .newStream conn pending creates => state.newStream conn pending creates
  | .acceptStream conn => state.acceptStream conn
  | .asyncAccept => .ok state.asyncAccept
  | .close conn => state.close conn
  | .release conn => state.release conn

/-- The runs without a fault. -/
abbrev Runs (identity : ConnPtr → Except TlsError PeerId) : List ConnEvent → Connections → Prop :=
  Run (fun before event after => before.perform identity event = .ok after ∧ before.Enabled event) {}

end Connections

end Libp2p.Transport.Quic
