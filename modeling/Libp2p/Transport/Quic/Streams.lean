import Libp2p.Library.Run
import Libp2p.Network.ListenerManager

/-! # Streams of a QUIC engine

The QUIC library owns a context for each of its streams; a stream object points to the context and the context points
back without owning. Reads and writes that cannot go on leave their coroutine in the context and are resumed from the
library's callbacks. Every access goes through the pointers as the code has them, so a null pointer and a context or an
object that is gone are faults of the model.

A stream that was written is queued and flushed later, by `process`. The library closes a stream in three turns: the
reader is resumed, then the writer, then the object is detached and the context deleted; what resumed coroutines go on
to do comes between the turns.
-/

namespace Libp2p.Transport.Quic

open Library Network

/-- A stream of the library; its context and its object have the same number. -/
abbrev StreamPtr := ℕ

/-- A call of `readSome` or `writeSome`. -/
abbrev CallPtr := ℕ

/-- What must not happen: a null or dangling pointer is followed, a `logic_error` of the engine is thrown, or an empty
optional is read. -/
inductive Fault where
  | nullPointer
  | useAfterFree
  | invalidState
  | noValue
deriving DecidableEq, Repr

/-- A suspended coroutine: the object it is a member of, and the call. -/
structure Suspended where
  stream : StreamPtr
  call : CallPtr
deriving DecidableEq, Repr

structure StreamCtx where
  stream : Option StreamPtr := none
  reading : Option Suspended := none
  writing : Option Suspended := none
  wantFlush : Bool := false
deriving DecidableEq, Repr

structure QuicStream where
  streamCtx : Option StreamPtr
deriving DecidableEq, Repr

/-- How far the library is with a stream. -/
inductive Phase where
  | opened
  | readerResumed
  | writerResumed
  | closed
deriving DecidableEq, Repr

/-- What `lsquic_stream_read` returns. -/
inductive ReadResult where
  | some (count : ℕ)
  | finished
  | wouldBlock
  | failed
deriving DecidableEq, Repr

/-- What `lsquic_stream_write` returns; nothing is taken when the buffer is full. -/
inductive WriteResult where
  | some (count : ℕ)
  | full
  | failed
deriving DecidableEq, Repr

/-- The streams of an engine; `written` are the streams that the library was given data for since the last flush. -/
structure Streams where
  created : ℕ := 0
  phase : StreamPtr → Phase := fun _ => .closed
  wantRead : StreamPtr → Bool := fun _ => false
  wantWrite : StreamPtr → Bool := fun _ => false
  ctxs : StreamPtr → Option StreamCtx := fun _ => none
  objects : StreamPtr → Option QuicStream := fun _ => none
  wantFlush : List StreamPtr := []
  wantProcess : Bool := false
  calls : ℕ := 0
  results : List (CallPtr × Except QuicError ℕ) := []
  written : List StreamPtr := []

inductive Event where
  | newStream (connected : Bool)
  | readSome (stream : StreamPtr) (result : ReadResult)
  | writeSome (stream : StreamPtr) (result : WriteResult)
  | reset (stream : StreamPtr)
  | release (stream : StreamPtr)
  | onRead (ptr : StreamPtr) (result : ReadResult)
  | onWrite (ptr : StreamPtr) (result : WriteResult)
  | closeReader (ptr : StreamPtr) (result : ReadResult)
  | closeWriter (ptr : StreamPtr) (result : WriteResult)
  | closeObject (ptr : StreamPtr)
  | process
deriving DecidableEq, Repr

namespace Streams

/-- The object, which must not have been destroyed. -/
def object (stream : StreamPtr) (state : Streams) : Except Fault QuicStream :=
  match state.objects stream with
  | none => .error .useAfterFree
  | some object => .ok object

/-- The context behind a pointer. -/
def deref (ptr : Option StreamPtr) (state : Streams) : Except Fault (StreamPtr × StreamCtx) :=
  match ptr with
  | none => .error .nullPointer
  | some ptr =>
    match state.ctxs ptr with
    | none => .error .useAfterFree
    | some ctx => .ok (ptr, ctx)

def setCtx (ptr : StreamPtr) (ctx : Option StreamCtx) (state : Streams) : Streams :=
  { state with ctxs := Function.update state.ctxs ptr ctx }

def finish (call : CallPtr) (result : Except QuicError ℕ) (state : Streams) : Streams :=
  { state with results := (call, result) :: state.results }

/-- The loop of `readSome`, up to the next suspension. -/
def readLoop (stream : StreamPtr) (call : CallPtr) (result : ReadResult) (state : Streams) : Except Fault Streams := do
  let object ← state.object stream
  let (ptr, ctx) ← state.deref object.streamCtx
  match result with
  | .some count => pure (state.finish call (.ok count))
  | .finished => pure (state.finish call (.error .streamClosed))
  | .failed => pure (state.finish call (.error .streamClosed))
  | .wouldBlock =>
    let state := state.setCtx ptr (some { ctx with reading := some ⟨stream, call⟩ })
    pure { state with wantRead := Function.update state.wantRead ptr true }

/-- `Engine::wantFlush`. -/
def queueFlush (ptr : StreamPtr) (state : Streams) : Except Fault Streams := do
  let (_, ctx) ← state.deref (some ptr)
  if ctx.wantFlush then pure state
  else
    let state := state.setCtx ptr (some { ctx with wantFlush := true })
    match ctx.stream with
    | none => pure state
    | some stream =>
      if (state.objects stream).isNone then pure state
      else pure { state with wantFlush := state.wantFlush ++ [stream], wantProcess := true }

/-- The loop of `writeSome`, up to the next suspension. -/
def writeLoop (stream : StreamPtr) (call : CallPtr) (result : WriteResult) (state : Streams) : Except Fault Streams := do
  let object ← state.object stream
  let (ptr, _) ← state.deref object.streamCtx
  let state ← { state with written := ptr :: state.written }.queueFlush ptr
  match result with
  | .some count => pure (state.finish call (.ok count))
  | .failed => pure (state.finish call (.error .streamClosed))
  | .full =>
    let (ptr, ctx) ← state.deref object.streamCtx
    let state := state.setCtx ptr (some { ctx with writing := some ⟨stream, call⟩ })
    pure { state with wantWrite := Function.update state.wantWrite ptr true }

def readSome (stream : StreamPtr) (result : ReadResult) (state : Streams) : Except Fault Streams := do
  let call := state.calls
  let state := { state with calls := call + 1 }
  let object ← state.object stream
  if object.streamCtx.isNone then pure (state.finish call (.error .streamClosed))
  else
    let (_, ctx) ← state.deref object.streamCtx
    if ctx.reading.isSome then pure (state.finish call (.error .streamReadInProgress))
    else state.readLoop stream call result

def writeSome (stream : StreamPtr) (result : WriteResult) (state : Streams) : Except Fault Streams := do
  let call := state.calls
  let state := { state with calls := call + 1 }
  let object ← state.object stream
  if object.streamCtx.isNone then pure (state.finish call (.error .streamClosed))
  else
    let (_, ctx) ← state.deref object.streamCtx
    if ctx.writing.isSome then pure (state.finish call (.error .streamWriteInProgress))
    else state.writeLoop stream call result

/-- `reset`, and `close`, whose call of the library makes no difference here. -/
def reset (stream : StreamPtr) (state : Streams) : Except Fault Streams := do
  let object ← state.object stream
  if object.streamCtx.isNone then pure state
  else
    let _ ← state.deref object.streamCtx
    pure state

/-- The last owner of an object lets go of it. -/
def release (stream : StreamPtr) (state : Streams) : Except Fault Streams := do
  let state ← state.reset stream
  pure { state with objects := Function.update state.objects stream none }

/-- `optionTake` of the reader, which goes on reading. -/
def resumeReader (ptr : StreamPtr) (result : ReadResult) (state : Streams) : Except Fault Streams := do
  let (_, ctx) ← state.deref (some ptr)
  match ctx.reading with
  | none => pure state
  | some reader => (state.setCtx ptr (some { ctx with reading := none })).readLoop reader.stream reader.call result

def resumeWriter (ptr : StreamPtr) (result : WriteResult) (state : Streams) : Except Fault Streams := do
  let (_, ctx) ← state.deref (some ptr)
  match ctx.writing with
  | none => pure state
  | some writer => (state.setCtx ptr (some { ctx with writing := none })).writeLoop writer.stream writer.call result

def onRead (ptr : StreamPtr) (result : ReadResult) (state : Streams) : Except Fault Streams :=
  { state with wantRead := Function.update state.wantRead ptr false }.resumeReader ptr result

def onWrite (ptr : StreamPtr) (result : WriteResult) (state : Streams) : Except Fault Streams :=
  { state with wantWrite := Function.update state.wantWrite ptr false }.resumeWriter ptr result

/-- The first part of `on_close`. -/
def closeReader (ptr : StreamPtr) (result : ReadResult) (state : Streams) : Except Fault Streams :=
  { state with phase := Function.update state.phase ptr .readerResumed }.resumeReader ptr result

/-- The second part of `on_close`. -/
def closeWriter (ptr : StreamPtr) (result : WriteResult) (state : Streams) : Except Fault Streams :=
  { state with phase := Function.update state.phase ptr .writerResumed }.resumeWriter ptr result

/-- `QuicStream::onClose`, if the object is still there. -/
def onClose (stream : StreamPtr) (state : Streams) : Streams :=
  { state with objects := Function.update state.objects stream ((state.objects stream).map fun _ => ⟨none⟩) }

def detach (stream : Option StreamPtr) (state : Streams) : Streams :=
  match stream with
  | none => state
  | some stream => state.onClose stream

/-- The last part of `on_close`. -/
def closeObject (ptr : StreamPtr) (state : Streams) : Except Fault Streams := do
  let (_, ctx) ← state.deref (some ptr)
  let state := state.detach ctx.stream
  pure ({ state with phase := Function.update state.phase ptr .closed }.setCtx ptr none)

/-- One entry of the flush queue. -/
def flush (state : Streams) (stream : StreamPtr) : Except Fault Streams :=
  match state.objects stream with
  | none => pure state
  | some object => do
    let (ptr, ctx) ← state.deref object.streamCtx
    pure (state.setCtx ptr (some { ctx with wantFlush := false }))

def process (state : Streams) : Except Fault Streams :=
  state.wantFlush.foldlM flush { state with wantProcess := false, wantFlush := [], written := [] }

/-- `on_new_stream`; without a connection object the stream gets none either. -/
def newStream (connected : Bool) (state : Streams) : Streams :=
  let ptr := state.created
  { state with
    created := ptr + 1
    phase := Function.update state.phase ptr .opened
    ctxs := Function.update state.ctxs ptr (some { stream := if connected then some ptr else none })
    objects := Function.update state.objects ptr (if connected then some ⟨some ptr⟩ else none) }

/-- Somebody owns the object. -/
def Held (state : Streams) (stream : StreamPtr) : Prop := (state.objects stream).isSome

/-- A coroutine of the object is suspended; its caller owns the object. -/
def Busy (state : Streams) (stream : StreamPtr) : Prop :=
  ∃ ctx, state.ctxs stream = some ctx ∧ (ctx.reading.isSome ∨ ctx.writing.isSome)

instance (state : Streams) (stream : StreamPtr) : Decidable (state.Held stream) :=
  inferInstanceAs (Decidable ((state.objects stream).isSome = true))

instance (state : Streams) (stream : StreamPtr) : Decidable (state.Busy stream) :=
  match found : state.ctxs stream with
  | none => .isFalse fun ⟨_, same, _⟩ => by rw [found] at same; cases same
  | some ctx => decidable_of_iff (ctx.reading.isSome ∨ ctx.writing.isSome)
      ⟨fun waits => ⟨ctx, found, waits⟩, fun ⟨_, same, waits⟩ => by rwa [Option.some.inj (found.symm.trans same)]⟩

/-- When an event can happen: objects are used by their owners and released by nobody who waits for them, and the library
calls back for what was asked for, closes a stream once, and makes nobody wait for a stream that it is closing. -/
def Enabled (state : Streams) : Event → Prop
  | .newStream _ => True
  | .readSome stream result => state.Held stream ∧ (result = .wouldBlock → state.phase stream = .opened)
  | .writeSome stream result => state.Held stream ∧ (result = .full → state.phase stream = .opened)
  | .reset stream => state.Held stream
  | .release stream => state.Held stream ∧ ¬ state.Busy stream
  | .onRead ptr _ => state.phase ptr = .opened ∧ state.wantRead ptr
  | .onWrite ptr _ => state.phase ptr = .opened ∧ state.wantWrite ptr
  | .closeReader ptr result => state.phase ptr = .opened ∧ result ≠ .wouldBlock
  | .closeWriter ptr result => state.phase ptr = .readerResumed ∧ result ≠ .full
  | .closeObject ptr => state.phase ptr = .writerResumed
  | .process => True

instance (state : Streams) : DecidablePred state.Enabled
  | .newStream _ => inferInstanceAs (Decidable True)
  | .readSome _ _ => inferInstanceAs (Decidable (_ ∧ (_ → _)))
  | .writeSome _ _ => inferInstanceAs (Decidable (_ ∧ (_ → _)))
  | .reset stream => inferInstanceAs (Decidable (state.Held stream))
  | .release _ => inferInstanceAs (Decidable (_ ∧ ¬ _))
  | .onRead _ _ => inferInstanceAs (Decidable (_ ∧ _))
  | .onWrite _ _ => inferInstanceAs (Decidable (_ ∧ _))
  | .closeReader _ _ => inferInstanceAs (Decidable (_ ∧ _))
  | .closeWriter _ _ => inferInstanceAs (Decidable (_ ∧ _))
  | .closeObject _ => inferInstanceAs (Decidable (_ = _))
  | .process => inferInstanceAs (Decidable True)

def perform (state : Streams) : Event → Except Fault Streams
  | .newStream connected => .ok (state.newStream connected)
  | .readSome stream result => state.readSome stream result
  | .writeSome stream result => state.writeSome stream result
  | .reset stream => state.reset stream
  | .release stream => state.release stream
  | .onRead ptr result => state.onRead ptr result
  | .onWrite ptr result => state.onWrite ptr result
  | .closeReader ptr result => state.closeReader ptr result
  | .closeWriter ptr result => state.closeWriter ptr result
  | .closeObject ptr => state.closeObject ptr
  | .process => state.process

/-- The runs without a fault. -/
abbrev Runs : List Event → Streams → Prop :=
  Run (fun before event after => before.perform event = .ok after ∧ before.Enabled event) {}

end Streams

end Libp2p.Transport.Quic
