import Libp2p.Basic.Streams

/-! # Multiselect negotiation

One line of the protocol is a name followed by a newline, framed by its length. `selectOneOf` runs a
prologue (the multistream handshake and the initiator's first proposal, written before anything is
read) and then an unbounded loop, whose body differs between the initiator and the responder.
-/

namespace Libp2p.Multiselect

open Library

abbrev ProtocolName := Bytes

/-- The bytes of an ASCII literal. -/
def ascii (text : List Char) : Bytes := text.map fun char => UInt8.ofNat char.toNat

/-- The current protocol version. -/
def kProtocolId : ProtocolName :=
  ascii ['/', 'm', 'u', 'l', 't', 'i', 's', 't', 'r', 'e', 'a', 'm', '/', '1', '.', '0', '.', '0']

def kMaxMessageSize : ℕ := 65535

def kMaxVarintSize : ℕ := 3

def kNewLine : UInt8 := 0x0A

def kNA : ProtocolName := ascii ['n', 'a']

def appendVarint (buffer : Bytes) (size : ℕ) : Bytes := buffer ++ encodeVarint size

/-- Append one framed line to a message buffer, within the message size limit. -/
def appendProtocol (buffer : Bytes) (protocol : ProtocolName) : Except MuxerError Bytes :=
  let msgSize := protocol.length + 1
  if msgSize > kMaxMessageSize - kMaxVarintSize then .error .internalError
  else
    let buffer := appendVarint buffer msgSize ++ protocol ++ [kNewLine]
    if buffer.length ≤ kMaxMessageSize then .ok buffer else .error .internalError

def createMessage (protocol : ProtocolName) : Except MuxerError Bytes := appendProtocol [] protocol

/-- Read one line and strip its newline; a line without one violates the protocol. -/
def read1 : CoroOutcome ProtocolName := do
  let message ← readVarintMessage kMaxMessageSize
  if message = [] ∨ message.getLast? ≠ some kNewLine then throw (.muxer .protocolViolation)
  pure message.dropLast

/-- Write one line; a name that cannot be framed makes `value()` throw. -/
def write1 (protocol : ProtocolName) : CoroOutcome Unit :=
  match createMessage protocol with
  | .ok message => Coro.write message
  | .error _ => throw .badAccess

/-- Everything before the loops of `selectOneOf`; it ends by entering the loop at proposal zero. -/
def selectPrologue (protocols : List ProtocolName) (isInitiator negotiateMultistream : Bool) :
    CoroOutcome (ℕ ⊕ ProtocolName) := do
  if protocols = [] then throw (.muxer .negotiationFailed)
  if negotiateMultistream then write1 kProtocolId
  if isInitiator then write1 (protocols.getD 0 [])
  if negotiateMultistream then
    let protocol ← read1
    if protocol ≠ kProtocolId then throw (.muxer .protocolViolation)
  pure (.inl 0)

/-- What the initiator does about the answer to proposal `i`: after `na` it moves to the next proposal
and writes it, and control falls through to the comparison with what was read. -/
def nextProposal (protocols : List ProtocolName) (protocol : ProtocolName) (i : ℕ) : CoroOutcome ℕ := do
  if protocol = kNA then
    if i + 1 ≥ protocols.length then throw (.muxer .negotiationFailed)
    write1 (protocols.getD (i + 1) [])
    pure (i + 1)
  else pure i

/-- One iteration of the initiator's `while (true)`; every path of it leaves the function. -/
def initiatorLoop (protocols : List ProtocolName) (i : ℕ) : CoroOutcome (ℕ ⊕ ProtocolName) := do
  let protocol ← read1
  let i ← nextProposal protocols protocol i
  if protocol ≠ protocols.getD i [] then throw (.muxer .protocolViolation)
  pure (.inr protocol)

/-- One iteration of the responder's `while (true)`. -/
def responderLoop (protocols : List ProtocolName) (i : ℕ) : CoroOutcome (ℕ ⊕ ProtocolName) := do
  let protocol ← read1
  if protocol ∈ protocols then
    write1 protocol
    pure (.inr protocol)
  else
    write1 kNA
    pure (.inl i)

/-- The body of the loop a party runs. -/
def selectLoop (protocols : List ProtocolName) (isInitiator : Bool) : ℕ → CoroOutcome (ℕ ⊕ ProtocolName) :=
  if isInitiator then initiatorLoop protocols else responderLoop protocols

/-- `selectOneOf` at its first suspension. -/
def selectOneOf (protocols : List ProtocolName) (isInitiator negotiateMultistream : Bool) :
    CoroOutcome (ℕ ⊕ ProtocolName) :=
  unroll (selectLoop protocols isInitiator) (selectPrologue protocols isInitiator negotiateMultistream)

/-- A name short enough for `createMessage`. -/
def Framable (protocol : ProtocolName) : Prop := protocol.length + 1 ≤ kMaxMessageSize - kMaxVarintSize

instance : DecidablePred Framable := fun _ => inferInstanceAs (Decidable (_ ≤ _))

/-- The wire form of one line. -/
def frame (protocol : ProtocolName) : Bytes :=
  encodeVarint (protocol.length + 1) ++ (protocol ++ [kNewLine])

theorem encodeVarint_length_le {value : ℕ} (small : value < 2 ^ 21) : (encodeVarint value).length ≤ 3 := by
  simp only [encodeVarint, encodeVarintLoop, Nat.shiftRight_eq_div_pow]
  have third : value / 2 ^ 7 / 2 ^ 7 / 2 ^ 7 = 0 := by omega
  rw [if_neg (not_not.mpr third)]
  split_ifs <;> simp

theorem createMessage_eq {protocol : ProtocolName} (framable : Framable protocol) :
    createMessage protocol = .ok (frame protocol) := by
  unfold Framable at framable
  have size : (encodeVarint (protocol.length + 1)).length ≤ 3 :=
    encodeVarint_length_le (by simp only [kMaxMessageSize, kMaxVarintSize] at framable; omega)
  rw [createMessage, appendProtocol]
  dsimp only
  rw [if_neg (by omega), if_pos]
  · simp [appendVarint, frame]
  · simp only [appendVarint, List.nil_append, List.length_append, List.length_singleton]
    simp only [kMaxMessageSize, kMaxVarintSize] at framable ⊢
    omega

theorem write1_eq {protocol : ProtocolName} (framable : Framable protocol) :
    write1 protocol = Coro.write (frame protocol) := by
  rw [write1, createMessage_eq framable]

theorem framable_kNA : Framable kNA := by decide

theorem framable_kProtocolId : Framable kProtocolId := by decide

section Outcomes

variable {raises : StreamError → Prop} (allowed : ∀ failure, failure ≠ .badAccess → raises failure)

include allowed

theorem yields_read1 : read1.Yields raises fun _ => True := by
  refine (yields_readVarintMessage allowed _).bind fun message _ => ?_
  split_ifs
  · exact allowed _ (by decide)
  · trivial

/-- Writing a line throws for a name that cannot be framed, and for no other. -/
theorem yields_write1 {protocol : ProtocolName} (throws : ¬ Framable protocol → raises .badAccess) :
    (write1 protocol).Yields raises fun _ => True := by
  have written (message : Bytes) : (Coro.write message).Yields raises fun _ => True :=
    Coro.yields_write (allowed _ (by decide)) (allowed _ (by decide)) message
  by_cases framable : Framable protocol
  · rw [write1_eq framable]
    exact written _
  · unfold write1
    split
    · exact written _
    · exact throws framable

end Outcomes

section Trace

variable {σ α : Type} {body : σ → CoroOutcome (σ ⊕ α)} {input output : Bytes} {last : CoroOutcome (σ ⊕ α)}

/-- A coroutine that starts by reading a line is at a suspension. -/
theorem unroll_read1 (next : ProtocolName → CoroOutcome (σ ⊕ α)) :
    unroll body (read1 >>= next) = read1 >>= next := by
  have waiting : ({} : VarintPrefixReader).state = .underflow := rfl
  simp only [read1, readVarintMessage, readVarint, Coro.bind_assoc]
  rw [readVarintFrom, dif_pos waiting, Coro.read, if_neg (by decide)]
  simp only [Coro.readSome_bind, unroll_readSome]

/-- On a stream that carries a line, `read1` waits inside it or has taken it and returns its name. -/
theorem trace_read1 {protocol : ProtocolName} {stream : Bytes} {next : ProtocolName → CoroOutcome (σ ⊕ α)}
    (framable : Framable protocol) (initial : input <+: frame protocol ++ stream)
    (trace : Trace body (unroll body (read1 >>= next)) input output last) :
    (input.length < (frame protocol).length ∧ output = [] ∧ last.Reading) ∨
      ∃ rest, input = frame protocol ++ rest ∧
        Trace body (unroll body (next protocol)) rest output last := by
  have length : (protocol ++ [kNewLine]).length = protocol.length + 1 := by simp
  simp only [frame, ← length] at initial ⊢
  simp only [read1, Coro.bind_assoc] at trace
  have fits : (protocol ++ [kNewLine]).length ≤ kMaxMessageSize := by
    unfold Framable at framable
    omega
  rcases trace_readVarintMessage fits (by decide) initial trace with waiting | ⟨rest, rfl, tail⟩
  · exact .inl waiting
  · rw [if_neg (by simp)] at tail
    simp only [List.dropLast_concat] at tail
    exact .inr ⟨rest, rfl, tail⟩

end Trace

end Libp2p.Multiselect
