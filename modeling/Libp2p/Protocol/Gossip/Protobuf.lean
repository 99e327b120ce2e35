import Libp2p.Basic.Varint
import Libp2p.Library.WireFormat

/-! # The gossip protocol buffers

The messages of `gossip.proto` with their optional fields. Reading folds the fields of the wire form into a
message: a later scalar replaces an earlier one, repeated fields accumulate, and the parts of a repeated
`control` are merged. Writing emits the fields in order, the unknown ones last. Unknown fields are kept for
`Message` only, which is the one message that is written again after it was read.
-/

namespace Libp2p.Gossip.Pb

open Library WireFormat

structure SubOpts where
  subscribe : Option Bool := none
  topicId : Option Bytes := none
deriving DecidableEq, Repr

structure Message where
  from_ : Option Bytes := none
  data : Option Bytes := none
  seqno : Option Bytes := none
  topic : Option Bytes := none
  signature : Option Bytes := none
  key : Option Bytes := none
  unknown : List Field := []
deriving DecidableEq, Repr

structure ControlIHave where
  topicId : Option Bytes := none
  messageIds : List Bytes := []
deriving DecidableEq, Repr

structure ControlIWant where
  messageIds : List Bytes := []
deriving DecidableEq, Repr

structure ControlGraft where
  topicId : Option Bytes := none
deriving DecidableEq, Repr

structure ControlPrune where
  topicId : Option Bytes := none
  backoff : Option UInt64 := none
deriving DecidableEq, Repr

structure ControlIDontWant where
  messageIds : List Bytes := []
deriving DecidableEq, Repr

structure ControlMessage where
  ihave : List ControlIHave := []
  iwant : List ControlIWant := []
  graft : List ControlGraft := []
  prune : List ControlPrune := []
  idontwant : List ControlIDontWant := []
deriving DecidableEq, Repr

structure RPC where
  subscriptions : List SubOpts := []
  publish : List Message := []
  control : ControlMessage := {}
deriving DecidableEq, Repr

/-- Read a message by folding its fields into `initial`. -/
def parseInto {α : Type} (depth : ℕ) (merge : α → Field → Option α) (initial : α) (input : Bytes) : Option α :=
  (parseFields depth input).bind fun fields => fields.foldlM merge initial

section Merge

def SubOpts.merge (message : SubOpts) (field : Field) : Option SubOpts :=
  match field.number, field.value with
  | 1, .varint value => some { message with subscribe := some (value ≠ 0) }
  | 2, .bytes data => some { message with topicId := some data }
  | _, _ => some message

def Message.merge (message : Message) (field : Field) : Option Message :=
  match field.number, field.value with
  | 1, .bytes data => some { message with from_ := some data }
  | 2, .bytes data => some { message with data := some data }
  | 3, .bytes data => some { message with seqno := some data }
  | 4, .bytes data => some { message with topic := some data }
  | 5, .bytes data => some { message with signature := some data }
  | 6, .bytes data => some { message with key := some data }
  | _, _ => some { message with unknown := message.unknown ++ [field] }

/-- The topic is required. -/
def Message.initialized (message : Message) : Option Message :=
  if message.topic.isSome then some message else none

def ControlIHave.merge (message : ControlIHave) (field : Field) : Option ControlIHave :=
  match field.number, field.value with
  | 1, .bytes data => some { message with topicId := some data }
  | 2, .bytes data => some { message with messageIds := message.messageIds ++ [data] }
  | _, _ => some message

def ControlIWant.merge (message : ControlIWant) (field : Field) : Option ControlIWant :=
  match field.number, field.value with
  | 1, .bytes data => some { message with messageIds := message.messageIds ++ [data] }
  | _, _ => some message

def ControlGraft.merge (message : ControlGraft) (field : Field) : Option ControlGraft :=
  match field.number, field.value with
  | 1, .bytes data => some { message with topicId := some data }
  | _, _ => some message

def ControlPrune.merge (message : ControlPrune) (field : Field) : Option ControlPrune :=
  match field.number, field.value with
  | 1, .bytes data => some { message with topicId := some data }
  | 3, .varint value => some { message with backoff := some (UInt64.ofNat value) }
  | _, _ => some message

def ControlIDontWant.merge (message : ControlIDontWant) (field : Field) : Option ControlIDontWant :=
  match field.number, field.value with
  | 1, .bytes data => some { message with messageIds := message.messageIds ++ [data] }
  | _, _ => some message

/-- The limit on nested messages and groups. -/
def recursionLimit : ℕ := 100

def ControlMessage.merge (message : ControlMessage) (field : Field) : Option ControlMessage :=
  match field.number, field.value with
  | 1, .bytes data => (parseInto (recursionLimit - 2) ControlIHave.merge {} data).map fun part =>
      { message with ihave := message.ihave ++ [part] }
  | 2, .bytes data => (parseInto (recursionLimit - 2) ControlIWant.merge {} data).map fun part =>
      { message with iwant := message.iwant ++ [part] }
  | 3, .bytes data => (parseInto (recursionLimit - 2) ControlGraft.merge {} data).map fun part =>
      { message with graft := message.graft ++ [part] }
  | 4, .bytes data => (parseInto (recursionLimit - 2) ControlPrune.merge {} data).map fun part =>
      { message with prune := message.prune ++ [part] }
  | 5, .bytes data => (parseInto (recursionLimit - 2) ControlIDontWant.merge {} data).map fun part =>
      { message with idontwant := message.idontwant ++ [part] }
  | _, _ => some message

def RPC.merge (message : RPC) (field : Field) : Option RPC :=
  match field.number, field.value with
  | 1, .bytes data => (parseInto (recursionLimit - 1) SubOpts.merge {} data).map fun part =>
      { message with subscriptions := message.subscriptions ++ [part] }
  | 2, .bytes data => ((parseInto (recursionLimit - 1) Message.merge {} data).bind Message.initialized).map
      fun part => { message with publish := message.publish ++ [part] }
  | 3, .bytes data => (parseInto (recursionLimit - 1) ControlMessage.merge message.control data).map fun control =>
      { message with control }
  | _, _ => some message

end Merge

/-- `protobufDecode<gossipsub::pb::RPC>`. -/
def RPC.decode (input : Bytes) : Option RPC := parseInto recursionLimit RPC.merge {} input

section Encode

/-- An optional field of bytes. -/
def optional (number : ℕ) (value : Option Bytes) : List Field :=
  (value.map fun data => ⟨number, .bytes data⟩).toList

/-- A repeated field of bytes or of encoded messages. -/
def repeated (number : ℕ) (values : List Bytes) : List Field :=
  values.map fun data => ⟨number, .bytes data⟩

def SubOpts.encode (message : SubOpts) : Bytes :=
  encodeFields ((message.subscribe.map fun flag => ⟨1, .varint flag.toNat⟩).toList ++ optional 2 message.topicId)

/-- The known fields of a message, in order. -/
def Message.fields (message : Message) : List Field :=
  optional 1 message.from_ ++ optional 2 message.data ++ optional 3 message.seqno ++ optional 4 message.topic ++
    optional 5 message.signature ++ optional 6 message.key

def Message.encode (message : Message) : Bytes := encodeFields (message.fields ++ message.unknown)

def ControlIHave.encode (message : ControlIHave) : Bytes :=
  encodeFields (optional 1 message.topicId ++ repeated 2 message.messageIds)

def ControlIWant.encode (message : ControlIWant) : Bytes := encodeFields (repeated 1 message.messageIds)

def ControlGraft.encode (message : ControlGraft) : Bytes := encodeFields (optional 1 message.topicId)

def ControlPrune.encode (message : ControlPrune) : Bytes :=
  encodeFields (optional 1 message.topicId ++
    (message.backoff.map fun backoff => ⟨3, .varint backoff.toNat⟩).toList)

def ControlIDontWant.encode (message : ControlIDontWant) : Bytes := encodeFields (repeated 1 message.messageIds)

def ControlMessage.encode (message : ControlMessage) : Bytes :=
  encodeFields (repeated 1 (message.ihave.map ControlIHave.encode) ++
    repeated 2 (message.iwant.map ControlIWant.encode) ++ repeated 3 (message.graft.map ControlGraft.encode) ++
    repeated 4 (message.prune.map ControlPrune.encode) ++
    repeated 5 (message.idontwant.map ControlIDontWant.encode))

/-- `protobufEncode` of an RPC; `control` is present once something was added to it. -/
def RPC.encode (message : RPC) : Bytes :=
  encodeFields (repeated 1 (message.subscriptions.map SubOpts.encode) ++
    repeated 2 (message.publish.map Message.encode) ++
    (if message.control = {} then [] else [⟨3, .bytes message.control.encode⟩]))

end Encode

section RoundTrip

variable {depth : ℕ}

/-- What every field keeps, reading a message keeps; fields are smaller than the message. -/
theorem parseInto_preserves {α : Type} {merge : α → Field → Option α} {initial result : α} {input : Bytes}
    (invariant : α → Prop)
    (kept : ∀ message field next, field.value.weight < input.length → merge message field = some next →
      invariant message → invariant next)
    (start : invariant initial) (parsed : parseInto depth merge initial input = some result) : invariant result := by
  obtain ⟨fields, read, folded⟩ := Option.bind_eq_some_iff.mp parsed
  have small : ∀ field ∈ fields, field.value.weight < input.length :=
    fun field member => parseFields_mem read member
  clear read parsed
  induction fields generalizing initial with
  | nil =>
    obtain rfl := Option.some.inj folded
    exact start
  | cons field rest ih =>
    rw [List.foldlM_cons, Option.bind_eq_bind, Option.bind_eq_some_iff] at folded
    obtain ⟨next, merged, folded⟩ := folded
    exact ih (kept initial field next (small field (by simp)) merged start) folded
      fun other member => small other (by simp [member])

/-- The fields of a message are folded back into it. -/
theorem Message.foldlM_fields (message : Message) :
    message.fields.foldlM Message.merge {} = some { message with unknown := [] } := by
  obtain ⟨from_, data, seqno, topic, signature, key, unknown⟩ := message
  cases from_ <;> cases data <;> cases seqno <;> cases topic <;> cases signature <;> cases key <;> rfl

/-- The parts of a message are at most this long. -/
def Message.Bounded (limit : ℕ) (message : Message) : Prop := ∀ part ∈ [message.from_, message.data, message.seqno,
  message.topic, message.signature, message.key], (part.getD []).length ≤ limit

theorem length_encode_optional (number : ℕ) (value : Option Bytes) :
    (encodeFields (optional number value)).length ≤ (value.getD []).length + 10 := by
  cases value with
  | none => exact Nat.zero_le _
  | some data =>
    have long := Field.encode_length_le number data
    simpa [encodeFields, optional] using long

variable {limit : ℕ} {message : Message}

theorem Message.encode_length_le (bounded : message.Bounded limit) (known : message.unknown = []) :
    message.encode.length ≤ 6 * (limit + 10) := by
  simp only [Message.Bounded, List.forall_mem_cons] at bounded
  obtain ⟨from_, data, seqno, topic, signature, key, -⟩ := bounded
  have first := length_encode_optional 1 message.from_
  have second := length_encode_optional 2 message.data
  have third := length_encode_optional 3 message.seqno
  have fourth := length_encode_optional 4 message.topic
  have fifth := length_encode_optional 5 message.signature
  have sixth := length_encode_optional 6 message.key
  rw [Message.encode, known, List.append_nil]
  simp only [Message.fields, encodeFields_append, List.length_append]
  omega

/-- The parts of a message that is read are no larger than what is read. -/
theorem Message.bounded_parseInto {input : Bytes}
    (parsed : parseInto depth Message.merge {} input = some message) : message.Bounded input.length := by
  refine parseInto_preserves (Message.Bounded input.length) ?_ (by simp [Message.Bounded]) parsed
  intro message field next smaller merged bounded
  simp only [Message.Bounded, List.forall_mem_cons, List.not_mem_nil, false_implies, implies_true, and_true] at bounded ⊢
  obtain ⟨from_, data, seqno, topic, signature, key⟩ := bounded
  have fits : ∀ bytes, field.value = .bytes bytes → ((some bytes).getD []).length ≤ input.length := by
    intro bytes value
    rw [value] at smaller
    exact (Nat.lt_of_succ_lt smaller).le
  unfold Message.merge at merged
  split at merged <;> obtain rfl := Option.some.inj merged
  · next bytes _ value => exact ⟨fits bytes value, data, seqno, topic, signature, key⟩
  · next bytes _ value => exact ⟨from_, fits bytes value, seqno, topic, signature, key⟩
  · next bytes _ value => exact ⟨from_, data, fits bytes value, topic, signature, key⟩
  · next bytes _ value => exact ⟨from_, data, seqno, fits bytes value, signature, key⟩
  · next bytes _ value => exact ⟨from_, data, seqno, topic, fits bytes value, key⟩
  · next bytes _ value => exact ⟨from_, data, seqno, topic, signature, fits bytes value⟩
  · exact ⟨from_, data, seqno, topic, signature, key⟩

/-- The messages of an RPC have a topic and are no larger than the RPC. -/
theorem RPC.mem_publish_decode {input : Bytes} {rpc : RPC}
    (decoded : RPC.decode input = some rpc) (member : message ∈ rpc.publish) :
    message.topic.isSome ∧ message.Bounded input.length := by
  refine parseInto_preserves (fun rpc : RPC => ∀ message ∈ rpc.publish,
    message.topic.isSome ∧ message.Bounded input.length) ?_ (by simp) decoded message member
  intro rpc field next smaller merged holds
  unfold RPC.merge at merged
  split at merged
  · obtain ⟨part, -, rfl⟩ := Option.map_eq_some_iff.mp merged
    exact holds
  · next data number value =>
    obtain ⟨part, read, rfl⟩ := Option.map_eq_some_iff.mp merged
    obtain ⟨raw, parsed, complete⟩ := Option.bind_eq_some_iff.mp read
    obtain ⟨topic, ⟨⟩⟩ := Option.ite_none_right_eq_some.mp complete
    rw [value] at smaller
    have long : data.length ≤ input.length := (Nat.lt_of_succ_lt smaller).le
    intro other member
    rcases List.mem_append.mp member with earlier | new
    · exact holds other earlier
    · obtain rfl := List.mem_singleton.mp new
      exact ⟨topic, fun part inside => (Message.bounded_parseInto parsed part inside).trans long⟩
  · obtain ⟨part, -, rfl⟩ := Option.map_eq_some_iff.mp merged
    exact holds
  · obtain rfl := Option.some.inj merged
    exact holds

end RoundTrip

end Libp2p.Gossip.Pb
