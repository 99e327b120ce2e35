import Libp2p.Protocol.Gossip.Defaults
import Libp2p.Protocol.Gossip.OnMessage
import Libp2p.Protocol.Gossip.RoundTrip

/-! # Batches survive the wire

A batch leaves the node as one RPC with everything but its messages and one RPC for every message. Who reads these RPCs
in their order and puts together what they say has what was in the batch, each kind in its order.
-/

namespace Libp2p.Gossip

open Library

/-- What a batch or an RPC says, one list for every kind. -/
@[ext]
structure Entries where
  subscriptions : List (TopicHash × Bool) := []
  graft : List TopicHash := []
  prune : List (TopicHash × Option Backoff) := []
  ihave : List (TopicHash × List MessageId) := []
  iwant : List MessageId := []
  idontwant : List MessageId := []
  publish : List Message := []
deriving DecidableEq

namespace Entries

def append (first second : Entries) : Entries where
  subscriptions := first.subscriptions ++ second.subscriptions
  graft := first.graft ++ second.graft
  prune := first.prune ++ second.prune
  ihave := first.ihave ++ second.ihave
  iwant := first.iwant ++ second.iwant
  idontwant := first.idontwant ++ second.idontwant
  publish := first.publish ++ second.publish

end Entries

/-- Everything in a batch. From whom this node has a message is not sent with it. -/
def Rpc.entries (rpc : Rpc) : Entries where
  subscriptions := rpc.subscriptions.entries.map fun entry => (entry.1, entry.2)
  graft := rpc.graft.elements
  prune := rpc.prune.entries.map fun entry => (entry.1, entry.2)
  ihave := rpc.ihave.entries.map fun entry => (entry.1, entry.2)
  iwant := rpc.iwant.elements
  idontwant := rpc.idontwant.elements
  publish := rpc.publish.map fun message => { message with receivedFrom := none }

/-- The message that `toProtobuf` wrote, read field by field as `onMessage` does. -/
def fromProtobuf (pbPublish : Pb.Message) : Option Message :=
  let message : Message :=
    { data := pbPublish.data.getD []
      seqno := pbPublish.seqno.map loadBigU64
      topic := pbPublish.topic.getD []
      signature := pbPublish.signature }
  match pbPublish.from_ with
  | none => some message
  | some bytes =>
    match PeerId.fromBytes bytes with
    | .error _ => none
    | .ok from_ => some { message with from_ := some from_ }

/-- What a decoded RPC says to `onMessage`. -/
def Pb.RPC.entries (rpc : Pb.RPC) : Option Entries :=
  (rpc.publish.mapM fromProtobuf).map fun publish =>
    { subscriptions := rpc.subscriptions.map fun part => (part.topicId.getD [], part.subscribe.getD false)
      graft := rpc.control.graft.map fun part => part.topicId.getD []
      prune := rpc.control.prune.map fun part => (part.topicId.getD [], State.pruneBackoff part)
      ihave := rpc.control.ihave.map fun part => (part.topicId.getD [], part.messageIds)
      iwant := rpc.control.iwant.flatMap Pb.ControlIWant.messageIds
      idontwant := rpc.control.idontwant.flatMap Pb.ControlIDontWant.messageIds
      publish }

/-- Decode RPCs in their order and merge what they say. -/
def readAll : List Bytes → Option Entries
  | [] => some {}
  | encoded :: rest => do
    let rpc ← Pb.RPC.decode encoded
    let entries ← rpc.entries
    let others ← readAll rest
    return entries.append others

/-- The values of a batch are those of their types, and `fromBytes` inverts `toVector` on its authors. -/
structure Rpc.Sendable (rpc : Rpc) : Prop where
  backoffs : ∀ entry ∈ rpc.prune.entries, ∀ backoff, entry.2 = some backoff → -2 ^ 63 ≤ backoff ∧ backoff < 2 ^ 63
  authors : ∀ message ∈ rpc.publish, ∀ from_, message.from_ = some from_ → PeerId.fromBytes from_.toVector = .ok from_

section Fields

/-- What is read so far, and one byte more of it. -/
theorem div_mul_add_mod (number place : ℕ) :
    number / 256 ^ (place + 1) * 256 + number / 256 ^ place % 256 = number / 256 ^ place := by
  rw [pow_succ, ← Nat.div_div_eq_div_mul]
  exact Nat.div_add_mod' _ _

/-- A sequence number comes back from its eight bytes. -/
theorem loadBigU64_storeBigU64 (value : UInt64) : loadBigU64 (storeBigU64 value) = value := by
  have top : value.toNat / 256 ^ 8 = 0 := Nat.div_eq_of_lt value.toNat_lt
  have step := div_mul_add_mod value.toNat
  have read : (storeBigU64 value).foldl (fun number byte => number * 256 + byte.toNat) (value.toNat / 256 ^ 8) =
      value.toNat / 256 ^ 0 := by
    simp only [storeBigU64, List.map_cons, List.map_nil, List.foldl_cons, List.foldl_nil, UInt8.toNat_ofNat']
    rw [step 7, step 6, step 5, step 4, step 3, step 2, step 1, step 0]
  rw [loadBigU64, ← top, read, pow_zero, Nat.div_one, UInt64.ofNat_toNat]

/-- A backoff survives its journey through an unsigned field of a message. -/
theorem toInt_ofInt {backoff : ℤ} (representable : -2 ^ 63 ≤ backoff ∧ backoff < 2 ^ 63) :
    (UInt64.ofInt backoff).toInt64.toInt = backoff := by
  have wrapped : (UInt64.ofInt backoff).toNat = (backoff % 2 ^ 64).toNat := by
    rw [UInt64.ofInt, UInt64.toNat_ofNat']
    omega
  change (UInt64.ofInt backoff).toBitVec.toInt = _
  rw [BitVec.toInt_eq_toNat_cond, UInt64.toNat_toBitVec, wrapped]
  split_ifs <;> omega

theorem fromProtobuf_toProtobuf {message : Message}
    (author : ∀ from_, message.from_ = some from_ → PeerId.fromBytes from_.toVector = .ok from_) :
    fromProtobuf (toProtobuf message) = some { message with receivedFrom := none } := by
  obtain ⟨from_, data, seqno, topic, signature, receivedFrom⟩ := message
  have number : (seqno.map storeBigU64).map loadBigU64 = seqno := by
    cases seqno with
    | none => rfl
    | some value => rw [Option.map_some, Option.map_some, loadBigU64_storeBigU64]
  cases from_ with
  | none => simp [fromProtobuf, toProtobuf, number]
  | some peerId => simp [fromProtobuf, toProtobuf, number, author peerId rfl]

end Fields

section Frames

variable {rpc : Rpc}

/-- Messages that are written one by one are read one by one. -/
theorem readAll_publish {messages : List Message}
    (authors : ∀ message ∈ messages, ∀ from_, message.from_ = some from_ → PeerId.fromBytes from_.toVector = .ok from_)
    (small : ∀ message ∈ messages, (Pb.RPC.encode { publish := [toProtobuf message] }).length < 2 ^ 35) :
    readAll (messages.map fun message => Pb.RPC.encode { publish := [toProtobuf message] }) =
      some { publish := messages.map fun message => { message with receivedFrom := none } } := by
  induction messages with
  | nil => rfl
  | cons message rest ih =>
    obtain ⟨author, authors⟩ := List.forall_mem_cons.mp authors
    obtain ⟨short, small⟩ := List.forall_mem_cons.mp small
    have decoded := Pb.RPC.decode_encode short (by simp [toProtobuf])
    have entries : Pb.RPC.entries { publish := [toProtobuf message] } =
        some { publish := [{ message with receivedFrom := none }] } := by
      simp [Pb.RPC.entries, fromProtobuf_toProtobuf author]
    rw [List.map_cons, readAll, decoded, Option.bind_eq_bind, Option.bind_some, entries, Option.bind_eq_bind,
      Option.bind_some, ih authors small]
    rfl

/-- The control part of a batch says everything but its messages. -/
theorem entries_controlRpc (sendable : rpc.Sendable) : rpc.controlRpc.entries = some { rpc.entries with publish := [] } := by
  have prune : rpc.controlRpc.control.prune.map (fun part => (part.topicId.getD [], State.pruneBackoff part)) =
      rpc.prune.entries.map fun entry => (entry.1, entry.2) := by
    rw [Rpc.controlRpc, List.map_map]
    refine List.map_congr_left fun entry member => ?_
    cases sent : entry.2 with
    | none => simp [State.pruneBackoff, sent]
    | some backoff =>
      simp [State.pruneBackoff, sent, toInt_ofInt (sendable.backoffs entry member backoff sent)]
  have iwant : rpc.controlRpc.control.iwant.flatMap Pb.ControlIWant.messageIds = rpc.iwant.elements := by
    rw [Rpc.controlRpc]
    dsimp only
    split_ifs with empty
    · rw [empty, List.flatMap_nil]
    · simp
  have idontwant : rpc.controlRpc.control.idontwant.flatMap Pb.ControlIDontWant.messageIds = rpc.idontwant.elements := by
    rw [Rpc.controlRpc]
    dsimp only
    split_ifs with empty
    · rw [empty, List.flatMap_nil]
    · simp
  rw [Pb.RPC.entries, prune, iwant, idontwant]
  simp [Rpc.controlRpc, Rpc.entries, Function.comp_def]

/-- Without a control part there are only messages. -/
theorem entries_of_not_hasControl (none_ : rpc.hasControl = false) :
    rpc.entries = { publish := rpc.entries.publish } := by
  simp only [Rpc.hasControl, Bool.or_eq_false_iff, decide_eq_false_iff_not, not_not] at none_
  obtain ⟨⟨⟨⟨⟨subscriptions, graft⟩, prune⟩, ihave⟩, iwant⟩, idontwant⟩ := none_
  simp [Rpc.entries, subscriptions, graft, prune, ihave, iwant, idontwant]

/-- An RPC that says something is not encoded as nothing. -/
theorem encode_ne_nil {pbMessage : Pb.RPC} (known : ∀ message ∈ pbMessage.publish, message.unknown = [] ∧ message.topic.isSome)
    (filled : pbMessage ≠ {}) : pbMessage.encode ≠ [] := by
  intro empty
  have decoded := Pb.RPC.decode_encode (empty ▸ by decide : pbMessage.encode.length < 2 ^ 35) known
  rw [empty] at decoded
  exact filled (Option.some.inj decoded).symm

theorem controlRpc_ne_empty (some_ : rpc.hasControl) : rpc.controlRpc ≠ {} := by
  intro empty
  have subscriptions := congrArg Pb.RPC.subscriptions empty
  have control := congrArg Pb.RPC.control empty
  simp only [Rpc.controlRpc, Pb.ControlMessage.mk.injEq, List.map_eq_nil_iff, ite_eq_left_iff, List.cons_ne_nil, imp_false,
    not_not] at subscriptions control
  obtain ⟨ihave, iwant, graft, prune, idontwant⟩ := control
  simp [Rpc.hasControl, subscriptions, ihave, iwant, graft, prune, idontwant] at some_

end Frames

/-- Decoding the RPCs of a batch in their order gives back everything in it. None of them is empty, and there are none
exactly if there is nothing in the batch. -/
theorem splitBatch_survives {rpc : Rpc} (sendable : rpc.Sendable) (small : ∀ frame ∈ rpc.splitBatch, frame.length < 2 ^ 35) :
    readAll rpc.splitBatch = some rpc.entries ∧ (∀ frame ∈ rpc.splitBatch, frame ≠ []) ∧
      (rpc.splitBatch = [] ↔ rpc.entries = {}) := by
  have read : readAll rpc.splitBatch = some rpc.entries := by
    have messages := readAll_publish sendable.authors fun message member =>
      small _ (List.mem_append_right _ (List.mem_map_of_mem member))
    unfold Rpc.splitBatch at small ⊢
    cases control : rpc.hasControl with
    | false =>
      rw [if_neg (by decide), List.nil_append, messages, entries_of_not_hasControl control]
      rfl
    | true =>
      rw [if_pos rfl, List.singleton_append]
      have decoded := Pb.RPC.decode_encode (small rpc.controlRpc.encode (by simp [control])) (by simp [Rpc.controlRpc])
      rw [readAll, decoded, Option.bind_eq_bind, Option.bind_some, entries_controlRpc sendable, Option.bind_eq_bind,
        Option.bind_some, messages, Option.bind_some]
      simp [Entries.append, Rpc.entries]
  refine ⟨read, ?_, ?_⟩
  · intro frame member
    rcases List.mem_append.mp member with control | message
    · obtain ⟨some_, member⟩ := List.mem_ite_nil_right.mp control
      rw [List.mem_singleton.mp member]
      exact encode_ne_nil (by simp [Rpc.controlRpc]) (controlRpc_ne_empty some_)
    · obtain ⟨sent, -, rfl⟩ := List.mem_map.mp message
      exact encode_ne_nil (by simp [toProtobuf]) (by simp)
  · constructor
    · intro none_
      rw [none_] at read
      exact (Option.some.inj read).symm
    · intro nothing
      have messages : rpc.publish = [] := by simpa [Rpc.entries] using congrArg Entries.publish nothing
      have control : rpc.hasControl = false := by
        simp only [Rpc.entries, Entries.mk.injEq, List.map_eq_nil_iff] at nothing
        obtain ⟨subscriptions, graft, prune, ihave, iwant, idontwant, -⟩ := nothing
        simp [Rpc.hasControl, subscriptions, graft, prune, ihave, iwant, idontwant]
      rw [Rpc.splitBatch, control, messages]
      rfl

/-- A batch with something of every kind. -/
def mixedBatch : Rpc :=
  [BatchOp.subscribe [0x74] true, .graft [0x74], .prune [0x75] (some 60), .prune [0x76] none, .ihave [0x74] [[1], [2]],
    .iwant [3], .idontwant [4], .publish { data := [1, 2], topic := [0x74] },
    .publish { from_ := some (samplePeerId 1), data := [], seqno := some 7, topic := [0x74], signature := some [5] }].foldl
      Rpc.apply {}

theorem splitBatch_survives_mixed : mixedBatch.Sendable ∧ (∀ frame ∈ mixedBatch.splitBatch, frame.length < 2 ^ 35) ∧
    readAll mixedBatch.splitBatch = some mixedBatch.entries := by
  have sendable : mixedBatch.Sendable := by
    constructor
    · decide
    · intro message member from_ author
      have authors : ∀ message ∈ mixedBatch.publish, message.from_ = none ∨ message.from_ = some (samplePeerId 1) := by
        decide
      rcases authors message member with none_ | same
      · rw [none_] at author
        cases author
      · obtain rfl := Option.some.inj (same.symm.trans author)
        decide +kernel
  have small : ∀ frame ∈ mixedBatch.splitBatch, frame.length < 2 ^ 35 := by decide +kernel
  exact ⟨sendable, small, (splitBatch_survives sendable small).1⟩

/-- A receiver that accepts a message of the batch understands it as it was. -/
theorem validate_toProtobuf {mode : ValidationMode} {rsaBits : RsaBits} {verify : Bytes → Bytes → PublicKey → Bool}
    {receivedFrom : PeerId} {message received : Message}
    (author : ∀ from_, message.from_ = some from_ → PeerId.fromBytes from_.toVector = .ok from_)
    (validated : validate mode rsaBits verify receivedFrom (toProtobuf message) = some received) :
    received.from_ = message.from_ ∧ received.data = message.data ∧ received.seqno = message.seqno ∧
      received.topic = message.topic ∧ received.signature.getD [] = message.signature.getD [] := by
  obtain ⟨from_, data, seqno, topic, signature, source⟩ := message
  cases mode with
  | strict =>
    obtain ⟨call, called, checked⟩ := Option.bind_eq_some_iff.mp validated
    obtain ⟨-, ⟨⟩⟩ := Option.ite_none_right_eq_some.mp checked
    obtain ⟨known, size, seqno_, -, signed, -⟩ := verifyCall_eq_some called
    rw [seqno_, signed]
    cases seqno with
    | none => exact absurd size (by simp [toProtobuf])
    | some number =>
      cases from_ with
      | none =>
        have refused : ∀ peerId, PeerId.fromBytes [] ≠ .ok peerId := fun peerId accepted => by cases accepted
        exact absurd known (refused call.from_)
      | some peerId =>
        have same : call.from_ = peerId := Except.ok.inj (known.symm.trans (author peerId rfl))
        simp [toProtobuf, same, loadBigU64_storeBigU64]
  | anonymous =>
    obtain ⟨unnamed, validated⟩ := Option.ite_none_left_eq_some.mp validated
    obtain ⟨unnumbered, validated⟩ := Option.ite_none_left_eq_some.mp validated
    obtain ⟨unsigned, ⟨⟩⟩ := Option.ite_none_left_eq_some.mp validated
    have number : seqno = none := by
      cases seqno with
      | none => rfl
      | some number => exact absurd unnumbered (by simp [toProtobuf, storeBigU64])
    have writer : from_ = none := by
      cases from_ with
      | none => rfl
      | some peerId => exact absurd unnamed (by simp [toProtobuf, PeerId.toVector, Multihash.toBuffer, Multihash.header])
    have bare : signature.getD [] = [] := not_not.mp unsigned
    simp [number, writer, bare, toProtobuf]

end Libp2p.Gossip
