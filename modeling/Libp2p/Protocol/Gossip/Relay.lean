import Libp2p.Protocol.Gossip.Defaults
import Libp2p.Protocol.Gossip.RoundTrip

/-! # What survives a relay

A message is checked as it was received and relayed as it was understood. The relay writes the fields that the node
keeps: data and topic are always present, the author is written with the shortest multihash, and unknown fields are
gone. The signature covers all of them, so it stays valid exactly for messages that were written like that.
-/

namespace Libp2p.Gossip

open Library WireFormat

/-- The limit of `readVarintMessage` on a frame. -/
def maxSize : ℕ := 32 * 2 ^ 20

section Sequence

/-- Eight bytes come back from the number they stand for. -/
theorem storeBigU64_loadBigU64 {bytes : Bytes} (size : bytes.length = 8) : storeBigU64 (loadBigU64 bytes) = bytes := by
  match bytes, size with
  | [b0, b1, b2, b3, b4, b5, b6, b7], _ =>
    have h0 := b0.toNat_lt
    have h1 := b1.toNat_lt
    have h2 := b2.toNat_lt
    have h3 := b3.toNat_lt
    have h4 := b4.toNat_lt
    have h5 := b5.toNat_lt
    have h6 := b6.toNat_lt
    have h7 := b7.toNat_lt
    simp only [storeBigU64, loadBigU64, List.foldl_cons, List.foldl_nil, List.map_cons, List.map_nil,
      List.cons.injEq, and_true, ← UInt8.toNat_inj, UInt8.toNat_ofNat', UInt64.toNat_ofNat']
    refine ⟨?_, ?_, ?_, ?_, ?_, ?_, ?_, ?_⟩ <;> omega

end Sequence

/-- The message as a relay writes it: data present, nothing unknown, the author in its shortest form. -/
structure Faithful (pbPublish : Pb.Message) : Prop where
  data : pbPublish.data.isSome
  known : pbPublish.unknown = []
  minimal : ∃ from_, PeerId.fromBytes (pbPublish.from_.getD []) = .ok from_ ∧
    from_.toVector = pbPublish.from_.getD []

variable {rsaBits : RsaBits} {verify : Bytes → Bytes → PublicKey → Bool} {receivedFrom : PeerId}
  {encoded : Bytes} {rpc : Pb.RPC} {pbPublish : Pb.Message} {message : Message}

/-- The relay of a message carries what was signed and the signature, arrives, and is accepted again. -/
structure Relayed (rsaBits : RsaBits) (verify : Bytes → Bytes → PublicKey → Bool) (pbPublish : Pb.Message)
    (message : Message) : Prop where
  signable : getSignable (toProtobuf message) = getSignable pbPublish
  signature : (toProtobuf message).signature.getD [] = pbPublish.signature.getD []
  received : ∀ batch : Rpc, message ∈ batch.publish →
    ∃ frame ∈ batch.splitBatch, Pb.RPC.decode frame = some { publish := [toProtobuf message] }
  accepted : ∀ peerId, validate .strict rsaBits verify peerId (toProtobuf message) =
    some { message with receivedFrom := some peerId }

/-- What Strict mode makes of a message. -/
theorem validate_strict_eq_some (accepted : validate .strict rsaBits verify receivedFrom pbPublish = some message) :
    ∃ call, verifyCall rsaBits pbPublish = some call ∧ verify call.signable call.signature call.publicKey ∧
      message = { data := pbPublish.data.getD [], topic := pbPublish.topic.getD []
                  receivedFrom := some receivedFrom, from_ := some call.from_, seqno := some call.seqno
                  signature := some call.signature } := by
  obtain ⟨call, called, passed⟩ := Option.bind_eq_some_iff.mp accepted
  obtain ⟨verified, ⟨⟩⟩ := Option.ite_none_right_eq_some.mp passed
  exact ⟨call, called, verified, rfl⟩

/-- The author and the sequence number of an accepted message are present. -/
theorem present_of_verifyCall {call : VerifyCall} (called : verifyCall rsaBits pbPublish = some call) :
    pbPublish.from_ = some (pbPublish.from_.getD []) ∧ pbPublish.seqno = some (pbPublish.seqno.getD []) := by
  obtain ⟨author, size, -⟩ := verifyCall_eq_some called
  constructor
  · cases present : pbPublish.from_ with
    | none =>
      rw [present] at author
      cases author
    | some bytes => rfl
  · cases present : pbPublish.seqno with
    | none =>
      rw [present] at size
      cases size
    | some bytes => rfl

/-- The fields that a relay writes. -/
theorem toProtobuf_eq {call : VerifyCall} (called : verifyCall rsaBits pbPublish = some call)
    (same : message = { data := pbPublish.data.getD [], topic := pbPublish.topic.getD []
                        receivedFrom := some receivedFrom, from_ := some call.from_, seqno := some call.seqno
                        signature := some call.signature }) :
    toProtobuf message = { from_ := some call.from_.toVector, data := some (pbPublish.data.getD [])
                           seqno := pbPublish.seqno, topic := some (pbPublish.topic.getD [])
                           signature := some (pbPublish.signature.getD []) } := by
  obtain ⟨-, size, seqno, -, signature, -⟩ := verifyCall_eq_some called
  have number := (present_of_verifyCall called).2
  rw [same, number]
  simp only [toProtobuf, Option.map_some, seqno, signature, storeBigU64_loadBigU64 size]

section Signable

/-- What is signed, field by field. -/
theorem getSignable_eq (pbPublish : Pb.Message) : getSignable pbPublish = kSigningContext ++
    (encodeFields (Pb.optional 1 pbPublish.from_) ++ (encodeFields (Pb.optional 2 pbPublish.data) ++
      (encodeFields (Pb.optional 3 pbPublish.seqno) ++ (encodeFields (Pb.optional 4 pbPublish.topic) ++
        encodeFields pbPublish.unknown)))) := by
  simp only [getSignable, Pb.Message.encode, Pb.Message.fields, encodeFields_append, List.append_assoc]
  rfl

theorem encodeFields_optional (number : ℕ) (data : Bytes) :
    encodeFields (Pb.optional number (some data)) = Field.encode ⟨number, .bytes data⟩ := by
  simp [encodeFields, Pb.optional]

theorem flat_bytes (number : ℕ) {data : Bytes} (positive : 0 < number) (bound : number < 2 ^ 29)
    (short : data.length ≤ maxSize) : Field.Flat ⟨number, .bytes data⟩ :=
  ⟨positive, bound, .inr ⟨data, rfl, short.trans_lt (by decide)⟩⟩

/-- What was signed determines the author, that data is present, and that nothing is unknown. -/
theorem faithful_of_signable {from_ : Bytes} (short : from_.length ≤ maxSize) (bounded : pbPublish.Bounded maxSize)
    (author : pbPublish.from_ = some (pbPublish.from_.getD []))
    (number : pbPublish.seqno = some (pbPublish.seqno.getD []))
    (same : getSignable { from_ := some from_, data := some (pbPublish.data.getD []), seqno := pbPublish.seqno
                          topic := pbPublish.topic } = getSignable pbPublish) :
    from_ = pbPublish.from_.getD [] ∧ pbPublish.data.isSome ∧ pbPublish.unknown = [] := by
  simp only [Pb.Message.Bounded, List.forall_mem_cons] at bounded
  obtain ⟨fromShort, dataShort, seqnoShort, -⟩ := bounded
  rw [getSignable_eq, getSignable_eq, author, encodeFields_optional 1 from_, encodeFields_optional 1 _] at same
  obtain ⟨authors, second⟩ := Field.encode_append_inj (flat_bytes 1 (by decide) (by decide) short)
    (flat_bytes 1 (by decide) (by decide) fromShort) (List.append_cancel_left same)
  refine ⟨by simpa using authors, ?_⟩
  cases present : pbPublish.data with
  | none =>
    -- The next field that was signed is the sequence number, and the relay writes data before it.
    rw [present, number] at second
    simp only [Option.getD_none, encodeFields_optional] at second
    obtain ⟨fields, -⟩ := Field.encode_append_inj (flat_bytes 2 (by decide) (by decide) (Nat.zero_le _))
      (flat_bytes 3 (by decide) (by decide) seqnoShort) second
    simp at fields
  | some bytes =>
    refine ⟨rfl, ?_⟩
    rw [present, Option.getD_some] at second
    have last := List.append_cancel_left (List.append_cancel_left (List.append_cancel_left second))
    exact encodeFields_eq_nil last.symm

end Signable

/-- A verification depends on the author, the sequence number, what was signed and the signature. -/
theorem verifyCall_congr {left right : Pb.Message} (from_ : left.from_ = right.from_) (seqno : left.seqno = right.seqno)
    (signable : getSignable left = getSignable right)
    (signature : left.signature.getD [] = right.signature.getD []) :
    verifyCall rsaBits left = verifyCall rsaBits right := by
  simp only [verifyCall, from_, seqno, signable, signature]

/-- A message in a batch is sent in a frame of its own. -/
theorem mem_splitBatch {batch : Rpc} (queued : message ∈ batch.publish) :
    Pb.RPC.encode { publish := [toProtobuf message] } ∈ batch.splitBatch :=
  List.mem_append_right _ (List.mem_map.mpr ⟨message, queued, rfl⟩)

/-- The relay of a message that Strict mode accepted is accepted by the next node exactly when the message was written
as a relay writes it. -/
theorem relayed_iff_faithful (bounded : encoded.length ≤ maxSize) (decoded : Pb.RPC.decode encoded = some rpc)
    (entry : pbPublish ∈ rpc.publish)
    (accepted : validate .strict rsaBits verify receivedFrom pbPublish = some message) :
    Relayed rsaBits verify pbPublish message ↔ Faithful pbPublish := by
  obtain ⟨call, called, verified, made⟩ := validate_strict_eq_some accepted
  obtain ⟨author, -, -, -, signature, -⟩ := verifyCall_eq_some called
  obtain ⟨authorPresent, seqnoPresent⟩ := present_of_verifyCall called
  obtain ⟨hasTopic, inside⟩ := Pb.RPC.mem_publish_decode decoded entry
  have topic : pbPublish.topic = some (pbPublish.topic.getD []) := by
    obtain ⟨bytes, found⟩ := Option.isSome_iff_exists.mp hasTopic
    rw [found, Option.getD_some]
  have inside : pbPublish.Bounded maxSize := fun part member => (inside part member).trans bounded
  have relay := toProtobuf_eq called made
  rw [← topic] at relay
  constructor
  · intro relayed
    have short : call.from_.toVector.length ≤ maxSize := (PeerId.toVector_length_le _).trans (by decide)
    have same := relayed.signable
    rw [relay] at same
    obtain ⟨minimal, data, known⟩ := faithful_of_signable short inside authorPresent seqnoPresent same
    exact ⟨data, known, call.from_, author, minimal⟩
  · rintro ⟨hasData, known, from_, author', minimal⟩
    obtain rfl : call.from_ = from_ := Except.ok.inj (author.symm.trans author')
    have data : pbPublish.data = some (pbPublish.data.getD []) := by
      obtain ⟨bytes, found⟩ := Option.isSome_iff_exists.mp hasData
      rw [found, Option.getD_some]
    rw [minimal, ← authorPresent, ← data] at relay
    have signable : getSignable (toProtobuf message) = getSignable pbPublish := by
      rw [relay, getSignable_eq, getSignable_eq, known]
    have signature : (toProtobuf message).signature.getD [] = pbPublish.signature.getD [] := by rw [relay]; rfl
    have again : verifyCall rsaBits (toProtobuf message) = some call := by
      rw [← called]
      exact verifyCall_congr (by rw [relay]) (by rw [relay]) signable signature
    refine ⟨signable, signature, ?_, ?_⟩
    · intro batch queued
      refine ⟨_, mem_splitBatch queued, ?_⟩
      have short : (toProtobuf message).Bounded maxSize := by
        simp only [Pb.Message.Bounded, List.forall_mem_cons, relay] at inside ⊢
        obtain ⟨from_, data, seqno, topic, signature, -⟩ := inside
        exact ⟨from_, data, seqno, topic, signature, by simp, by simp⟩
      have unknown : (toProtobuf message).unknown = [] := by rw [relay]
      have small : (Pb.RPC.encode { publish := [toProtobuf message] }).length < 2 ^ 35 := by
        have field := Field.encode_length_le 2 (toProtobuf message).encode
        have parts := Pb.Message.encode_length_le short unknown
        have whole : Pb.RPC.encode { publish := [toProtobuf message] } =
            Field.encode ⟨2, .bytes (toProtobuf message).encode⟩ := List.append_nil _
        rw [maxSize] at parts
        rw [whole]
        omega
      exact Pb.RPC.decode_encode small (List.forall_mem_singleton.mpr ⟨unknown, by rw [relay]; exact hasTopic⟩)
    · intro peerId
      have kept : (toProtobuf message).data.getD [] = pbPublish.data.getD [] := by rw [relay]
      have named : (toProtobuf message).topic.getD [] = pbPublish.topic.getD [] := by rw [relay]
      simp only [validate, again, Option.bind_some, verified, if_true, kept, named]
      rw [made]

theorem relayed_iff_faithful_sample : ∃ message,
    validate .strict (sampleEnv true 0).rsaBits (sampleEnv true 0).verify (samplePeerId 1)
      (sampleMessage 2 7 [0x74] [0x68]) = some message ∧
    Relayed (sampleEnv true 0).rsaBits (sampleEnv true 0).verify (sampleMessage 2 7 [0x74] [0x68]) message := by
  have short : (Pb.RPC.encode { publish := [sampleMessage 2 7 [0x74] [0x68]] }).length ≤ maxSize := by decide +kernel
  have decoded : Pb.RPC.decode (Pb.RPC.encode { publish := [sampleMessage 2 7 [0x74] [0x68]] }) =
      some { publish := [sampleMessage 2 7 [0x74] [0x68]] } := by decide +kernel
  have accepted : (validate .strict (sampleEnv true 0).rsaBits (sampleEnv true 0).verify (samplePeerId 1)
      (sampleMessage 2 7 [0x74] [0x68])).isSome := by decide
  have minimal : PeerId.fromBytes (samplePeerId 2).toVector = .ok (samplePeerId 2) := by decide +kernel
  obtain ⟨message, accepted⟩ := Option.isSome_iff_exists.mp accepted
  refine ⟨message, accepted, (relayed_iff_faithful short decoded (by simp) accepted).mpr ?_⟩
  exact ⟨rfl, rfl, samplePeerId 2, minimal, rfl⟩

/-- A signed message in which data is absent. -/
def datalessMessage : Pb.Message :=
  let unsigned : Pb.Message :=
    { from_ := some (samplePeerId 2).toVector, seqno := some (storeBigU64 7), topic := some [0x74] }
  { unsigned with signature := some (sampleKey 2 ++ getSignable unsigned) }

/-- The relay writes empty data where there was none, and the next node refuses what this one accepted. -/
theorem dataless_relay_refused : ∃ encoded rpc pbPublish message, encoded.length ≤ maxSize ∧
    Pb.RPC.decode encoded = some rpc ∧ pbPublish ∈ rpc.publish ∧
    validate .strict (sampleEnv true 0).rsaBits (sampleEnv true 0).verify (samplePeerId 1) pbPublish = some message ∧
    getSignable (toProtobuf message) ≠ getSignable pbPublish ∧
    validate .strict (sampleEnv true 0).rsaBits (sampleEnv true 0).verify (samplePeerId 1) (toProtobuf message) =
      none ∧
    ¬ Relayed (sampleEnv true 0).rsaBits (sampleEnv true 0).verify pbPublish message := by
  have short : (Pb.RPC.encode { publish := [datalessMessage] }).length ≤ maxSize := by decide +kernel
  have decoded : Pb.RPC.decode (Pb.RPC.encode { publish := [datalessMessage] }) =
      some { publish := [datalessMessage] } := by decide +kernel
  have observed : (validate .strict (sampleEnv true 0).rsaBits (sampleEnv true 0).verify (samplePeerId 1)
      datalessMessage).map (fun message => (decide (getSignable (toProtobuf message) = getSignable datalessMessage),
        validate .strict (sampleEnv true 0).rsaBits (sampleEnv true 0).verify (samplePeerId 1) (toProtobuf message))) =
      some (false, none) := by decide
  obtain ⟨message, accepted, results⟩ := Option.map_eq_some_iff.mp observed
  obtain ⟨changed, refused⟩ := Prod.mk.inj results
  have changed := of_decide_eq_false changed
  exact ⟨_, _, datalessMessage, message, short, decoded, by simp, accepted, changed, refused,
    fun relayed => changed relayed.signable⟩

end Libp2p.Gossip
