import Libp2p.Crypto.CryptoProvider
import Libp2p.Protocol.Gossip.Config
import Libp2p.Protocol.Gossip.Protobuf

/-! # Messages on the wire and their validation

`toProtobuf` writes a message, `getSignable` gives the bytes that are signed, and `validate` is the check
that a received message passes before it is looked up, deduplicated and delivered.
-/

namespace Libp2p.Gossip

open Library

/-- The signing context, `libp2p-pubsub:`. -/
def kSigningContext : Bytes :=
  ['l', 'i', 'b', 'p', '2', 'p', '-', 'p', 'u', 'b', 's', 'u', 'b', ':'].map fun char => UInt8.ofNat char.toNat

/-- `store_big_u64`. -/
def storeBigU64 (value : UInt64) : Bytes :=
  [7, 6, 5, 4, 3, 2, 1, 0].map fun position => UInt8.ofNat (value.toNat / 256 ^ position)

/-- `load_big_u64`. -/
def loadBigU64 (bytes : Bytes) : UInt64 :=
  UInt64.ofNat (bytes.foldl (fun value byte => value * 256 + byte.toNat) 0)

/-- The internal message in its wire form; data and topic are always present. -/
def toProtobuf (message : Message) : Pb.Message where
  from_ := message.from_.map PeerId.toVector
  data := some message.data
  seqno := message.seqno.map storeBigU64
  topic := some message.topic
  signature := message.signature

/-- The signing context followed by the message without its signature and key. -/
def getSignable (pbPublish : Pb.Message) : Bytes :=
  kSigningContext ++ Pb.Message.encode { pbPublish with signature := none, key := none }

/-- The verification that Strict mode asks for. -/
structure VerifyCall where
  from_ : PeerId
  seqno : Seqno
  signable : Bytes
  signature : Bytes
  publicKey : PublicKey
deriving DecidableEq

/-- The arguments of `verify` for a received message, unless it is skipped before. -/
def verifyCall (rsaBits : RsaBits) (pbPublish : Pb.Message) : Option VerifyCall :=
  match PeerId.fromBytes (pbPublish.from_.getD []) with
  | .error _ => none
  | .ok from_ =>
    if (pbPublish.seqno.getD []).length ≠ 8 then none
    else
      (from_.publicKey rsaBits).map fun publicKey =>
        { from_
          seqno := loadBigU64 (pbPublish.seqno.getD [])
          signable := getSignable pbPublish
          signature := pbPublish.signature.getD []
          publicKey }

/-- The message that a received protocol buffer becomes, if it passes validation. -/
def validate (mode : ValidationMode) (rsaBits : RsaBits) (verify : Bytes → Bytes → PublicKey → Bool)
    (receivedFrom : PeerId) (pbPublish : Pb.Message) : Option Message :=
  let message : Message :=
    { data := pbPublish.data.getD [], topic := pbPublish.topic.getD [], receivedFrom := some receivedFrom }
  match mode with
  | .strict =>
    (verifyCall rsaBits pbPublish).bind fun call =>
      if verify call.signable call.signature call.publicKey then
        some { message with from_ := some call.from_, seqno := some call.seqno, signature := some call.signature }
      else none
  | .anonymous =>
    if pbPublish.from_.getD [] ≠ [] then none
    else if pbPublish.seqno.getD [] ≠ [] then none
    else if pbPublish.signature.getD [] ≠ [] then none
    else some message

theorem verifyCall_eq_some {rsaBits : RsaBits} {pbPublish : Pb.Message} {call : VerifyCall}
    (called : verifyCall rsaBits pbPublish = some call) :
    PeerId.fromBytes (pbPublish.from_.getD []) = .ok call.from_ ∧ (pbPublish.seqno.getD []).length = 8 ∧
      call.seqno = loadBigU64 (pbPublish.seqno.getD []) ∧ call.signable = getSignable pbPublish ∧
      call.signature = pbPublish.signature.getD [] ∧ call.from_.publicKey rsaBits = some call.publicKey := by
  unfold verifyCall at called
  split at called
  · cases called
  · next from_ accepted =>
    split_ifs at called with size
    obtain ⟨publicKey, present, rfl⟩ := Option.map_eq_some_iff.mp called
    exact ⟨accepted, not_not.mp size, rfl, rfl, rfl, present⟩

/-- Every verification that a received message causes is contained exactly when the sizes that nobody
checked fit: the signature's for an Ed25519 key, the key's for ECDSA. -/
theorem verifyCall_contained_iff {rsaBits : RsaBits} {providers : SignatureProviders} {pbPublish : Pb.Message}
    {call : VerifyCall} (called : verifyCall rsaBits pbPublish = some call) :
    CryptoProvider.Contained providers call.signable call.signature call.publicKey ↔
      CryptoProvider.Fitting providers call.signable call.signature call.publicKey := by
  obtain ⟨-, -, -, -, -, present⟩ := verifyCall_eq_some called
  obtain ⟨-, -, -, -, -, valid⟩ := PeerId.publicKey_eq_some present
  exact CryptoProvider.contained_iff_fitting valid

/-- Signature schemes that refuse everything. -/
def refusingProviders : SignatureProviders where
  rsa _ _ _ := .error .signatureVerificationFailed
  ed25519 _ _ _ := .error .signatureVerificationFailed
  secp256k1 _ _ _ := .error .signatureVerificationFailed
  ecdsa _ _ _ := .error .signatureVerificationFailed

/-- A message by the inline id of a marshalled key, without a signature. -/
def unsignedBy (protoKey : Bytes) : Pb.Message where
  from_ := some ([0x00, UInt8.ofNat protoKey.length] ++ protoKey)
  seqno := some (List.replicate 8 0)
  topic := some [0x74]

/-- A message by an Ed25519 key. -/
def signedBy (signature : Bytes) : Pb.Message :=
  { unsignedBy ([0x08, 0x01, 0x12, 0x20] ++ List.replicate 32 7) with signature := some signature }

/-- An Ed25519 signature of 64 bytes is verified within its buffers, one of 63 bytes is not. -/
theorem verifyCall_contained_ed25519 :
    (∃ call, verifyCall (fun _ => none) (signedBy (List.replicate 64 1)) = some call ∧
      CryptoProvider.Contained refusingProviders call.signable call.signature call.publicKey) ∧
    ∃ call, verifyCall (fun _ => none) (signedBy (List.replicate 63 1)) = some call ∧
      ¬ CryptoProvider.Contained refusingProviders call.signable call.signature call.publicKey := by
  have observed (count : ℕ) (size : count = 64 ∨ count = 63) :
      (verifyCall (fun _ => none) (signedBy (List.replicate count 1))).map
        (fun call => (call.publicKey.type, call.signature.length)) = some (.ed25519, count) := by
    rcases size with rfl | rfl <;> decide
  obtain ⟨call, called, parts⟩ := Option.map_eq_some_iff.mp (observed 64 (.inl rfl))
  obtain ⟨type, size⟩ := Prod.mk.inj parts
  obtain ⟨call', called', parts'⟩ := Option.map_eq_some_iff.mp (observed 63 (.inr rfl))
  obtain ⟨type', size'⟩ := Prod.mk.inj parts'
  refine ⟨⟨call, called, (verifyCall_contained_iff called).mpr ⟨fun _ => .inl size, fun ecdsa => ?_⟩⟩,
    call', called', fun contained => ?_⟩
  · rw [type] at ecdsa
    cases ecdsa
  · have sized := ((verifyCall_contained_iff called').mp contained).ed25519 type'
    omega

/-- An ECDSA key without data is accepted as an author, and its verification leaves the key buffer. -/
theorem ecdsa_verify_overread :
    ∃ call, verifyCall (fun _ => none) (unsignedBy [0x08, 0x03, 0x12, 0x00]) = some call ∧
      call.publicKey = ⟨.ecdsa, []⟩ ∧
      ¬ CryptoProvider.Contained refusingProviders call.signable call.signature call.publicKey := by
  have called : (verifyCall (fun _ => none) (unsignedBy [0x08, 0x03, 0x12, 0x00])).map VerifyCall.publicKey =
      some ⟨.ecdsa, []⟩ := by decide
  obtain ⟨call, called, key⟩ := Option.map_eq_some_iff.mp called
  refine ⟨call, called, key, fun contained => contained.inside ?_⟩
  rw [key]
  rfl

end Libp2p.Gossip
